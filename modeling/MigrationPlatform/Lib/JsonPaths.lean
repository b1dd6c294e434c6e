import MigrationPlatform.Lib.JsonFields
import MigrationPlatform.Lib.PyTree

/-!
# Paths into documents and their schemas

`at?` goes down a document by the names of members, `schemaAt` goes down a schema by the
names of properties. A valid document is valid all the way down (`valid_schemaAt`), and
what a schema requires is there (`exists_of_required`).

`treeOf` is the tree that Python makes of a document; going down the one is going down the
other (`child_treeOf`).
-/

/-- What is found in a document at a path of names. -/
def Value.at? : List String → Value → Option Value
  | [], v => some v
  | name :: path, v => (v.get? name).bind (Value.at? path)

namespace JsonSchema

/-- The properties that a schema lists. -/
def propertiesOf : Value → List (String × Value)
  | .dict keywords => ((keywords.lookup "properties").map listed).getD []
  | _ => []

/-- What a schema declares at a path of names. -/
def schemaAt : List String → Value → Option Value
  | [], schema => some schema
  | name :: path, schema => ((propertiesOf schema).lookup name).bind (schemaAt path)

section Valid

variable {ext : String → Value → Value → Bool}

theorem keyword_of_valid {keywords : List (String × Value)} {d : Value}
    (h : valid ext (.dict keywords) d = true) {kw : String × Value} (hkw : kw ∈ keywords) :
    validKeyword ext (declaredNames keywords) kw d = true := by
  unfold valid at h
  exact validKeywords_iff.mp h kw hkw

/-- A member is valid under what is listed for it. -/
theorem valid_member {schema sub d v : Value} {name : String} (h : valid ext schema d = true)
    (hsub : (propertiesOf schema).lookup name = some sub) (hv : d.get? name = some v) :
    valid ext sub v = true := by
  cases schema with
  | dict keywords =>
      have hlisted : propertiesOf (.dict keywords)
          = ((keywords.lookup "properties").map listed).getD [] := rfl
      rw [hlisted] at hsub
      cases hprops : keywords.lookup "properties" with
      | none =>
          rw [hprops] at hsub
          cases hsub
      | some props =>
          rw [hprops] at hsub
          have hsub : (listed props).lookup name = some sub := hsub
          have hkeyword := keyword_of_valid h (mem_of_lookup hprops)
          have hobject : validObject ext props d = true := hkeyword
          cases props with
          | dict items =>
              unfold validObject at hobject
              exact validProperties_iff.mp hobject _ (mem_of_lookup hsub) v hv
          | _ => cases hsub
  | _ => cases hsub

/-- **A valid document is valid all the way down.** -/
theorem valid_schemaAt {path : List String} {schema sub d v : Value}
    (h : valid ext schema d = true) (hsub : schemaAt path schema = some sub)
    (hv : d.at? path = some v) : valid ext sub v = true := by
  induction path generalizing schema d with
  | nil =>
      obtain rfl := Option.some.inj hsub
      obtain rfl := Option.some.inj hv
      exact h
  | cons name path ih =>
      obtain ⟨schema', hschema', hsub⟩ := Option.bind_eq_some_iff.mp hsub
      obtain ⟨d', hd', hv⟩ := Option.bind_eq_some_iff.mp hv
      exact ih (valid_member h hschema' hd') hsub hv

/-- What an object is required to have is there. -/
theorem exists_of_required {keywords : List (String × Value)} {names : List Value} {d : Value}
    (h : valid ext (.dict keywords) d = true)
    (htype : ("type", Value.str "object") ∈ keywords)
    (hrequired : ("required", Value.list names) ∈ keywords) {name : String}
    (hname : Value.str name ∈ names) : ∃ v, d.get? name = some v := by
  have hobject : meetsType (.str "object") d = true := keyword_of_valid h htype
  cases d with
  | dict items =>
      have hall : meetsRequired (.list names) (.dict items) = true := keyword_of_valid h hrequired
      have hhas := List.all_eq_true.mp hall _ hname
      exact Option.isSome_iff_exists.mp hhas
  | _ => cases hobject

end Valid

end JsonSchema

namespace Py

mutual

/-- A document as Python loads it, by the `repr` of the floats. -/
def treeOf (repr : Rat → String) : Value → Tree
  | .null => .null
  | .bool b => .bool b
  | .num q => if q.den = 1 then .int q.num else .float (repr q)
  | .str s => .str s
  | .list vs => .list (treesOf repr vs)
  | .dict items => .dict (bindingsOf repr items)
termination_by structural v => v

def treesOf (repr : Rat → String) : List Value → List Tree
  | [] => []
  | v :: vs => treeOf repr v :: treesOf repr vs
termination_by structural vs => vs

def bindingsOf (repr : Rat → String) : List (String × Value) → List (Key × Tree)
  | [] => []
  | b :: items => bindingOf repr b :: bindingsOf repr items
termination_by structural items => items

def bindingOf (repr : Rat → String) : String × Value → Key × Tree
  | (key, v) => (.name key, treeOf repr v)
termination_by structural b => b

end

theorem lookup_bindingsOf (repr : Rat → String) (name : String) (items : List (String × Value)) :
    (bindingsOf repr items).lookup (.name name) = (items.lookup name).map (treeOf repr) := by
  induction items with
  | nil => rfl
  | cons b items ih =>
      obtain ⟨key, v⟩ := b
      show List.lookup (Key.name name) ((Key.name key, treeOf repr v) :: bindingsOf repr items) = _
      rw [List.lookup_cons, List.lookup_cons, ih]
      by_cases hkey : name = key
      · rw [hkey, beq_self_eq_true, beq_self_eq_true]
        rfl
      · have hne : (Key.name name == Key.name key) = false :=
          beq_eq_false_iff_ne.mpr fun he => hkey (Key.name.inj he)
        rw [hne, beq_eq_false_iff_ne.mpr hkey]

/-- **Down the tree is down the document.** -/
theorem child_treeOf (repr : Rat → String) (name : String) (v : Value) :
    Tree.child (.name name) (treeOf repr v) = (v.get? name).map (treeOf repr) := by
  cases v with
  | dict items => exact lookup_bindingsOf repr name items
  | num q =>
      unfold treeOf
      split <;> rfl
  | _ => rfl

end Py
