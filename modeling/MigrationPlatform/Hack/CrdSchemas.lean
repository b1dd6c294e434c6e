import MigrationPlatform.Lib.JsonFields

/-!
# Strict schemas from CRDs

`to_json_schema` of `hack/crd-schemas.py` turns the schema of a CRD into a JSON
schema that rejects unknown fields. It drops the `x-kubernetes-` keywords, says
int-or-string as a `oneOf`, and closes every object that declares properties.

The conversion is compared with what the schema means to Kubernetes: a document
is accepted exactly when it is valid there and has no undeclared key where the
schema closes an object. The schemas are the structural ones, in which no branch of
a logical keyword makes an object. Of the keywords that Kubernetes adds, the meaning
has int-or-string and the preserved fields only: `nullable`, the validation rules, the
types of lists and embedded resources are not looked at.
-/

namespace MigrationPlatform.Hack

open JsonSchema

/-! ## The conversion -/

/-- `s.startswith(pre)`. -/
def startsWith (s pre : String) : Bool := pre.toList.isPrefixOf s.toList

/-- `node.get("x-kubernetes-preserve-unknown-fields", False)`, as a condition. -/
def preserve (node : List (String × Value)) : Bool :=
  (node.lookup "x-kubernetes-preserve-unknown-fields").any Value.truthy

/-- `node.get("x-kubernetes-int-or-string")`, as a condition. -/
def intOrString (node : List (String × Value)) : Bool :=
  (node.lookup "x-kubernetes-int-or-string").any Value.truthy

/-- `out.get("type") == "object"`. -/
def typeIsObject (out : List (String × Value)) : Bool :=
  (out.lookup "type").any fun t => t.eqv (.str "object")

/-- What an int-or-string node becomes. -/
def stringOrInteger : Value :=
  .list [.dict [("type", .str "string")], .dict [("type", .str "integer")]]

/-- The end of `to_json_schema`, after the loop over the keywords. -/
def finish (node out : List (String × Value)) : List (String × Value) :=
  let out :=
    if intOrString node then Items.set (Items.pop out "type") "oneOf" stringOrInteger else out
  if typeIsObject out && Items.has out "properties" && !Items.has out "additionalProperties"
      && !preserve node then
    Items.set out "additionalProperties" (.bool false)
  else out

mutual

/-- `to_json_schema`. -/
def toJsonSchema : Value → Value
  | .list nodes => .list (toJsonSchemas nodes)
  | .dict node => .dict (finish node (convertItems node))
  | v => v
termination_by structural node => node

def toJsonSchemas : List Value → List Value
  | [] => []
  | node :: rest => toJsonSchema node :: toJsonSchemas rest
termination_by structural nodes => nodes

/-- The loop over the keywords. -/
def convertItems : List (String × Value) → List (String × Value)
  | [] => []
  | kw :: rest =>
      if startsWith kw.1 "x-kubernetes-" then convertItems rest
      else convertItem kw :: convertItems rest
termination_by structural items => items

def convertItem : String × Value → String × Value
  | (key, value) =>
      if key = "properties" then (key, convertObject value)
      else if key = "items" || key = "additionalProperties" || key = "not" then
        (key, if value.isDict then toJsonSchema value else value)
      else if key = "allOf" || key = "anyOf" || key = "oneOf" then (key, convertBranches value)
      else (key, value)
termination_by structural item => item

/-- A dict of named schemas; any other value is kept. -/
def convertObject : Value → Value
  | .dict props => .dict (convertProperties props)
  | v => v
termination_by structural value => value

/-- A list of schemas; any other value is kept. -/
def convertBranches : Value → Value
  | .list nodes => .list (toJsonSchemas nodes)
  | v => v
termination_by structural value => value

def convertProperties : List (String × Value) → List (String × Value)
  | [] => []
  | prop :: rest => convertProperty prop :: convertProperties rest
termination_by structural props => props

def convertProperty : String × Value → String × Value
  | (name, sub) => (name, toJsonSchema sub)
termination_by structural prop => prop

end

/-! ## What the schema means to Kubernetes -/

section Meaning

variable (assertion : String → Value → Value → Bool)

/--
The extension keywords of Kubernetes, over what `assertion` says of all others. Only
int-or-string judges a document.
-/
def kubernetes (key : String) (value d : Value) : Bool :=
  if key = "x-kubernetes-int-or-string" then
    match value with
    | .bool true => isString d || isInteger d
    | _ => true
  else if startsWith key "x-kubernetes-" then true
  else assertion key value d

end Meaning

/-- Unknown fields of such an object are errors. -/
def strict (keywords : List (String × Value)) : Bool :=
  typeIsObject keywords && Items.has keywords "properties"
    && !Items.has keywords "additionalProperties" && !preserve keywords

mutual

/-- No position of the document has an undeclared key where the schema closes an object. -/
def declared : Value → Value → Bool
  | .dict keywords, d =>
      (!strict keywords || hasOnly (declaredNames keywords) d)
        && declaredKeywords (declaredNames keywords) keywords d
  | _, _ => true
termination_by structural schema => schema

def declaredKeywords (names : List String) : List (String × Value) → Value → Bool
  | [], _ => true
  | kw :: rest, d => declaredKeyword names kw d && declaredKeywords names rest d
termination_by structural keywords => keywords

/-- The positions that a keyword leads to. -/
def declaredKeyword (names : List String) : String × Value → Value → Bool
  | (key, value), d =>
      if key = "properties" then declaredObject value d
      else if key = "items" then
        match d with
        | .list ds => ds.all fun d => declared value d
        | _ => true
      else if key = "additionalProperties" then
        match d with
        | .dict items => items.all fun b => names.contains b.1 || declared value b.2
        | _ => true
      else true
termination_by structural keyword => keyword

def declaredObject : Value → Value → Bool
  | .dict props, d => declaredProperties props d
  | _, _ => true
termination_by structural value => value

def declaredProperties : List (String × Value) → Value → Bool
  | [], _ => true
  | prop :: rest, d => declaredProperty prop d && declaredProperties rest d
termination_by structural props => props

def declaredProperty : String × Value → Value → Bool
  | (name, schema), d =>
      match d.get? name with
      | some v => declared schema v
      | none => true
termination_by structural prop => prop

end

/-! ## Structural schemas -/

/-- The value is a boolean. -/
def isBool : Value → Bool
  | .bool _ => true
  | _ => false

/-- The types that a branch of a logical keyword may give; `object` is not one of them. -/
structure BranchTypes where
  given : Value → Bool
  not_object : ∀ type, given type = true → type.eqv (.str "object") = false

/-- No type at all. -/
def BranchTypes.none : BranchTypes where
  given _ := false
  not_object _ h := by cases h

/-- Every type but `object`, as in `anyOf: [{type: integer}, {type: string}]`. -/
def BranchTypes.butObject : BranchTypes where
  given type := !type.eqv (.str "object")
  not_object _ h := by simpa using h

section Structural

variable (types : BranchTypes)

mutual

/--
The schema is structural. Where any type may be given is `typed`: everywhere but in the
branches of the logical keywords.
-/
def structuralSchema : Value → Bool → Bool
  | .dict keywords, typed =>
      decide (keywords.map Prod.fst).Nodup
        && (!intOrString keywords || (!Items.has keywords "type" && !Items.has keywords "oneOf"))
        && structuralKeywords keywords typed
  | _, _ => false
termination_by structural schema => schema

def structuralKeywords : List (String × Value) → Bool → Bool
  | [], _ => true
  | kw :: rest, typed => structuralKeyword kw typed && structuralKeywords rest typed
termination_by structural keywords => keywords

/-- What a keyword of a structural schema may be. -/
def structuralKeyword : String × Value → Bool → Bool
  | (key, value), typed =>
      if key = "type" then isString value && (typed || types.given value)
      else if key = "properties" then structuralObject value typed
      else if key = "items" then structuralSchema value typed
      else if key = "additionalProperties" then isBool value || structuralSchema value typed
      else if key = "not" then structuralSchema value false
      else if key = "allOf" || key = "anyOf" || key = "oneOf" then structuralLogic value
      else if key = "x-kubernetes-preserve-unknown-fields"
          || key = "x-kubernetes-int-or-string" then
        isBool value
      else true
termination_by structural keyword => keyword

def structuralObject : Value → Bool → Bool
  | .dict props, typed => structuralProperties props typed
  | _, _ => false
termination_by structural value => value

def structuralProperties : List (String × Value) → Bool → Bool
  | [], _ => true
  | prop :: rest, typed => structuralProperty prop typed && structuralProperties rest typed
termination_by structural props => props

def structuralProperty : String × Value → Bool → Bool
  | (_, schema), typed => structuralSchema schema typed
termination_by structural prop => prop

/-- The branches of `allOf`, `anyOf` and `oneOf`. -/
def structuralLogic : Value → Bool
  | .list schemas => structuralBranches schemas
  | _ => false
termination_by structural value => value

def structuralBranches : List Value → Bool
  | [] => true
  | schema :: rest => structuralSchema schema false && structuralBranches rest
termination_by structural schemas => schemas

end

end Structural

/-- The schema is structural, and no branch gives a type. -/
def structural (schema : Value) (typed : Bool) : Bool := structuralSchema .none schema typed

/--
The schema is structural, and a branch may give any type but `object`. Kubernetes itself
allows the types in a branch that say int-or-string.
-/
def structuralCrd (schema : Value) : Bool := structuralSchema .butObject schema true

/-! ## The loop keeps what it does not drop -/

section Convert

variable {keywords : List (String × Value)} {key : String} {types : BranchTypes} {typed : Bool}

theorem convertItem_fst (kw : String × Value) : (convertItem kw).1 = kw.1 := by
  obtain ⟨key, value⟩ := kw
  simp only [convertItem]
  split_ifs <;> rfl

/-- A keyword that is not dropped is found with its value converted. -/
theorem lookup_convertItems (h : startsWith key "x-kubernetes-" = false) :
    (convertItems keywords).lookup key
      = (keywords.lookup key).map fun value => (convertItem (key, value)).2 := by
  induction keywords with
  | nil => rfl
  | cons kw rest ih =>
      obtain ⟨key', value⟩ := kw
      rw [convertItems]
      by_cases hk : key = key'
      · subst hk
        have hfst : (convertItem (key, value)).1 = key := convertItem_fst (key, value)
        rw [if_neg (by rw [h]; decide), List.lookup_cons, List.lookup_cons, hfst,
          beq_self_eq_true]
        rfl
      · have hne : (key == key') = false := beq_eq_false_iff_ne.mpr hk
        have hfst : (convertItem (key', value)).1 = key' := convertItem_fst (key', value)
        split
        · rw [List.lookup_cons, hne]
          exact ih
        · rw [List.lookup_cons, List.lookup_cons, hfst, hne]
          exact ih

theorem has_convertItems (h : startsWith key "x-kubernetes-" = false) :
    Items.has (convertItems keywords) key = Items.has keywords key := by
  simp [Items.has, lookup_convertItems h]

theorem typeIsObject_convertItems :
    typeIsObject (convertItems keywords) = typeIsObject keywords := by
  rw [typeIsObject, lookup_convertItems (by decide)]
  have hkeep : (fun value => (convertItem ("type", value)).2) = id := by
    funext value
    simp [convertItem]
  rw [hkeep, Option.map_id]
  rfl

theorem convertProperties_eq (props : List (String × Value)) :
    convertProperties props = props.map fun b => (b.1, toJsonSchema b.2) := by
  induction props with
  | nil => rfl
  | cons b props ih => rw [convertProperties, convertProperty, ih, List.map_cons]

theorem fst_convertProperties (props : List (String × Value)) :
    (convertProperties props).map Prod.fst = props.map Prod.fst := by
  rw [convertProperties_eq, List.map_map]
  rfl

/-- The conversion declares the same properties. -/
theorem declaredNames_convertItems :
    declaredNames (convertItems keywords) = declaredNames keywords := by
  rw [declaredNames, declaredNames, lookup_convertItems (by decide)]
  cases keywords.lookup "properties" with
  | none => rfl
  | some value =>
      simp only [Option.map_some, convertItem]
      cases value with
      | dict props => exact fst_convertProperties props
      | _ => rfl

/-- A keyword at the end does not change what is declared. -/
theorem declaredNames_append (value : Value) (h : key ≠ "properties") :
    declaredNames (keywords ++ [(key, value)]) = declaredNames keywords := by
  rw [declaredNames, Items.lookup_append_ne keywords value (Ne.symm h), declaredNames]

theorem structuralKeywords_iff :
    structuralKeywords types keywords typed = true
      ↔ ∀ kw ∈ keywords, structuralKeyword types kw typed = true := by
  induction keywords with
  | nil => simp [structuralKeywords]
  | cons kw keywords ih =>
      rw [structuralKeywords, Bool.and_eq_true, ih, List.forall_mem_cons]

/-- A branch of a logical keyword is not said to be an object. -/
theorem typeIsObject_branch (h : structuralKeywords types keywords false = true) :
    typeIsObject keywords = false := by
  unfold typeIsObject
  cases hlookup : keywords.lookup "type" with
  | none => rfl
  | some type =>
      have hkw := structuralKeywords_iff.mp h _ (mem_of_lookup hlookup)
      simp only [structuralKeyword, if_true, Bool.false_or, Bool.and_eq_true] at hkw
      exact types.not_object type hkw.2

theorem typeIsObject_of_not_has (h : Items.has keywords "type" = false) :
    typeIsObject keywords = false := by
  rw [Items.has, Option.isSome_eq_false_iff, Option.isNone_iff_eq_none] at h
  rw [typeIsObject, h]
  rfl

theorem startsWith_of_mem_standard (h : key ∈ standardKeywords) :
    startsWith key "x-kubernetes-" = false := by
  have hall : ∀ key ∈ standardKeywords, startsWith key "x-kubernetes-" = false := by decide
  exact hall key h

end Convert

/-! ## The equivalence -/

section Equivalence

variable (assertion : String → Value → Value → Bool) {types : BranchTypes}

/-- What Kubernetes requires beyond the keywords that the loop keeps. -/
def extension (d : Value) (kw : String × Value) : Bool :=
  !startsWith kw.1 "x-kubernetes-" || kubernetes assertion kw.1 kw.2 d

theorem extension_of_ne {kw : String × Value} (d : Value)
    (h : kw.1 ≠ "x-kubernetes-int-or-string") : extension assertion d kw = true := by
  cases hs : startsWith kw.1 "x-kubernetes-" <;> simp [extension, kubernetes, h, hs]

/-- The extension keywords of a node come down to int-or-string. -/
theorem all_extension {keywords : List (String × Value)} {typed : Bool} (d : Value)
    (hnodup : (keywords.map Prod.fst).Nodup)
    (h : structuralKeywords types keywords typed = true) :
    keywords.all (extension assertion d)
      = (!intOrString keywords || (isString d || isInteger d)) := by
  induction keywords with
  | nil => rfl
  | cons kw rest ih =>
      obtain ⟨key, value⟩ := kw
      rw [List.map_cons, List.nodup_cons] at hnodup
      rw [structuralKeywords, Bool.and_eq_true] at h
      have ih := ih hnodup.2 h.2
      rw [List.all_cons]
      by_cases hk : key = "x-kubernetes-int-or-string"
      · subst hk
        -- the key is there once, and its value is a boolean
        have hrest : rest.all (extension assertion d) = true := by
          refine List.all_eq_true.mpr fun kw hkw => extension_of_ne assertion d fun he => ?_
          exact hnodup.1 (List.mem_map.mpr ⟨kw, hkw, he⟩)
        have hbool : isBool value = true := by simpa [structuralKeyword] using h.1
        cases value with
        | bool b =>
            cases b <;>
              simp [hrest, extension, startsWith, kubernetes, intOrString, Value.truthy]
        | _ => cases hbool
      · have hlookup : intOrString ((key, value) :: rest) = intOrString rest := by
          simp [intOrString, List.lookup_cons, beq_eq_false_iff_ne.mpr (Ne.symm hk)]
        rw [extension_of_ne assertion d hk, Bool.true_and, ih, hlookup]

theorem not_strict_of_not_object {keywords : List (String × Value)}
    (h : typeIsObject keywords = false) : strict keywords = false := by
  simp [strict, h]

/-- An int-or-string node ends in a `oneOf`. -/
theorem finish_intOrString {keywords : List (String × Value)} (hi : intOrString keywords = true)
    (htype : Items.has keywords "type" = false) (honeOf : Items.has keywords "oneOf" = false) :
    finish keywords (convertItems keywords)
      = convertItems keywords ++ [("oneOf", stringOrInteger)] := by
  have htype' : Items.has (convertItems keywords) "type" = false :=
    (has_convertItems (by decide)).trans htype
  have honeOf' : Items.has (convertItems keywords) "oneOf" = false :=
    (has_convertItems (by decide)).trans honeOf
  have hend : Items.has (convertItems keywords ++ [("oneOf", stringOrInteger)]) "type" = false := by
    rw [Items.has_eq_false] at htype' ⊢
    intro b hb
    rcases List.mem_append.mp hb with hb | hb
    · exact htype' b hb
    · rw [List.mem_singleton.mp hb]; decide
  simp only [finish, hi, if_true, Items.pop_of_not_has htype', Items.set_of_not_has _ honeOf',
    typeIsObject_of_not_has hend, Bool.false_and, Bool.false_eq_true, if_false]

/-- Any other node is closed exactly when it is strict. -/
theorem finish_other {keywords : List (String × Value)} (hi : intOrString keywords = false) :
    finish keywords (convertItems keywords)
      = if strict keywords then convertItems keywords ++ [("additionalProperties", .bool false)]
        else convertItems keywords := by
  have hhas : ∀ key ∈ standardKeywords,
      Items.has (convertItems keywords) key = Items.has keywords key :=
    fun key hkey => has_convertItems (startsWith_of_mem_standard hkey)
  simp only [finish, hi, Bool.false_eq_true, if_false, typeIsObject_convertItems,
    hhas "properties" (by decide), hhas "additionalProperties" (by decide)]
  rw [← strict]
  cases hs : strict keywords with
  | true =>
      have hnot : Items.has keywords "additionalProperties" = false := by
        simp only [strict, Bool.and_eq_true, Bool.not_eq_true'] at hs
        exact hs.1.2
      rw [if_pos rfl, if_pos rfl,
        Items.set_of_not_has _ ((has_convertItems (by decide)).trans hnot)]
  | false => rfl

theorem and_swap (a b c d : Bool) : ((a && b) && (c && d)) = ((a && c) && (b && d)) := by
  rw [Bool.and_assoc, Bool.and_left_comm b, ← Bool.and_assoc]

theorem all_and_all {α : Type} (as : List α) (p q : α → Bool) :
    (as.all fun a => p a && q a) = (as.all p && as.all q) := by
  induction as with
  | nil => rfl
  | cons a as ih => rw [List.all_cons, List.all_cons, List.all_cons, ih, and_swap]

theorem isDict_of_structural {value : Value} {typed : Bool}
    (h : structuralSchema types value typed = true) : value.isDict = true := by
  cases value with
  | dict keywords => rfl
  | _ => cases h

theorem length_toJsonSchemas (schemas : List Value) :
    (toJsonSchemas schemas).length = schemas.length := by
  induction schemas with
  | nil => rfl
  | cons schema rest ih => simp [toJsonSchemas, ih]

/-- A keyword that is neither standard nor of Kubernetes is kept as it is. -/
theorem keyword_other {key : String} {value : Value} {typed : Bool} (names : List String)
    (d : Value) (hstd : key ∉ standardKeywords) :
    ((startsWith key "x-kubernetes-" || validKeyword assertion names (convertItem (key, value)) d)
        && extension assertion d (key, value))
      = (validKeyword (kubernetes assertion) names (key, value) d
        && (!typed || declaredKeyword names (key, value) d)) := by
  have hne : ∀ k ∈ standardKeywords, key ≠ k := fun k hk he => hstd (he ▸ hk)
  have hdecl : declaredKeyword names (key, value) d = true := by
    simp [declaredKeyword, hne "properties" (by decide), hne "items" (by decide),
      hne "additionalProperties" (by decide)]
  have hconv : convertItem (key, value) = (key, value) := by
    simp [convertItem, hne "properties" (by decide), hne "items" (by decide),
      hne "additionalProperties" (by decide), hne "not" (by decide), hne "allOf" (by decide),
      hne "anyOf" (by decide), hne "oneOf" (by decide)]
  rw [hdecl, hconv, validKeyword_ext _ hstd, validKeyword_ext _ hstd]
  cases hx : startsWith key "x-kubernetes-" with
  | true => simp [extension, hx]
  | false =>
      have hios : key ≠ "x-kubernetes-int-or-string" := by
        rintro rfl
        exact absurd hx (by decide)
      simp [extension, hx, kubernetes, hios]

/-- The end of the conversion adds the two requirements that the loop leaves out. -/
theorem valid_finish {keywords : List (String × Value)} {typed : Bool} (d : Value)
    (h : structuralSchema types (.dict keywords) typed = true) :
    valid assertion (toJsonSchema (.dict keywords)) d
      = (validKeywords assertion (declaredNames keywords) (convertItems keywords) d
        && keywords.all (extension assertion d)
        && (!typed || !strict keywords || hasOnly (declaredNames keywords) d)) := by
  rw [structuralSchema, Bool.and_eq_true, Bool.and_eq_true, decide_eq_true_eq] at h
  obtain ⟨⟨hnodup, hios⟩, hkws⟩ := h
  rw [toJsonSchema, valid, all_extension assertion d hnodup hkws]
  cases hi : intOrString keywords with
  | true =>
      obtain ⟨htype, honeOf⟩ :
          Items.has keywords "type" = false ∧ Items.has keywords "oneOf" = false := by
        simpa [hi] using hios
      rw [finish_intOrString hi htype honeOf, validKeywords_append,
        declaredNames_append _ (by decide), declaredNames_convertItems,
        not_strict_of_not_object (typeIsObject_of_not_has htype)]
      simp [validKeywords, stringOrInteger, validKeyword_string_or_integer]
  | false =>
      rw [finish_other hi]
      cases hs : strict keywords with
      | true =>
          have htyped : typed = true := by
            by_contra hne
            rw [Bool.not_eq_true] at hne
            subst hne
            rw [not_strict_of_not_object (typeIsObject_branch hkws)] at hs
            cases hs
          rw [if_pos rfl, validKeywords_append, declaredNames_append _ (by decide),
            declaredNames_convertItems]
          simp [validKeywords, validKeyword_closed, htyped]
      | false => simp [declaredNames_convertItems]

mutual

/-- **The conversion means what the schema means**, and is strict where types are given. -/
theorem valid_convert (schema : Value) (typed : Bool) (d : Value)
    (h : structuralSchema types schema typed = true) :
    valid assertion (toJsonSchema schema) d
      = (valid (kubernetes assertion) schema d && (!typed || declared schema d)) := by
  cases schema with
  | dict keywords =>
      have hkws : structuralKeywords types keywords typed = true := by
        rw [structuralSchema, Bool.and_eq_true] at h
        exact h.2
      rw [valid_finish assertion d h, valid_keywords keywords typed (declaredNames keywords) d hkws,
        valid, declared]
      cases typed <;> cases strict keywords <;>
        simp [Bool.and_assoc, Bool.and_comm]
  | _ => cases h
termination_by structural schema

theorem valid_keywords (keywords : List (String × Value)) (typed : Bool) (names : List String)
    (d : Value) (h : structuralKeywords types keywords typed = true) :
    (validKeywords assertion names (convertItems keywords) d
        && keywords.all (extension assertion d))
      = (validKeywords (kubernetes assertion) names keywords d
        && (!typed || declaredKeywords names keywords d)) := by
  cases keywords with
  | nil => cases typed <;> rfl
  | cons kw rest =>
      rw [structuralKeywords, Bool.and_eq_true] at h
      have ih := valid_keywords rest typed names d h.2
      have hkw := valid_keyword kw typed names d h.1
      have hsplit : validKeywords assertion names (convertItems (kw :: rest)) d
          = ((startsWith kw.1 "x-kubernetes-" || validKeyword assertion names (convertItem kw) d)
            && validKeywords assertion names (convertItems rest) d) := by
        rw [convertItems]
        cases hx : startsWith kw.1 "x-kubernetes-" <;> simp [validKeywords]
      rw [hsplit, List.all_cons, and_swap, hkw, ih, and_swap,
        validKeywords, declaredKeywords]
      cases typed <;> simp
termination_by structural keywords

theorem valid_keyword (kw : String × Value) (typed : Bool) (names : List String)
    (d : Value) (h : structuralKeyword types kw typed = true) :
    ((startsWith kw.1 "x-kubernetes-" || validKeyword assertion names (convertItem kw) d)
        && extension assertion d kw)
      = (validKeyword (kubernetes assertion) names kw d
        && (!typed || declaredKeyword names kw d)) := by
  obtain ⟨key, value⟩ := kw
  have hschema := valid_convert value
  have hobject := valid_object value typed d
  have hbranches := valid_branches value d
  by_cases hstd : key ∈ standardKeywords
  · have hx := startsWith_of_mem_standard hstd
    simp only [hx, extension, Bool.false_or, Bool.not_false, Bool.true_or, Bool.and_true]
    simp only [standardKeywords, List.mem_cons, List.not_mem_nil, or_false] at hstd
    rcases hstd with rfl | rfl | rfl | rfl | rfl | rfl | rfl | rfl | rfl | rfl
    · simp [convertItem, validKeyword, declaredKeyword]
    · simp [convertItem, validKeyword, declaredKeyword]
    · simp [convertItem, validKeyword, declaredKeyword]
    · -- properties
      have ho := hobject (by simpa [structuralKeyword] using h)
      simp [convertItem, validKeyword, declaredKeyword, ho]
    · -- items
      have hv : structuralSchema types value typed = true := by
        simpa [structuralKeyword] using h
      cases d with
      | list ds =>
          cases typed <;>
            simp [convertItem, validKeyword, declaredKeyword, isDict_of_structural hv,
              hschema _ _ hv, all_and_all]
      | _ => simp [convertItem, validKeyword, declaredKeyword]
    · -- additionalProperties
      cases d with
      | dict items =>
          have hv : isBool value = true ∨ structuralSchema types value typed = true := by
            simpa [structuralKeyword] using h
          rcases hv with hv | hv
          · cases value with
            | bool b =>
                simp [convertItem, validKeyword, declaredKeyword, Value.isDict, valid, declared]
            | _ => cases hv
          · cases typed <;>
              simp [convertItem, validKeyword, declaredKeyword, isDict_of_structural hv,
                hschema _ _ hv, Bool.or_and_distrib_left, all_and_all]
      | _ => simp [convertItem, validKeyword, declaredKeyword]
    · -- not
      have hv : structuralSchema types value false = true := by
        simpa [structuralKeyword] using h
      simp [convertItem, validKeyword, declaredKeyword, isDict_of_structural hv, hschema false _ hv]
    · have hb := hbranches (fun valid all => valid == all) (by simpa [structuralKeyword] using h)
      simp [convertItem, validKeyword, declaredKeyword, hb]
    · have hb := hbranches (fun valid _ => valid != 0) (by simpa [structuralKeyword] using h)
      simp [convertItem, validKeyword, declaredKeyword, hb]
    · have hb := hbranches (fun valid _ => valid == 1) (by simpa [structuralKeyword] using h)
      simp [convertItem, validKeyword, declaredKeyword, hb]
  · exact keyword_other assertion names d hstd
termination_by structural kw

/-- The keyword `properties`. -/
theorem valid_object (value : Value) (typed : Bool) (d : Value)
    (h : structuralObject types value typed = true) :
    validObject assertion (convertObject value) d
      = (validObject (kubernetes assertion) value d && (!typed || declaredObject value d)) := by
  cases value with
  | dict props => exact valid_properties props typed d h
  | _ => cases h
termination_by structural value

theorem valid_properties (props : List (String × Value)) (typed : Bool) (d : Value)
    (h : structuralProperties types props typed = true) :
    validProperties assertion (convertProperties props) d
      = (validProperties (kubernetes assertion) props d
        && (!typed || declaredProperties props d)) := by
  cases props with
  | nil => cases typed <;> rfl
  | cons prop rest =>
      rw [structuralProperties, Bool.and_eq_true] at h
      rw [convertProperties, validProperties, valid_property prop typed d h.1,
        valid_properties rest typed d h.2, validProperties, declaredProperties,
        and_swap]
      cases typed <;> simp
termination_by structural props

theorem valid_property (prop : String × Value) (typed : Bool) (d : Value)
    (h : structuralProperty types prop typed = true) :
    validProperty assertion (convertProperty prop) d
      = (validProperty (kubernetes assertion) prop d && (!typed || declaredProperty prop d)) := by
  obtain ⟨name, schema⟩ := prop
  have hschema := valid_convert schema typed
  rw [convertProperty, validProperty, validProperty, declaredProperty]
  cases d.get? name with
  | none => simp
  | some v => exact hschema v h
termination_by structural prop

/-- The keywords `allOf`, `anyOf` and `oneOf`. -/
theorem valid_branches (value d : Value) (judge : Nat → Nat → Bool)
    (h : structuralLogic types value = true) :
    validBranches assertion judge (convertBranches value) d
      = validBranches (kubernetes assertion) judge value d := by
  cases value with
  | list schemas =>
      rw [convertBranches, validBranches, validBranches, count_branches schemas d h,
        length_toJsonSchemas]
  | _ => cases h
termination_by structural value

theorem count_branches (schemas : List Value) (d : Value)
    (h : structuralBranches types schemas = true) :
    countValid assertion (toJsonSchemas schemas) d
      = countValid (kubernetes assertion) schemas d := by
  cases schemas with
  | nil => rfl
  | cons schema rest =>
      rw [structuralBranches, Bool.and_eq_true] at h
      rw [toJsonSchemas, countValid, countValid, valid_convert schema false d h.1,
        count_branches rest d h.2]
      simp
termination_by structural schemas

end

/--
**Strict means valid and without unknown fields.** A document is accepted by the
converted schema exactly when it is valid under the CRD's and has only declared
keys wherever that closes an object.
-/
theorem toJsonSchema_strict (schema d : Value) (h : structural schema true = true) :
    valid assertion (toJsonSchema schema) d = true
      ↔ valid (kubernetes assertion) schema d = true ∧ declared schema d = true := by
  rw [valid_convert assertion schema true d h, Bool.not_true, Bool.false_or, Bool.and_eq_true]

end Equivalence

/-- A schema with properties named like keywords, an int-or-string and a logical branch. -/
def exampleSchema : Value :=
  .dict [("type", .str "object"), ("required", .list [.str "properties"]),
    ("properties", .dict [
      ("properties", .dict [("type", .str "object"),
        ("properties", .dict [("port", .dict [("x-kubernetes-int-or-string", .bool true)])])]),
      ("x-kubernetes-note", .dict [("type", .str "string")])]),
    ("not", .dict [("properties", .dict [
      ("properties", .dict [("required", .list [.str "host"])])])])]

theorem toJsonSchema_strict_exampleSchema :
    (valid (fun _ _ _ => true) (toJsonSchema exampleSchema)
        (.dict [("properties", .dict [("port", .str "http")]),
          ("x-kubernetes-note", .str "x")]) = true
      ∧ declared exampleSchema
        (.dict [("properties", .dict [("port", .str "http")]),
          ("x-kubernetes-note", .str "x")]) = true)
      ∧ ¬ valid (fun _ _ _ => true) (toJsonSchema exampleSchema)
        (.dict [("properties", .dict [("port", .num 80), ("path", .str "x")])]) = true := by
  refine ⟨⟨by decide, ?_⟩, fun hvalid => ?_⟩
  · exact ((toJsonSchema_strict (fun _ _ _ => true) exampleSchema _ (by decide)).mp (by decide)).2
  · have hdeclared := ((toJsonSchema_strict _ exampleSchema _ (by decide)).mp hvalid).2
    exact absurd hdeclared (by decide)

end MigrationPlatform.Hack
