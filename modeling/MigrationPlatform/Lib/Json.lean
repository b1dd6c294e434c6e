import Mathlib.Logic.Function.Basic
import Mathlib.Data.List.Infix

/-!
# JSON values and merge patches

A JSON object is an unordered set of named members, so it is modelled as a
partial map from names to values: two objects are equal exactly when they have
the same members.

`mergePatch` is the merge patch of RFC 7386: members of the patch replace the
target's, an object is merged member by member, and `null` deletes.

A path is a list of member names. Writes to disjoint paths commute, a write to a
prefix covers one further down, and a merge patch that is one nested member with
a string at the end is a write (`mergePatch_nest`).
-/

/-- A JSON value. -/
inductive Json where
  | null
  | bool (b : Bool)
  | num (n : Rat)
  | str (s : String)
  | arr (es : List Json)
  | obj (members : String → Option Json)

namespace Json

/-- The members of an object. -/
abbrev Members := String → Option Json

/-- The members of a value; a value that is no object has none. -/
def members : Json → Members
  | .obj ms => ms
  | _ => fun _ => none

@[simp] theorem members_obj (ms : Members) : (Json.obj ms).members = ms := rfl
@[simp] theorem members_null : Json.null.members = fun _ => none := rfl

/-- An object with a single member. -/
def single (name : String) (v : Json) : Json :=
  .obj (Function.update (fun _ => none) name (some v))

mutual

/-- RFC 7386, section 2: apply a merge patch to a target. -/
def mergePatch (target : Json) : Json → Json
  | .obj patch => .obj fun name => mergeMember (target.members name) (patch name)
  | patch => patch

/-- One member of a merge: absent from the patch, deleted by it, or merged. -/
def mergeMember (target : Option Json) : Option Json → Option Json
  | none => target
  | some .null => none
  | some patch => some (mergePatch (target.getD .null) patch)

end

/-! ## Paths -/

/-- The members of a slot that may be empty. -/
abbrev slotMembers (j : Option Json) : Members := (j.getD .null).members

/-- What is found at a path. -/
def lookup : List String → Option Json → Option Json
  | [], j => j
  | name :: path, j => lookup path (slotMembers j name)

/-- The string at a path, if there is one. -/
def stringAt (path : List String) (j : Option Json) : Option String :=
  match lookup path j with
  | some (.str s) => some s
  | _ => none

/-- Set the value at a path. Objects are made on the way where there are none. -/
def setPath : List String → Json → Option Json → Option Json
  | [], v, _ => some v
  | name :: path, v, j =>
      some (.obj (Function.update (slotMembers j) name (setPath path v (slotMembers j name))))

/-- Delete the value at a path, if there is one. -/
def deletePath : List String → Option Json → Option Json
  | [], _ => none
  | name :: path, some (.obj ms) =>
      some (.obj (Function.update ms name (deletePath path (ms name))))
  | _ :: _, j => j

/-- An object with a single member at a path. -/
def nest : List String → Json → Json
  | [], v => v
  | name :: path, v => .single name (nest path v)

@[simp] theorem slotMembers_some (ms : Members) : slotMembers (some (.obj ms)) = ms := rfl
@[simp] theorem slotMembers_none : slotMembers none = fun _ => none := rfl

@[simp] theorem lookup_none (path : List String) : lookup path none = none := by
  induction path with
  | nil => rfl
  | cons name path ih => exact ih

/-- Deleting a path deletes its member of an object, and leaves a value without members. -/
theorem slotMembers_deletePath (name : String) (path : List String) (j : Option Json) :
    slotMembers (deletePath (name :: path) j)
      = Function.update (slotMembers j) name (deletePath path (slotMembers j name)) := by
  have missing : ∀ path, deletePath path none = none := fun path => by cases path <;> rfl
  have empty : (fun _ => none : Members)
      = Function.update (fun _ => none) name (deletePath path none) := by
    rw [missing, Function.update_eq_self_iff.mpr rfl]
  match j with
  | some (.obj ms) => rfl
  | none => exact empty
  | some .null => exact empty
  | some (.bool _) => exact empty
  | some (.num _) => exact empty
  | some (.str _) => exact empty
  | some (.arr _) => exact empty

/-- Neither path leads to or through the other. -/
def Disjoint (p q : List String) : Prop := ¬ p <+: q ∧ ¬ q <+: p

instance (p q : List String) : Decidable (Disjoint p q) :=
  inferInstanceAs (Decidable (¬ p <+: q ∧ ¬ q <+: p))

theorem Disjoint.of_cons {name : String} {p q : List String}
    (h : Disjoint (name :: p) (name :: q)) : Disjoint p q :=
  ⟨fun hpq => h.1 (List.cons_prefix_cons.mpr ⟨rfl, hpq⟩),
    fun hqp => h.2 (List.cons_prefix_cons.mpr ⟨rfl, hqp⟩)⟩

theorem lookup_setPath (p : List String) (v : Json) (j : Option Json) :
    lookup p (setPath p v j) = some v := by
  induction p generalizing j with
  | nil => rfl
  | cons name p ih => simpa [lookup, setPath] using ih (slotMembers j name)

/-- **A write is not seen at a disjoint path.** -/
theorem lookup_setPath_disjoint {p q : List String} (h : Disjoint p q) (v : Json)
    (j : Option Json) : lookup q (setPath p v j) = lookup q j := by
  induction p generalizing q j with
  | nil => exact absurd (List.nil_prefix) h.1
  | cons name p ih =>
      cases q with
      | nil => exact absurd (List.nil_prefix) h.2
      | cons name' q =>
          by_cases hn : name' = name
          · subst hn
            simpa [lookup, setPath] using ih h.of_cons (slotMembers j name')
          · simp [lookup, setPath, Function.update_of_ne hn]

/-- **Writes to disjoint paths commute.** -/
theorem setPath_comm {p q : List String} (h : Disjoint p q) (v v' : Json) (j : Option Json) :
    setPath q v' (setPath p v j) = setPath p v (setPath q v' j) := by
  induction p generalizing q j with
  | nil => exact absurd (List.nil_prefix) h.1
  | cons name p ih =>
      cases q with
      | nil => exact absurd (List.nil_prefix) h.2
      | cons name' q =>
          by_cases hn : name' = name
          · subst hn
            simp [setPath, ih h.of_cons]
          · simp [setPath, Function.update_of_ne hn, Function.update_of_ne (Ne.symm hn),
              Function.update_comm hn]

/-- **A write and a deletion at disjoint paths commute.** -/
theorem deletePath_setPath_comm {p q : List String} (h : Disjoint p q) (v : Json)
    (j : Option Json) : deletePath q (setPath p v j) = setPath p v (deletePath q j) := by
  induction p generalizing q j with
  | nil => exact absurd (List.nil_prefix) h.1
  | cons name p ih =>
      cases q with
      | nil => exact absurd (List.nil_prefix) h.2
      | cons name' q =>
          rw [setPath, setPath, deletePath, slotMembers_deletePath]
          by_cases hn : name' = name
          · subst hn
            simp [ih h.of_cons]
          · simp [Function.update_of_ne hn, Function.update_of_ne (Ne.symm hn),
              Function.update_comm hn]

/-- A write to a prefix covers one further down. -/
theorem setPath_setPath_prefix {p q : List String} (h : q <+: p) (v v' : Json)
    (j : Option Json) : setPath q v' (setPath p v j) = setPath q v' j := by
  induction q generalizing p j with
  | nil => rfl
  | cons name q ih =>
      obtain ⟨r, rfl⟩ := h
      simp [setPath, ih (List.prefix_append q r)]

/-- Every value on the way of the path, its end included, is an object. -/
def IsObjectAt : List String → Option Json → Prop
  | [], j => ∃ ms, j = some (.obj ms)
  | name :: path, j => ∃ ms, j = some (.obj ms) ∧ IsObjectAt path (ms name)

/-- A deletion from an object covers a write further down. -/
theorem deletePath_setPath_prefix {p q : List String} {name : String} {j : Option Json}
    (hj : IsObjectAt q j) (h : q ++ [name] <+: p) (v : Json) :
    deletePath (q ++ [name]) (setPath p v j) = deletePath (q ++ [name]) j := by
  obtain ⟨r, rfl⟩ := h
  induction q generalizing j with
  | nil =>
      obtain ⟨ms, rfl⟩ := hj
      simp [setPath, deletePath]
  | cons name' q ih =>
      obtain ⟨ms, rfl, hq⟩ := hj
      have ih' := ih hq
      simp only [List.append_assoc, List.cons_append, List.nil_append] at ih' ⊢
      simp [setPath, deletePath, ih']

/-- Set the value at a path, or delete it if none is given. -/
def writePath (path : List String) (value : Option Json) (j : Option Json) : Option Json :=
  match value with
  | some v => setPath path v j
  | none => deletePath path j

theorem writePath_cons_obj (name : String) (path : List String) (value : Option Json)
    (ms : Members) : writePath (name :: path) value (some (.obj ms))
      = some (.obj (Function.update ms name (writePath path value (ms name)))) := by
  cases value <;> rfl

theorem writePath_setPath_comm {p q : List String} (h : Disjoint p q) (v : Json)
    (value j : Option Json) :
    writePath q value (setPath p v j) = setPath p v (writePath q value j) := by
  cases value with
  | some v' => exact setPath_comm h v v' j
  | none => exact deletePath_setPath_comm h v j

theorem writePath_setPath_prefix {p q : List String} {name : String} {j : Option Json}
    (hj : IsObjectAt q j) (h : q ++ [name] <+: p) (v : Json) (value : Option Json) :
    writePath (q ++ [name]) value (setPath p v j) = writePath (q ++ [name]) value j := by
  cases value with
  | some v' => exact setPath_setPath_prefix h v v' j
  | none => exact deletePath_setPath_prefix hj h v

/-- A merge patch with one nested string writes that string. -/
theorem mergePatch_nest (path : List String) (s : String) (j : Json) :
    some (mergePatch j (nest path (.str s))) = setPath path (.str s) (some j) := by
  induction path generalizing j with
  | nil => simp [nest, setPath, mergePatch]
  | cons name path ih =>
      have hnull : nest path (.str s) ≠ .null := by cases path <;> nofun
      have hmember : ∀ t : Option Json, mergeMember t (some (nest path (.str s)))
          = some (mergePatch (t.getD .null) (nest path (.str s))) := by
        intro t
        cases hv : nest path (.str s) with
        | null => exact absurd hv hnull
        | _ => rfl
      rw [nest, single, mergePatch, setPath]
      congr 2
      funext name'
      by_cases hn : name' = name
      · subst hn
        have hslot : ∀ t : Option Json, setPath path (.str s) (some (t.getD .null))
            = setPath path (.str s) t := by
          intro t
          cases t with
          | some _ => rfl
          | none => cases path <;> rfl
        simp only [Function.update_self, hmember, ih, hslot]
        rfl
      · simp only [Function.update_of_ne hn, mergeMember]
        rfl

end Json
