import MigrationPlatform.Hack.FieldPaths

/-!
# Composing the resources

The loop of `hack/render-composition.py`: every resource of a step of kind `Resources`
is its base, named after the XR and put into its namespace, with its patches applied. The
text that the documents are written as is no part of it.
-/

namespace MigrationPlatform.Hack

open Py

/-- The truth value of a tree. -/
def pyTruthy : Tree → Bool
  | .null => false
  | .bool b => b
  | .int n => n != 0
  | .float repr => repr != "0.0" && repr != "-0.0"
  | .str s => s != ""
  | .list elems => !elems.isEmpty
  | .dict items => !items.isEmpty

/-- `t.setdefault(key, value)`. -/
def setDefault (t : Tree) (key : String) (value : Tree) : Except Exc Tree :=
  match t with
  | .dict items =>
      if (items.lookup (.name key)).isSome then .ok t
      else .ok (.dict (Py.insert (.name key) value items))
  | _ => .error .attributeError

/-- `t.get(key)`. -/
def pyGet (t : Tree) (key : String) : Except Exc Tree :=
  match t with
  | .dict items => .ok ((items.lookup (.name key)).getD .null)
  | _ => .error .attributeError

/-- A resource of a composition. -/
structure Resource where
  name : String
  base : Tree
  patches : List Patch := []

/-- The `input` of a step of kind `Resources`. -/
structure Resources where
  patchSets : List (String × List Patch) := []
  resources : List Resource

/-- The copy of a base, under the name of the XR and in its namespace. -/
def nameResource (d : Digits) (xr : Tree) (res : Resource) : Except Exc Tree := do
  let obj ← setDefault res.base "metadata" (.dict [])
  let xrMetadata ← xr.item (.name "metadata")
  let name := (← pyStr d (← xrMetadata.item (.name "name"))) ++ "-" ++ res.name
  let metadata ← (← obj.item (.name "metadata")).setItem (.name "name") (.str name)
  let space ← pyGet xrMetadata "namespace"
  if pyTruthy space then
    obj.setItem (.name "metadata") (← metadata.setItem (.name "namespace") space)
  else obj.setItem (.name "metadata") metadata

/-- The body of the inner loop of `main`. -/
def composeResource (d : Digits) (xr : Tree) (patchSets : List (String × List Patch))
    (depth : Nat) (res : Resource) : Except Exc Tree := do
  applyPatches d xr patchSets depth (← nameResource d xr res) res.patches

/-- `main`: the composed documents. A step of another kind has no `Resources`. -/
def compose (d : Digits) (xr : Tree) (depth : Nat) (pipeline : List (Option Resources)) :
    Except Exc (List Tree) := do
  let docs ← (pipeline.filterMap id).mapM fun inp =>
    inp.resources.mapM (composeResource d xr inp.patchSets depth)
  return docs.flatten

/-- A pipeline with one step that has resources. -/
theorem compose_cons (d : Digits) (xr : Tree) (depth : Nat) (inp : Resources) :
    compose d xr depth [some inp, none]
      = inp.resources.mapM (composeResource d xr inp.patchSets depth) := by
  have hcompose : compose d xr depth [some inp, none] = (do
      let docs ← inp.resources.mapM (composeResource d xr inp.patchSets depth)
      return docs ++ []) := by
    unfold compose
    have hfilter : [some inp, none].filterMap id = [inp] := rfl
    rw [hfilter, List.mapM_cons]
    cases inp.resources.mapM (composeResource d xr inp.patchSets depth) <;> rfl
  rw [hcompose]
  cases inp.resources.mapM (composeResource d xr inp.patchSets depth) with
  | error e => rfl
  | ok docs => exact congrArg Except.ok (List.append_nil docs)

/-! ## The name of a composed resource -/

/-- The metadata that a composed resource is given. -/
def composedMetadata (name : String) (space : Tree) (resource : String) : Tree :=
  .dict ((.name "name", .str (name ++ "-" ++ resource))
    :: if pyTruthy space then [(.name "namespace", space)] else [])

theorem insert_append {key : Key} {items : List (Key × Tree)} (h : items.lookup key = none)
    (value : Tree) (rest : List (Key × Tree)) :
    Py.insert key value (items ++ rest) = items ++ Py.insert key value rest := by
  induction items with
  | nil => rfl
  | cons b items ih =>
      rw [List.lookup_cons] at h
      split at h
      · cases h
      · rename_i hne
        have hkey : b.1 ≠ key := by
          intro he
          rw [he, beq_self_eq_true] at hne
          cases hne
        rw [List.cons_append, Py.insert, if_neg hkey, ih h, List.cons_append]

/-- A name that leads on is one of a dict. -/
theorem dict_of_getSegments {cur value : Tree} {name : String} {segs : List Key}
    (hvalue : value ≠ .null) (h : getSegments (.name name :: segs) cur = value) :
    ∃ items next, cur = .dict items ∧ items.lookup (.name name) = some next
      ∧ getSegments segs next = value := by
  cases hchild : Tree.child (.name name) cur with
  | none =>
      rw [getSegments_of_no_child hchild] at h
      exact absurd h.symm hvalue
  | some next =>
      rw [getSegments_of_child hchild] at h
      cases cur with
      | dict items => exact ⟨items, next, rfl, hchild, h⟩
      | _ => cases hchild

section Named

variable {d : Digits} {xr name space : Tree} {text : String} {items : List (Key × Tree)}

/-- A base without metadata of its own is given the name and the namespace of the XR. -/
theorem nameResource_eq (hname : getPath d xr "metadata.name" = .ok name) (hnull : name ≠ .null)
    (htext : pyStr d name = .ok text) (hspace : getPath d xr "metadata.namespace" = .ok space)
    (hitems : items.lookup (.name "metadata") = none) (resource : String) (patches : List Patch) :
    nameResource d xr ⟨resource, .dict items, patches⟩
      = .ok (.dict (items ++ [(.name "metadata", composedMetadata text space resource)])) := by
  have hname : getSegments [.name "metadata", .name "name"] xr = name := Except.ok.inj hname
  have hspace : getSegments [.name "metadata", .name "namespace"] xr = space :=
    Except.ok.inj hspace
  obtain ⟨xrItems, xrMetadata, rfl, hmetadata, hname⟩ := dict_of_getSegments hnull hname
  obtain ⟨metadata, v, rfl, hlookup, hv⟩ := dict_of_getSegments hnull hname
  obtain rfl : v = name := hv
  have hchild : Tree.child (.name "metadata") (.dict xrItems) = some (.dict metadata) := hmetadata
  have hget : (metadata.lookup (.name "namespace")).getD .null = space := by
    rw [getSegments_of_child hchild] at hspace
    cases hspace' : metadata.lookup (.name "namespace") with
    | none =>
        have hchild : Tree.child (.name "namespace") (.dict metadata) = none := hspace'
        rw [← hspace, getSegments_of_no_child hchild]
        rfl
    | some w =>
        have hchild : Tree.child (.name "namespace") (.dict metadata) = some w := hspace'
        rw [← hspace, getSegments_of_child hchild]
        rfl
  -- what is put under the metadata of the copy
  have hset : ∀ w rest, Py.insert (.name "metadata") w (items ++ rest)
      = items ++ Py.insert (.name "metadata") w rest := fun w rest => insert_append hitems w rest
  have hdefault : setDefault (.dict items) "metadata" (.dict [])
      = .ok (.dict (items ++ [(.name "metadata", .dict [])])) := by
    have hnil := hset (.dict []) []
    rw [List.append_nil] at hnil
    simp only [setDefault, hitems, hnil]
    rfl
  have hlast : ∀ w, List.lookup (Key.name "metadata") (items ++ [(Key.name "metadata", w)])
      = some w := by
    intro w
    rw [List.lookup_append, hitems]
    rfl
  unfold nameResource
  rw [hdefault]
  simp only [Tree.item, hmetadata, orRaise, hlookup, htext, hlast, pyGet, hget, Tree.setItem, bind,
    Except.bind, hset, composedMetadata]
  cases pyTruthy space <;> rfl

/-- **A composed resource is its base under the name of the XR**, with the patches applied. -/
theorem composeResource_eq (hname : getPath d xr "metadata.name" = .ok name)
    (hnull : name ≠ .null) (htext : pyStr d name = .ok text)
    (hspace : getPath d xr "metadata.namespace" = .ok space)
    (hitems : items.lookup (.name "metadata") = none) (patchSets : List (String × List Patch))
    (depth : Nat) (resource : String) (patches : List Patch) :
    composeResource d xr patchSets depth ⟨resource, .dict items, patches⟩
      = applyPatches d xr patchSets depth
        (.dict (items ++ [(.name "metadata", composedMetadata text space resource)])) patches := by
  unfold composeResource
  rw [nameResource_eq hname hnull htext hspace hitems]
  rfl

end Named

end MigrationPlatform.Hack
