import Mathlib.Data.List.Basic
import Mathlib.Data.List.Infix

/-!
# Python data trees

Data as a Python program holds it while it changes: dicts, lists and scalars with
the operations that index, extend and assign. An operation on a value of the wrong
kind raises, as in Python. A dict takes any key, so an `int` is one too.

A tree shares nothing, so a change in place is a new tree.
-/

namespace Py

/-- What indexes a container. -/
inductive Key where
  | name (s : String)
  | index (n : Nat)
  deriving DecidableEq

def Key.isIndex : Key → Bool
  | .index _ => true
  | .name _ => false

/-- A dict is a list of bindings in the order of insertion. A float is kept by its `repr`. -/
inductive Tree where
  | null
  | bool (b : Bool)
  | int (n : Int)
  | float (repr : String)
  | str (s : String)
  | list (elems : List Tree)
  | dict (items : List (Key × Tree))

/-- An exception, by its class. -/
inductive Exc where
  | typeError
  | keyError
  | indexError
  | attributeError
  | valueError
  | recursionError
  | systemExit
  deriving DecidableEq

/-- A step that goes through has an outcome that the rest goes through with. -/
theorem bind_eq_ok {α β : Type} {x : Except Exc α} {f : α → Except Exc β} {b : β} :
    x >>= f = .ok b ↔ ∃ a, x = .ok a ∧ f a = .ok b := by
  constructor
  · intro h
    cases x with
    | error e => cases h
    | ok a => exact ⟨a, rfl, h⟩
  · rintro ⟨a, rfl, h⟩
    exact h

/-- What is there, or an exception. -/
def orRaise {α : Type} (e : Exc) : Option α → Except Exc α
  | some a => .ok a
  | none => .error e

theorem orRaise_eq_ok {α : Type} {e : Exc} {o : Option α} {a : α} :
    orRaise e o = .ok a ↔ o = some a := by
  cases o with
  | none => simp [orRaise]
  | some b => simp [orRaise]

/-! ## Bindings -/

/-- `d[key] = value`: in its place, or at the end. -/
def insert (key : Key) (value : Tree) : List (Key × Tree) → List (Key × Tree)
  | [] => [(key, value)]
  | b :: items => if b.1 = key then (key, value) :: items else b :: insert key value items

theorem lookup_insert_self (key : Key) (value : Tree) (items : List (Key × Tree)) :
    (insert key value items).lookup key = some value := by
  induction items with
  | nil => simp [insert]
  | cons b items ih =>
      unfold insert
      split
      · simp
      case isFalse hb =>
        have hne : (key == b.1) = false := beq_eq_false_iff_ne.mpr (Ne.symm hb)
        rw [List.lookup_cons, hne]
        exact ih

theorem lookup_insert_ne {key key' : Key} (value : Tree) (items : List (Key × Tree))
    (h : key' ≠ key) : (insert key value items).lookup key' = items.lookup key' := by
  have hne : (key' == key) = false := beq_eq_false_iff_ne.mpr h
  induction items with
  | nil => simp [insert, List.lookup_cons, hne]
  | cons b items ih =>
      unfold insert
      split
      case isTrue hb => rw [List.lookup_cons, List.lookup_cons, hne, hb, hne]
      case isFalse => rw [List.lookup_cons, List.lookup_cons, ih]

namespace Tree

/-! ## Operations -/

/-- `len(t)`. -/
def len : Tree → Except Exc Nat
  | .list elems => .ok elems.length
  | .dict items => .ok items.length
  | .str s => .ok s.length
  | _ => .error .typeError

/-- `key in t`, for a string. -/
def contains : Tree → String → Except Exc Bool
  | .dict items, key => .ok (items.lookup (.name key)).isSome
  | .list elems, key => .ok (elems.any fun | .str s => s == key | _ => false)
  | .str s, key => .ok (key.toList <:+: s.toList)
  | _, _ => .error .typeError

/-- `t[key]`. -/
def item : Tree → Key → Except Exc Tree
  | .dict items, key => orRaise .keyError (items.lookup key)
  | .list elems, .index n => orRaise .indexError elems[n]?
  | .str s, .index n => orRaise .indexError (s.toList[n]?.map fun c => .str (String.singleton c))
  | _, _ => .error .typeError

/-- `t[key] = value`. -/
def setItem : Tree → Key → Tree → Except Exc Tree
  | .dict items, key, value => .ok (.dict (insert key value items))
  | .list elems, .index n, value =>
      if n < elems.length then .ok (.list (elems.set n value)) else .error .indexError
  | _, _, _ => .error .typeError

/-- `t.append(value)`. -/
def append : Tree → Tree → Except Exc Tree
  | .list elems, value => .ok (.list (elems ++ [value]))
  | _, _ => .error .attributeError

/-- `t.append(value)`, a number of times. -/
def appendTimes (value : Tree) : Nat → Tree → Except Exc Tree
  | 0, t => .ok t
  | k + 1, t => do appendTimes value k (← t.append value)

/-- `while len(t) <= n: t.append(value)`. -/
def padTo (t : Tree) (n : Nat) (value : Tree) : Except Exc Tree := do
  appendTimes value (n + 1 - (← t.len)) t

/-- The value is `None`. -/
def isNull : Tree → Bool
  | .null => true
  | _ => false

theorem isNull_iff {t : Tree} : t.isNull = true ↔ t = .null := by
  cases t <;> simp [isNull]

/-- `isinstance(t, dict)`. -/
def isDict : Tree → Bool
  | .dict _ => true
  | _ => false

theorem appendTimes_list (value : Tree) (k : Nat) (elems : List Tree) :
    appendTimes value k (.list elems) = .ok (.list (elems ++ List.replicate k value)) := by
  induction k generalizing elems with
  | zero => simp [appendTimes]
  | succ k ih =>
      show appendTimes value k (.list (elems ++ [value])) = _
      rw [ih, List.append_assoc, List.replicate_succ, List.singleton_append]

theorem padTo_list (n : Nat) (value : Tree) (elems : List Tree) :
    padTo (.list elems) n value
      = .ok (.list (elems ++ List.replicate (n + 1 - elems.length) value)) :=
  appendTimes_list value _ elems

/-- Only a list can be padded; what is long enough stays as it is. -/
theorem padTo_eq {t t' value : Tree} {n : Nat} (h : t.padTo n value = .ok t')
    (ht : ∀ elems, t ≠ .list elems) : t' = t := by
  obtain ⟨len, -, h⟩ := bind_eq_ok.mp h
  cases hk : n + 1 - len with
  | zero =>
      rw [hk] at h
      exact (Except.ok.inj h).symm
  | succ k =>
      rw [hk] at h
      obtain ⟨t₁, happend, -⟩ := bind_eq_ok.mp h
      cases t with
      | list elems => exact absurd rfl (ht elems)
      | _ => cases happend

/-! ## Children

`child` reads a container only by a key of its own kind: an index of a list, a name of a dict. -/

/-- The value under a key, if there is one. -/
def child : Key → Tree → Option Tree
  | .index n, .list elems => elems[n]?
  | .name s, .dict items => items.lookup (.name s)
  | _, _ => none

/-- Every key of every dict is a string. -/
inductive StringKeyed : Tree → Prop where
  | null : StringKeyed .null
  | bool (b : Bool) : StringKeyed (.bool b)
  | int (n : Int) : StringKeyed (.int n)
  | float (repr : String) : StringKeyed (.float repr)
  | str (s : String) : StringKeyed (.str s)
  | list {elems : List Tree} (helems : ∀ t ∈ elems, StringKeyed t) : StringKeyed (.list elems)
  | dict {items : List (Key × Tree)} (hkeys : ∀ b ∈ items, ∃ s, b.1 = .name s)
      (hvalues : ∀ b ∈ items, StringKeyed b.2) : StringKeyed (.dict items)

theorem StringKeyed.single {t : Tree} (h : t.StringKeyed) (s : String) :
    (Tree.dict [(.name s, t)]).StringKeyed := by
  refine .dict (fun b hb => ?_) (fun b hb => ?_)
  · obtain rfl := List.mem_singleton.mp hb
    exact ⟨s, rfl⟩
  · obtain rfl := List.mem_singleton.mp hb
    exact h

theorem mem_of_lookup {key : Key} {v : Tree} {items : List (Key × Tree)}
    (h : items.lookup key = some v) : (key, v) ∈ items := by
  obtain ⟨before, after, rfl, -⟩ := List.lookup_eq_some_iff.mp h
  exact List.mem_append_right _ List.mem_cons_self

theorem StringKeyed.child {t v : Tree} {key : Key} (ht : t.StringKeyed)
    (h : Tree.child key t = some v) : v.StringKeyed := by
  cases ht with
  | list helems =>
      cases key with
      | index n => exact helems v (List.mem_of_getElem? h)
      | name s => cases h
  | dict hkeys hvalues =>
      cases key with
      | index n => cases h
      | name s => exact hvalues _ (mem_of_lookup h)
  | _ => cases key <;> cases h

/-- A dict of strings has no value under an index. -/
theorem StringKeyed.lookup_index {items : List (Key × Tree)}
    (h : StringKeyed (.dict items)) (n : Nat) : items.lookup (.index n) = none := by
  cases h with
  | dict hkeys hvalues =>
      refine List.lookup_eq_none_iff.mpr fun b hb => ?_
      obtain ⟨s, hs⟩ := hkeys b hb
      rw [hs]
      rfl

end Tree

end Py
