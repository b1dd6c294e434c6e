import Mathlib.Data.List.Basic

/-!
# Values of a YAML or JSON document

A document as a Python program holds it: a dict is a list of bindings in the
order of insertion, read by first match. `eqv` is equality of documents, which
does not see the order of a dict.
-/

/-- What a YAML or JSON loader returns. -/
inductive Value where
  | null
  | bool (b : Bool)
  | num (q : Rat)
  | str (s : String)
  | list (vs : List Value)
  | dict (items : List (String × Value))

namespace Value

/-- `isinstance(value, dict)`. -/
def isDict : Value → Bool
  | .dict _ => true
  | _ => false

/-- The truth value of a value. -/
def truthy : Value → Bool
  | .null => false
  | .bool b => b
  | .num q => q != 0
  | .str s => s != ""
  | .list vs => !vs.isEmpty
  | .dict items => !items.isEmpty

/-- The value of a key; a value that is no dict has none. -/
def get? : Value → String → Option Value
  | .dict items, key => items.lookup key
  | _, _ => none

mutual

/-- Equality of documents. -/
def eqv : Value → Value → Bool
  | .null, .null => true
  | .bool a, .bool b => a == b
  | .num a, .num b => a == b
  | .str a, .str b => a == b
  | .list as, .list bs => eqvList as bs
  | .dict as, .dict bs => as.length == bs.length && eqvItems as bs
  | _, _ => false
termination_by structural v => v

def eqvList : List Value → List Value → Bool
  | [], [] => true
  | a :: as, b :: bs => eqv a b && eqvList as bs
  | _, _ => false
termination_by structural vs => vs

/-- Every binding has an equal one of its key. -/
def eqvItems : List (String × Value) → List (String × Value) → Bool
  | [], _ => true
  | a :: as, bs => eqvItem a bs && eqvItems as bs
termination_by structural items => items

def eqvItem : String × Value → List (String × Value) → Bool
  | (key, a), bs => (bs.lookup key).any fun b => eqv a b
termination_by structural item => item

end

end Value

/-! ## Bindings -/

namespace Items

/-- `key in items`. -/
def has (items : List (String × Value)) (key : String) : Bool := (items.lookup key).isSome

/-- `items.pop(key, None)`. -/
def pop (items : List (String × Value)) (key : String) : List (String × Value) :=
  items.filter (·.1 != key)

/-- `items[key] = value`: in its place, or at the end. -/
def set (items : List (String × Value)) (key : String) (value : Value) : List (String × Value) :=
  if has items key then items.map fun b => if b.1 = key then (key, value) else b
  else items ++ [(key, value)]

theorem set_of_not_has {items : List (String × Value)} {key : String} (value : Value)
    (h : has items key = false) : set items key value = items ++ [(key, value)] := by
  simp [set, h]

theorem has_eq_false {items : List (String × Value)} {key : String} :
    has items key = false ↔ ∀ b ∈ items, b.1 ≠ key := by
  simp only [has, Option.isSome_eq_false_iff, Option.isNone_iff_eq_none, List.lookup_eq_none_iff]
  constructor
  · intro h b hb he
    exact absurd (h b hb) (by simp [he])
  · intro h b hb
    simpa using Ne.symm (h b hb)

theorem pop_of_not_has {items : List (String × Value)} {key : String}
    (h : has items key = false) : pop items key = items :=
  List.filter_eq_self.mpr fun b hb => by simpa using has_eq_false.mp h b hb

theorem has_eq_contains (items : List (String × Value)) (key : String) :
    has items key = (items.map Prod.fst).contains key := by
  rw [Bool.eq_iff_iff]
  simp [has]

theorem set_of_has {items : List (String × Value)} {key : String} (value : Value)
    (h : has items key = true) :
    set items key value = items.map fun b => if b.1 = key then (key, value) else b := by
  rw [set, if_pos h]

/-- Another key at the end is not found. -/
theorem lookup_append_ne (items : List (String × Value)) {key key' : String} (value : Value)
    (h : key' ≠ key) : (items ++ [(key, value)]).lookup key' = items.lookup key' := by
  have hne : (key' == key) = false := beq_eq_false_iff_ne.mpr h
  have hsingle : [(key, value)].lookup key' = none := by
    rw [List.lookup_cons, hne]
    rfl
  rw [List.lookup_append, hsingle, Option.or_none]

theorem lookup_set_self (items : List (String × Value)) (key : String) (value : Value) :
    (set items key value).lookup key = some value := by
  unfold set
  split
  · rename_i hhas
    unfold has at hhas
    induction items with
    | nil => cases hhas
    | cons b items ih =>
        rw [List.map_cons, List.lookup_cons]
        by_cases hb : b.1 = key
        · rw [if_pos hb, beq_self_eq_true]
        · have hne : (key == b.1) = false := beq_eq_false_iff_ne.mpr (Ne.symm hb)
          rw [List.lookup_cons, hne] at hhas
          rw [if_neg hb, hne]
          exact ih hhas
  · rename_i hhas
    have hnone : items.lookup key = none := by
      rw [has, Bool.not_eq_true, Option.isSome_eq_false_iff, Option.isNone_iff_eq_none] at hhas
      exact hhas
    rw [List.lookup_append, hnone, List.lookup_cons, beq_self_eq_true]
    rfl

/-- Another key keeps its value. -/
theorem lookup_set_ne {items : List (String × Value)} {key key' : String} (value : Value)
    (h : key' ≠ key) : (set items key value).lookup key' = items.lookup key' := by
  have hne : (key' == key) = false := beq_eq_false_iff_ne.mpr h
  have hmap : (items.map fun b => if b.1 = key then (key, value) else b).lookup key'
      = items.lookup key' := by
    induction items with
    | nil => rfl
    | cons b items ih =>
        rw [List.map_cons, List.lookup_cons, List.lookup_cons, ih]
        by_cases hb : b.1 = key
        · rw [if_pos hb, hb, hne]
        · rw [if_neg hb]
  unfold set
  split
  · exact hmap
  · exact lookup_append_ne items value h

theorem mem_set_of_ne {items : List (String × Value)} {key : String} {value : Value}
    {b : String × Value} (h : b.1 ≠ key) : b ∈ set items key value ↔ b ∈ items := by
  unfold set
  split
  · rw [List.mem_map]
    constructor
    · rintro ⟨b', hb', rfl⟩
      split at h
      · exact absurd rfl h
      · rename_i hne
        rw [if_neg hne]
        exact hb'
    · intro hb
      exact ⟨b, hb, if_neg h⟩
  · rw [List.mem_append, List.mem_singleton, or_iff_left_iff_imp]
    rintro rfl
    exact absurd rfl h

/-- A key that is set has one value, if it had one or none. -/
theorem eq_of_mem_set {items : List (String × Value)} {key : String} {value : Value}
    {b : String × Value} (hb : b ∈ set items key value) (h : b.1 = key) : b.2 = value := by
  unfold set at hb
  split at hb
  · obtain ⟨b', -, rfl⟩ := List.mem_map.mp hb
    split at h
    · rename_i hb'
      rw [if_pos hb']
    · rename_i hb'
      exact absurd h hb'
  · rename_i hhas
    rcases List.mem_append.mp hb with hb | hb
    · have hne := has_eq_false.mp (Bool.eq_false_iff.mpr hhas) b hb
      exact absurd h hne
    · rw [List.mem_singleton.mp hb]

theorem fst_set_of_has {items : List (String × Value)} {key : String} (value : Value)
    (h : has items key = true) : (set items key value).map Prod.fst = items.map Prod.fst := by
  rw [set_of_has value h, List.map_map]
  refine List.map_congr_left fun b _ => ?_
  show (if b.1 = key then (key, value) else b).1 = b.1
  split
  · rename_i hb
    exact hb.symm
  · rfl

end Items
