import Mathlib.Algebra.Group.Nat.Defs
import MigrationPlatform.Lib.PyTree
import MigrationPlatform.Lib.Regex

/-!
# Rendering a composition

`hack/render-composition.py`: what a Composition would compose for an XR, as far
as the compositions of this repository go. A field path is read into segments,
`get_path` and `set_path` walk a tree along it, and `apply_patches` writes what
the patches of a resource take from the XR.

Which characters beyond ASCII are digits is a parameter, `Digits`. A path or a
format never holds a `\b`, so the engine is run without word characters.

Python refuses to convert an integer from or to text if it has more than
`maxStrDigits` digits.
-/

namespace MigrationPlatform.Hack

open Regex Py

/-- What Python knows of digits, and of the text of a container. -/
structure Digits where
  /-- The value of a decimal digit (`\d`). -/
  decimal : Char → Option Nat
  /-- `str.isdigit`, which is true of superscripts too. -/
  isDigit : Char → Bool
  /-- `str` of a list or dict. -/
  repr : Tree → Except Exc String

/-- `sys.int_info.default_max_str_digits`. -/
def maxStrDigits : Nat := 4300

/-- `int(s)` of a string of digits. -/
def Digits.int (d : Digits) (s : List Char) : Except Exc Nat :=
  if s.length ≤ maxStrDigits then
    s.foldlM (fun n c => match d.decimal c with
      | some k => .ok (10 * n + k)
      | none => .error .valueError) 0
  else .error .valueError

/-- The number has so few decimal digits that Python converts it. -/
def Convertible (n : Nat) : Prop := (Nat.toDigits 10 n).length ≤ maxStrDigits

instance (n : Nat) : Decidable (Convertible n) := inferInstanceAs (Decidable (_ ≤ _))

theorem convertible_iff {n : Nat} : Convertible n ↔ n < 10 ^ maxStrDigits :=
  Nat.length_toDigits_le_iff (by omega) (by decide)

/-- `str(n)` of an integer. -/
def intStr (n : Int) : Except Exc String :=
  if Convertible n.natAbs then .ok (toString n) else .error .valueError

/-- No digits beyond ASCII. -/
def asciiDigits : Digits where
  decimal := fun c => if c.isDigit then some (c.toNat - '0'.toNat) else none
  isDigit := Char.isDigit
  repr := fun _ => .ok ""

/-- The digits of Python are those of ASCII, as far as ASCII goes. -/
structure Digits.Ascii (d : Digits) : Prop where
  decimal : ∀ c : Char, c.toNat < 128 →
    d.decimal c = if c.isDigit then some (c.toNat - 48) else none
  isDigit : ∀ c : Char, c.toNat < 128 → d.isDigit c = c.isDigit

theorem asciiDigits_ascii : asciiDigits.Ascii := ⟨fun _ _ => rfl, fun _ _ => rfl⟩

theorem toNat_lt_of_isDigit {c : Char} (h : c.isDigit = true) : c.toNat < 128 := by
  have hle : c.toNat ≤ 57 := (Char.isDigit_iff_toNat.mp h).2
  omega

/-- What is no digit does not stand in a number. -/
theorem digit_ne_of_mem {n : Nat} {a c : Char} (ha : a.isDigit = false)
    (hc : c ∈ Nat.toDigits 10 n) : c ≠ a := by
  have hdigit := Nat.isDigit_of_mem_toDigits (by omega) (by omega) hc
  intro h
  rw [h, ha] at hdigit
  cases hdigit

section Int

variable {d : Digits} (hd : d.Ascii)

include hd

theorem Digits.Ascii.decimal_digitChar {n : Nat} (hn : n < 10) :
    d.decimal n.digitChar = some n := by
  have hdigit : n.digitChar.isDigit = true := by
    rw [Nat.isDigit_digitChar, decide_eq_true hn]
  rw [hd.decimal _ (toNat_lt_of_isDigit hdigit), if_pos hdigit,
    Nat.toNat_digitChar_sub_48_of_lt_ten hn]

/-- **`int` of a number's decimal text is the number**, if it is not too long. -/
theorem Digits.Ascii.int_toDigits {n : Nat} (hn : Convertible n) :
    d.int (Nat.toDigits 10 n) = .ok n := by
  unfold Digits.int
  rw [if_pos (show _ ≤ _ from hn)]
  clear hn
  induction n using Nat.strongRecOn with
  | ind n ih =>
      have hmod := hd.decimal_digitChar (Nat.mod_lt n (by omega : 0 < 10))
      rw [Nat.toDigits_eq_if (by omega)]
      split
      · rename_i hn
        rw [Nat.mod_eq_of_lt hn] at hmod
        simp only [List.foldlM_cons, List.foldlM_nil, hmod]
        show Except.ok (10 * 0 + n) = Except.ok n
        rw [Nat.mul_zero, Nat.zero_add]
      · rename_i hn
        rw [List.foldlM_append, ih (n / 10) (by omega)]
        simp only [bind, Except.bind, List.foldlM_cons, List.foldlM_nil, hmod]
        show Except.ok (10 * (n / 10) + n % 10) = Except.ok n
        rw [Nat.div_add_mod]

theorem Digits.Ascii.all_isDigit_toDigits (n : Nat) :
    (Nat.toDigits 10 n).all d.isDigit = true := by
  rw [List.all_eq_true]
  intro c hc
  have hdigit := Nat.isDigit_of_mem_toDigits (by omega) (by omega) hc
  rw [hd.isDigit c (toNat_lt_of_isDigit hdigit), hdigit]

end Int

/-! ## Field paths -/

/-- `[^.\[\]]`. -/
def isNameChar (c : Char) : Bool := c != '.' && c != '[' && c != ']'

/-- `([^.\[\]]+)|\[([^\]]+)\]`. -/
def seg : Pattern where
  re := .alt (.group 1 (.plus (.cls isNameChar)))
    (.all [.lit "[", .group 2 (.plus (.cls (· != ']'))), .lit "]"])
  consumes := by decide

/-- `_segments`. -/
def segments (d : Digits) (path : String) : Except Exc (List Key) :=
  (finditer id (fun _ => false) seg path.toList).mapM fun m =>
    let name := (m.group 1).getD []
    let bracket := (m.group 2).getD []
    if !name.isEmpty then .ok (.name (String.ofList name))
    else if !bracket.isEmpty && bracket.all d.isDigit then (d.int bracket).map .index
    else .ok (.name (String.ofList bracket))

/-- The loop of `get_path`: `None` where the path leads nowhere. -/
def getSegments : List Key → Tree → Tree
  | [], cur => cur
  | seg :: segs, cur =>
      match Tree.child seg cur with
      | some next => getSegments segs next
      | none => .null

/-- `get_path`. -/
def getPath (d : Digits) (obj : Tree) (path : String) : Except Exc Tree := do
  return getSegments (← segments d path) obj

/-- An empty container for the segment that comes next: a list pads itself with these. -/
def padding : Option Key → Tree
  | some (.name _) => .dict []
  | _ => .list []

/-- An empty container for the segment that comes next: a dict fills its gaps with these. -/
def filling : Key → Tree
  | .index _ => .list []
  | .name _ => .dict []

/-- `s not in cur or cur[s] is None`. -/
def lacks (s : String) (cur : Tree) : Except Exc Bool := do
  if ← cur.contains s then return (← cur.item (.name s)).isNull else return true

/-- `cur` with something under the segment `seg`, by the segment that comes next. -/
def prepare (seg : Key) (nxt : Option Key) (cur : Tree) : Except Exc Tree :=
  match seg, nxt with
  | .index n, nxt => cur.padTo n (padding nxt)
  | .name _, none => .ok cur
  | .name s, some nxt => do
      if ← lacks s cur then cur.setItem (.name s) (filling nxt) else return cur

/-- The loop of `set_path`. The container under a segment is changed in place, which is its being
put back here. -/
def setSegments (value : Tree) : List Key → Tree → Except Exc Tree
  | [], cur => .ok cur
  | [seg], cur => do (← prepare seg none cur).setItem seg value
  | seg :: nxt :: segs, cur => do
      let cur ← prepare seg (some nxt) cur
      let next ← setSegments value (nxt :: segs) (← cur.item seg)
      cur.setItem seg next

/-- `set_path`, which changes `obj` in place: the tree that results. -/
def setPath (d : Digits) (obj : Tree) (path : String) (value : Tree) : Except Exc Tree := do
  setSegments value (← segments d path) obj

/-! ## Formats -/

/-- `%(?:\[(\d+)\])?([sdv])`. -/
def verb (d : Digits) : Pattern where
  re := .all [.lit "%",
    .opt (.all [.lit "[", .group 1 (.plus (.cls fun c => (d.decimal c).isSome)), .lit "]"]),
    .group 2 (.cls fun c => c == 's' || c == 'd' || c == 'v')]
  consumes := by
    show 0 < 2
    decide

/-- `values[idx]`, where a negative index counts from the end. -/
def pyIndex {α : Type} (values : List α) (idx : Int) : Except Exc α :=
  if 0 ≤ idx then orRaise .indexError values[idx.toNat]?
  else if 0 ≤ values.length + idx then orRaise .indexError values[(values.length + idx).toNat]?
  else .error .indexError

/-- `str(value)`. -/
def pyStr (d : Digits) : Tree → Except Exc String
  | .null => .ok "None"
  | .bool b => .ok (if b then "True" else "False")
  | .int n => intStr n
  | .float repr => .ok repr
  | .str s => .ok s
  | t => d.repr t

/-- `sub` over the verbs, with `state["next"]`. -/
def substitute (d : Digits) (values : List Tree) :
    List (Char ⊕ Match Char) → Int → Except Exc (List Char)
  | [], _ => .ok []
  | .inl c :: rest, next => (c :: ·) <$> substitute d values rest next
  | .inr m :: rest, next => do
      let idx : Int ← match m.group 1 with
        | some digits => (fun n : Nat => (n : Int) - 1) <$> d.int digits
        | none => pure next
      let value ← pyStr d (← pyIndex values idx)
      (value.toList ++ ·) <$> substitute d values rest (idx + 1)

/-- `s.replace("%%", "\x00")`. -/
def hidePercents : List Char → List Char
  | '%' :: '%' :: cs => '\x00' :: hidePercents cs
  | c :: cs => c :: hidePercents cs
  | [] => []

/-- `s.replace("\x00", "%")`. -/
def showPercents (s : List Char) : List Char := s.map fun c => if c = '\x00' then '%' else c

/-- `go_format`: a subset of Go's `fmt.Sprintf`. -/
def goFormat (d : Digits) (fmt : String) (values : List Tree) : Except Exc String := do
  let text := hidePercents fmt.toList
  let out ← substitute d values (tokens id (fun _ => false) (verb d) [] text 0) 0
  return String.ofList (showPercents out)

/-! ## Patches -/

/-- `t["string"]` of a transform. -/
structure StringTransform where
  type : Option String := none
  fmt : Option String := none

/-- A transform, with the fields that are read of it. -/
structure Transform where
  type : Option String := none
  map : Option (List (String × Tree)) := none
  string : Option StringTransform := none

/-- `str(value).lower() if isinstance(value, bool) else str(value)`. -/
def mapText (d : Digits) : Tree → Except Exc String
  | .bool b => .ok (if b then "true" else "false")
  | value => pyStr d value

/-- One transform of a value. -/
def transformOne (d : Digits) (value : Tree) (t : Transform) : Except Exc Tree := do
  if t.type = some "map" then
    let entries ← orRaise .keyError t.map
    return (entries.lookup (← mapText d value)).getD value
  else if t.type = some "string" then
    let string ← orRaise .keyError t.string
    if string.type.getD "Format" = "Format" then
      return .str (← goFormat d (← orRaise .keyError string.fmt) [value])
    else .error .systemExit
  else .error .systemExit

/-- `transform`. -/
def transform (d : Digits) (value : Tree) (transforms : List Transform) : Except Exc Tree :=
  transforms.foldlM (transformOne d) value

/-- A patch, with the fields that are read of it. -/
structure Patch where
  type : Option String := none
  patchSetName : Option String := none
  fromFieldPath : Option String := none
  toFieldPath : Option String := none
  transforms : List Transform := []
  /-- `combine.variables`, by their `fromFieldPath`. -/
  combineVariables : Option (List String) := none
  /-- `combine.string.fmt`. -/
  combineFmt : Option String := none

/-- One patch of the target; `nested` applies a patch set by its name. -/
def applyPatch (d : Digits) (xr : Tree) (nested : Tree → String → Except Exc Tree) (target : Tree)
    (p : Patch) : Except Exc Tree := do
  let ptype := p.type.getD "FromCompositeFieldPath"
  if ptype = "PatchSet" then
    nested target (← orRaise .keyError p.patchSetName)
  else if ptype = "FromCompositeFieldPath" then
    let value ← getPath d xr (← orRaise .keyError p.fromFieldPath)
    -- both policies leave the field alone until the source exists
    if value.isNull then return target
    setPath d target (← orRaise .keyError p.toFieldPath) (← transform d value p.transforms)
  else if ptype = "CombineFromComposite" then
    let values ← (← orRaise .keyError p.combineVariables).mapM (getPath d xr)
    if values.any Tree.isNull then return target
    setPath d target (← orRaise .keyError p.toFieldPath)
      (.str (← goFormat d (← orRaise .keyError p.combineFmt) values))
  else if ptype = "ToCompositeFieldPath" then return target
  else .error .systemExit

/--
`apply_patches`: the target after the patches. The depth of patch sets in patch
sets is bounded, as Python's recursion is.
-/
def applyPatches (d : Digits) (xr : Tree) (patchSets : List (String × List Patch)) :
    Nat → Tree → List Patch → Except Exc Tree
  | 0, _, _ => .error .recursionError
  | depth + 1, target, patches =>
      patches.foldlM (applyPatch d xr fun target name => do
        applyPatches d xr patchSets depth target (← orRaise .keyError (patchSets.lookup name)))
        target

end MigrationPlatform.Hack
