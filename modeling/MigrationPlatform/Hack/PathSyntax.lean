import MigrationPlatform.Hack.RenderComposition
import MigrationPlatform.Lib.RegexScan

/-!
# How field paths are written

A field path as it is written in a composition: names with a dot between them,
keys and indexes in brackets. `_segments` finds what matches and passes over the
rest, so it is to be shown that it passes over the dots and nothing else
(`segments_writePath`).

The three kinds of segment are what the syntax can tell apart. A bracket of digits
is an index, so no key consists of digits, in the sense of `str.isdigit`. A name
may.
-/

namespace MigrationPlatform.Hack

open Regex Py

/-! ## Segments -/

/-- A segment of a field path, as it can be written. -/
inductive Segment (d : Digits) where
  | name (s : String) (hne : s.toList ≠ []) (hname : s.toList.all isNameChar = true)
  | key (s : String) (hne : s.toList ≠ []) (hclosed : s.toList.all (· != ']') = true)
      (hkey : s.toList.all d.isDigit = false)
  | index (n : Nat)

section Segments

variable {d : Digits}

/-- What indexes a container at the segment. -/
def Segment.toKey : Segment d → Key
  | .name s _ _ => .name s
  | .key s _ _ _ => .name s
  | .index n => .index n

/-- What is written between brackets. -/
def bracketed (s : List Char) : List Char := '[' :: (s ++ [']'])

/-- A segment at the beginning of a path. -/
def Segment.chars : Segment d → List Char
  | .name s _ _ => s.toList
  | .key s _ _ _ => bracketed s.toList
  | .index n => bracketed (Nat.toDigits 10 n)

/-- A segment behind another one: a name has a dot in front. -/
def Segment.following : Segment d → List Char
  | .name s _ _ => '.' :: s.toList
  | seg => seg.chars

/-- A path, written. -/
def writePath : List (Segment d) → String
  | [] => ""
  | seg :: segs => String.ofList (seg.chars ++ segs.flatMap Segment.following)

/-- The match that a segment is read by. -/
def Segment.found : Segment d → Match Char
  | .name s _ _ => ⟨s.toList, [(1, s.toList)]⟩
  | .key s _ _ _ => ⟨bracketed s.toList, [(2, s.toList)]⟩
  | .index n => ⟨bracketed (Nat.toDigits 10 n), [(2, Nat.toDigits 10 n)]⟩

theorem Segment.text_found (seg : Segment d) : seg.found.text = seg.chars := by
  cases seg <;> rfl

/-- What follows a segment does not go on with its name. -/
theorem following_stops (segs : List (Segment d)) :
    (segs.flatMap Segment.following).head?.all (fun c => !isNameChar c) = true := by
  cases segs with
  | nil => rfl
  | cons seg segs => cases seg <;> rfl

/-! ## Matches -/

/-- A name is read as far as it goes. -/
theorem matchAt_seg_name {s rest : List Char} (hne : s ≠ []) (hname : s.all isNameChar = true)
    (hrest : rest.head?.all (fun c => !isNameChar c) = true) (before : List Char) :
    matchAt id (fun _ => false) seg.re before (s ++ rest) = some ⟨s, [(1, s)]⟩ := by
  have hrun : (results id (fun _ => false) (.group 1 (.plus (.cls isNameChar)))
      ⟨before, s ++ rest, []⟩).head? = some ⟨s.reverse ++ before, rest, [(1, s)]⟩ :=
    head?_group_run 1 hne hname hrest before []
  have hhead : (results id (fun _ => false) seg.re ⟨before, s ++ rest, []⟩).head?
      = some ⟨s.reverse ++ before, rest, [(1, s)]⟩ := by
    unfold seg
    rw [results, List.head?_append, hrun]
    rfl
  rw [matchAt_of_head hhead (n := s.length) (by simp), List.take_left]

/-- A bracket is read up to where it is closed. -/
theorem matchAt_seg_bracket {s : List Char} (hne : s ≠ []) (hclosed : s.all (· != ']') = true)
    (before rest : List Char) :
    matchAt id (fun _ => false) seg.re before (bracketed s ++ rest)
      = some ⟨bracketed s, [(2, s)]⟩ := by
  have htext : bracketed s ++ rest = '[' :: (s ++ ']' :: rest) := by
    unfold bracketed
    rw [List.cons_append, List.append_assoc, List.singleton_append]
  -- a bracket is no name
  have hname : results id (fun _ => false) (.group 1 (.plus (.cls isNameChar)))
      ⟨before, '[' :: (s ++ ']' :: rest), []⟩ = [] := rfl
  have hhead : (results id (fun _ => false) seg.re ⟨before, '[' :: (s ++ ']' :: rest), []⟩).head?
      = some ⟨']' :: (s.reverse ++ '[' :: before), rest, [(2, s)]⟩ := by
    unfold seg
    rw [results, hname, List.nil_append]
    exact head?_delimited 2 rfl rfl rfl hne hclosed rfl rfl before rest []
  have hlength : (bracketed s).length = s.length + 2 := by simp [bracketed]
  rw [htext, matchAt_of_head hhead (n := s.length + 2) (by simp), ← htext, ← hlength,
    List.take_left]

/-- A dot is passed over. -/
theorem matchAt_seg_dot (before rest : List Char) :
    matchAt id (fun _ => false) seg.re before ('.' :: rest) = none := rfl

theorem matchAt_segment (seg : Segment d) {rest : List Char}
    (hrest : rest.head?.all (fun c => !isNameChar c) = true) (before : List Char) :
    matchAt id (fun _ => false) Hack.seg.re before (seg.chars ++ rest) = some seg.found := by
  cases seg with
  | name s hne hname => exact matchAt_seg_name hne hname hrest before
  | key s hne hclosed hkey => exact matchAt_seg_bracket hne hclosed before rest
  | index n =>
      refine matchAt_seg_bracket Nat.toDigits_ne_nil ?_ before rest
      rw [List.all_eq_true]
      intro c hc
      rw [bne_iff_ne]
      exact digit_ne_of_mem rfl hc

/-! ## Reading a path back -/

/-- The matches in a text, from a position on. -/
def foundFrom (before text : List Char) : List (Match Char) :=
  (tokens id (fun _ => false) seg before text 0).filterMap Sum.getRight?

theorem foundFrom_segment (seg : Segment d) {rest : List Char}
    (hrest : rest.head?.all (fun c => !isNameChar c) = true) (before : List Char) :
    foundFrom before (seg.chars ++ rest)
      = seg.found :: foundFrom (seg.chars.reverse ++ before) rest := by
  unfold foundFrom
  rw [tokens_some (matchAt_segment seg hrest before) seg.text_found]
  rfl

theorem foundFrom_dot (before rest : List Char) :
    foundFrom before ('.' :: rest) = foundFrom ('.' :: before) rest := by
  unfold foundFrom
  rw [tokens_none (matchAt_seg_dot before rest)]
  rfl

theorem foundFrom_following (segs : List (Segment d)) (before : List Char) :
    foundFrom before (segs.flatMap Segment.following) = segs.map Segment.found := by
  induction segs generalizing before with
  | nil => rfl
  | cons seg segs ih =>
      have hstops := following_stops segs
      rw [List.flatMap_cons, List.map_cons]
      cases seg with
      | name s hne hname =>
          -- only a name has something in front that no match takes
          show foundFrom before ('.' :: (s.toList ++ segs.flatMap Segment.following)) = _
          have hread := foundFrom_segment (.name s hne hname : Segment d) hstops ('.' :: before)
          rw [foundFrom_dot]
          exact hread.trans (congrArg _ (ih _))
      | key s hne hclosed hkey =>
          have hread := foundFrom_segment (.key s hne hclosed hkey : Segment d) hstops before
          exact hread.trans (congrArg _ (ih _))
      | index n =>
          have hread := foundFrom_segment (.index n : Segment d) hstops before
          exact hread.trans (congrArg _ (ih _))

theorem finditer_writePath (segs : List (Segment d)) :
    finditer id (fun _ => false) seg (writePath segs).toList = segs.map Segment.found := by
  cases segs with
  | nil => rfl
  | cons seg segs =>
      show foundFrom [] (writePath (seg :: segs)).toList = _
      unfold writePath
      rw [String.toList_ofList, foundFrom_segment seg (following_stops segs),
        foundFrom_following, List.map_cons]

/-- A match as a segment. -/
def readSegment (d : Digits) (m : Match Char) : Except Exc Key :=
  let name := (m.group 1).getD []
  let bracket := (m.group 2).getD []
  if !name.isEmpty then .ok (.name (String.ofList name))
  else if !bracket.isEmpty && bracket.all d.isDigit then (d.int bracket).map .index
  else .ok (.name (String.ofList bracket))

/-- The index is one that Python converts; a name or a key is as long as it likes. -/
def Segment.Short : Segment d → Prop
  | .index n => Convertible n
  | _ => True

theorem readSegment_found (hd : d.Ascii) {seg : Segment d} (hshort : seg.Short) :
    readSegment d seg.found = .ok seg.toKey := by
  cases seg with
  | name s hne hname =>
      have hne : s.toList.isEmpty = false := by simpa using hne
      show (if !s.toList.isEmpty then _ else _) = _
      rw [hne]
      show Except.ok (Key.name (String.ofList s.toList)) = Except.ok (Key.name s)
      rw [String.ofList_toList]
  | key s hne hclosed hkey =>
      show (if !s.toList.isEmpty && s.toList.all d.isDigit then _ else _) = _
      rw [hkey, Bool.and_false]
      show Except.ok (Key.name (String.ofList s.toList)) = Except.ok (Key.name s)
      rw [String.ofList_toList]
  | index n =>
      have hne : (Nat.toDigits 10 n).isEmpty = false := by
        rw [List.isEmpty_eq_false_iff]
        exact Nat.toDigits_ne_nil
      show (if !(Nat.toDigits 10 n).isEmpty && (Nat.toDigits 10 n).all d.isDigit then
        (d.int (Nat.toDigits 10 n)).map Key.index else _) = _
      rw [hne, hd.all_isDigit_toDigits, hd.int_toDigits hshort]
      rfl

theorem segments_eq (path : String) :
    segments d path = (finditer id (fun _ => false) seg path.toList).mapM (readSegment d) := rfl

/-- **A path is read back as the segments it was written from**, if no index is too long. -/
theorem segments_writePath (hd : d.Ascii) (segs : List (Segment d))
    (hshort : ∀ seg ∈ segs, seg.Short) :
    segments d (writePath segs) = .ok (segs.map Segment.toKey) := by
  rw [segments_eq, finditer_writePath]
  induction segs with
  | nil => rfl
  | cons seg segs ih =>
      have hread := readSegment_found hd (hshort seg List.mem_cons_self)
      rw [List.map_cons, List.mapM_cons, hread, ih fun s hs => hshort s (List.mem_cons_of_mem _ hs)]
      rfl

/-- A name of digits, a key with a dot and a bracket, and an index. -/
theorem segments_writePath_mixed :
    let segs : List (Segment asciiDigits) :=
      [.name "0" (by decide) (by decide), .index 10, .key "a.b/[c" (by decide) (by decide)
        (by decide), .name "d" (by decide) (by decide)]
    writePath segs = "0[10][a.b/[c].d"
      ∧ segments asciiDigits (writePath segs)
        = .ok [.name "0", .index 10, .name "a.b/[c", .name "d"] := by
  intro segs
  have hshort : ∀ seg ∈ segs, seg.Short := by
    simp only [segs, List.forall_mem_cons, Segment.Short]
    exact ⟨trivial, by decide, trivial, trivial, by simp⟩
  exact ⟨by decide, segments_writePath asciiDigits_ascii segs hshort⟩

/-- `int` of a longer text of digits raises. -/
theorem segments_index_of_not_convertible (hd : d.Ascii) {n : Nat} (hn : ¬ Convertible n) :
    segments d (writePath [(.index n : Segment d)]) = .error .valueError := by
  have hne : (Nat.toDigits 10 n).isEmpty = false :=
    List.isEmpty_eq_false_iff.mpr Nat.toDigits_ne_nil
  have hread : readSegment d (Segment.index n : Segment d).found = .error .valueError := by
    show (if !(Nat.toDigits 10 n).isEmpty && (Nat.toDigits 10 n).all d.isDigit then
      (d.int (Nat.toDigits 10 n)).map Key.index else _) = _
    rw [hne, hd.all_isDigit_toDigits, Digits.int, if_neg (show ¬ _ ≤ _ from hn)]
    rfl
  rw [segments_eq, finditer_writePath, List.map_singleton, List.mapM_cons, hread]
  rfl

/-- An index of 4301 digits is not read back. -/
theorem not_segments_writePath :
    ¬ ∀ (d : Digits), d.Ascii → ∀ segs : List (Segment d),
      segments d (writePath segs) = .ok (segs.map Segment.toKey) := by
  intro h
  have hlong : ¬ Convertible (10 ^ maxStrDigits) := by
    rw [convertible_iff]
    exact Nat.lt_irrefl _
  have hread := h asciiDigits asciiDigits_ascii [.index (10 ^ maxStrDigits)]
  rw [segments_index_of_not_convertible asciiDigits_ascii hlong] at hread
  cases hread

end Segments

end MigrationPlatform.Hack
