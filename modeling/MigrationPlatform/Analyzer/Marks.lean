import Mathlib.Algebra.GroupWithZero.Nat
import MigrationPlatform.Analyzer.Parser

/-!
# Comments, read without strings

The three passes of `strip_comments` as readings of the text, with no regular
expression: each marks the characters that it takes away. None of them knows
about strings, and each sees only what the one before it has left.

A pass takes no newline. So it leaves every line where it was, and whether it
loses a character of some kind can be told by counting them.
-/

namespace MigrationPlatform.Analyzer

section Marks

variable {α : Type} (ch : α → Char)

/-- What marks leave. -/
def kept (marks : List (α × Bool)) : List α := (marks.filter fun p => !p.2).map Prod.fst

@[simp] theorem kept_nil : kept ([] : List (α × Bool)) = [] := rfl
@[simp] theorem kept_cons_true (x : α) (marks : List (α × Bool)) :
    kept ((x, true) :: marks) = kept marks := rfl
@[simp] theorem kept_cons_false (x : α) (marks : List (α × Bool)) :
    kept ((x, false) :: marks) = x :: kept marks := rfl

/-- The text begins with these two characters. -/
def begins (a b : Char) : List α → Bool
  | x :: y :: _ => ch x == a && ch y == b
  | _ => false

/-! ## Lines that begin with `#!` -/

/-- Where the first pass stands in a line. -/
inductive LineMode where
  | start
  | inside
  | dropped

/-- A line that begins with `#!` is taken. -/
def shebangMarks : LineMode → List α → List (α × Bool)
  | _, [] => []
  | mode, x :: xs =>
      if ch x == '\n' then (x, false) :: shebangMarks .start xs
      else match mode with
        | .start =>
            if begins ch '#' '!' (x :: xs) then (x, true) :: shebangMarks .dropped xs
            else (x, false) :: shebangMarks .inside xs
        | .inside => (x, false) :: shebangMarks .inside xs
        | .dropped => (x, true) :: shebangMarks .dropped xs

/-! ## Block comments -/

/-- The length of the text up to the end of the first `*/`. -/
def closing : List α → Option Nat
  | [] => none
  | x :: xs => if begins ch '*' '/' (x :: xs) then some 2 else (closing xs).map (· + 1)

/-- The length of the `/*…*/` that begins here. -/
def blockLength (text : List α) : Option Nat :=
  if begins ch '/' '*' text then (closing ch (text.drop 2)).map (· + 2) else none

/-- A `/*…*/` is taken, but for its newlines. `skip` counts what is left of it. -/
def blockMarks : Nat → List α → List (α × Bool)
  | _, [] => []
  | skip + 1, x :: xs => (x, ch x != '\n') :: blockMarks skip xs
  | 0, x :: xs =>
      match blockLength ch (x :: xs) with
      | some n => (x, true) :: blockMarks (n - 1) xs
      | none => (x, false) :: blockMarks 0 xs

/-! ## Line comments -/

/-- From the first `//` without a guard in front of it, the line is taken. -/
def lineMarks : Bool → List α → List (α × Bool)
  | _, [] => []
  | guarded, x :: xs =>
      if !guarded && begins ch '/' '/' (x :: xs) then
        (x, true) :: xs.map fun y => (y, true)
      else (x, false) :: lineMarks (isGuard (ch x)) xs

/-- What the passes for `#!` and block comments leave. -/
def unblocked (text : List α) : List α :=
  kept (blockMarks ch 0 (kept (shebangMarks ch .start text)))

end Marks

variable {α : Type} {ch : α → Char}

theorem begins_iff {a b : Char} {xs : List α} :
    begins ch a b xs = true ↔ ∃ x y rest, xs = x :: y :: rest ∧ ch x = a ∧ ch y = b := by
  constructor
  · intro h
    match xs with
    | [] => cases h
    | [x] => cases h
    | x :: y :: rest =>
        have h : ch x = a ∧ ch y = b := by simpa [begins] using h
        exact ⟨x, y, rest, rfl, h.1, h.2⟩
  · rintro ⟨x, y, rest, rfl, rfl, rfl⟩
    simp [begins]

/-- One step of the first reading. -/
theorem shebangMarks_cons (ch : α → Char) (mode : LineMode) (x : α) (xs : List α) :
    ∃ b mode', shebangMarks ch mode (x :: xs) = (x, b) :: shebangMarks ch mode' xs
      ∧ (b = true → (ch x == '\n') = false) := by
  cases hx : ch x == '\n' with
  | true =>
      refine ⟨false, .start, ?_, fun h => by cases h⟩
      cases mode <;> simp only [shebangMarks, hx, if_true]
  | false =>
      cases mode <;> simp only [shebangMarks, hx, Bool.false_eq_true, if_false]
      · split <;> exact ⟨_, _, rfl, fun _ => trivial⟩
      · exact ⟨_, _, rfl, fun _ => trivial⟩
      · exact ⟨_, _, rfl, fun _ => trivial⟩

/-- One step of the second. -/
theorem blockMarks_cons (ch : α → Char) (skip : Nat) (x : α) (xs : List α) :
    ∃ b skip', blockMarks ch skip (x :: xs) = (x, b) :: blockMarks ch skip' xs
      ∧ (b = true → (ch x == '\n') = false) := by
  cases skip with
  | succ skip => exact ⟨_, skip, rfl, fun h => by simpa [bne] using h⟩
  | zero =>
      cases hn : blockLength ch (x :: xs) with
      | none => exact ⟨false, 0, by rw [blockMarks, hn], fun h => by cases h⟩
      | some n =>
          refine ⟨true, n - 1, by rw [blockMarks, hn], fun _ => ?_⟩
          rw [blockLength] at hn
          split at hn
          · rename_i hb
            obtain ⟨_, _, _, hxs, hslash, _⟩ := begins_iff.mp hb
            obtain ⟨rfl, _⟩ := List.cons.inj hxs
            simp [hslash]
          · cases hn

theorem map_fst_shebangMarks (mode : LineMode) (text : List α) :
    (shebangMarks ch mode text).map Prod.fst = text := by
  induction text generalizing mode with
  | nil => rfl
  | cons x xs ih =>
      obtain ⟨b, mode', hmarks, _⟩ := shebangMarks_cons ch mode x xs
      rw [hmarks, List.map_cons, ih]

theorem map_fst_blockMarks (skip : Nat) (text : List α) :
    (blockMarks ch skip text).map Prod.fst = text := by
  induction text generalizing skip with
  | nil => simp [blockMarks]
  | cons x xs ih =>
      obtain ⟨b, skip', hmarks, _⟩ := blockMarks_cons ch skip x xs
      rw [hmarks, List.map_cons, ih]

theorem map_fst_lineMarks (ch : α → Char) (guarded : Bool) (line : List α) :
    (lineMarks ch guarded line).map Prod.fst = line := by
  induction line generalizing guarded with
  | nil => rfl
  | cons x xs ih =>
      rw [lineMarks]
      split
      · simp [Function.comp_def]
      · simp [ih]

/-! ## What marks spare -/

/-- The marks take no character with `q`. -/
def Spares (q : α → Bool) (marks : List (α × Bool)) : Prop :=
  ∀ p ∈ marks, p.2 = true → q p.1 = false

instance {q : α → Bool} {marks : List (α × Bool)} : Decidable (Spares q marks) := by
  unfold Spares
  infer_instance

theorem Spares.tail {q : α → Bool} {p : α × Bool} {marks : List (α × Bool)}
    (h : Spares q (p :: marks)) : Spares q marks := fun p' hp => h p' (List.mem_cons_of_mem _ hp)

theorem spares_cons {q : α → Bool} {x : α} {b : Bool} {marks : List (α × Bool)}
    (hx : b = true → q x = false) (h : Spares q marks) : Spares q ((x, b) :: marks) := by
  rintro p hp hb
  rcases List.mem_cons.mp hp with rfl | hp
  · exact hx hb
  · exact h p hp hb

/-- How many characters with `q` the marks take. -/
def lost (q : α → Bool) (marks : List (α × Bool)) : Nat := marks.countP fun p => p.2 && q p.1

theorem lost_eq_zero {q : α → Bool} {marks : List (α × Bool)} :
    lost q marks = 0 ↔ Spares q marks := by
  rw [lost, List.countP_eq_zero]
  constructor
  · intro h p hp hb
    simpa [hb] using h p hp
  · intro h p hp hq
    obtain ⟨hb, hq⟩ := Bool.and_eq_true_iff.mp hq
    rw [h p hp hb] at hq
    cases hq

/-- **Every character is kept or taken.** -/
theorem countP_kept (q : α → Bool) (marks : List (α × Bool)) :
    (kept marks).countP q + lost q marks = (marks.map Prod.fst).countP q := by
  induction marks with
  | nil => rfl
  | cons p marks ih =>
      obtain ⟨x, b⟩ := p
      rw [lost] at ih ⊢
      cases b <;> cases hq : q x <;>
        simp only [kept_cons_true, kept_cons_false, List.map_cons, List.countP_cons, hq,
          Bool.and_false, Bool.false_and, Bool.and_self, Bool.false_eq_true, if_true, if_false]
        <;> omega

theorem filter_kept {q : α → Bool} {marks : List (α × Bool)} (h : Spares q marks) :
    (kept marks).filter q = (marks.map Prod.fst).filter q := by
  induction marks with
  | nil => rfl
  | cons p marks ih =>
      obtain ⟨x, b⟩ := p
      cases b with
      | false => simp [List.filter_cons, ih h.tail]
      | true => simp [ih h.tail, h (x, true) List.mem_cons_self rfl]

/-! ## Lines -/

/-- The characters with `q`, line by line. -/
def linesOf (ch : α → Char) (q : α → Bool) (text : List α) : List (List α) :=
  (Lines.split ch text).map (List.filter q)

theorem linesOf_newline {q : α → Bool} {x : α} (hx : ch x = '\n') (text : List α) :
    linesOf ch q (x :: text) = [] :: linesOf ch q text := by
  simp [linesOf, Lines.split, hx]

theorem linesOf_cons {q : α → Bool} {x : α} (hx : ch x ≠ '\n') (text : List α) :
    linesOf ch q (x :: text)
      = if q x then Lines.consHead x (linesOf ch q text) else linesOf ch q text := by
  rw [linesOf, Lines.split, if_neg (by simpa using hx)]
  cases hs : Lines.split ch text with
  | nil => exact absurd hs (Lines.split_ne_nil text)
  | cons line lines => cases hq : q x <;> simp [linesOf, hs, Lines.consHead, hq]

/-- **Marks that spare newlines leave every character on its line.** -/
theorem linesOf_kept {q : α → Bool} {marks : List (α × Bool)} (h : Spares q marks)
    (hnewline : Spares (ch · == '\n') marks) :
    linesOf ch q (kept marks) = linesOf ch q (marks.map Prod.fst) := by
  induction marks with
  | nil => rfl
  | cons p marks ih =>
      obtain ⟨x, b⟩ := p
      have ih := ih h.tail hnewline.tail
      cases b with
      | true =>
          -- what is taken is no newline, so no line ends or begins here
          have hx : ch x ≠ '\n' := by simpa using hnewline (x, true) List.mem_cons_self rfl
          have hq : q x = false := h (x, true) List.mem_cons_self rfl
          rw [kept_cons_true, List.map_cons, linesOf_cons hx, hq, ih]
          rfl
      | false =>
          rw [kept_cons_false, List.map_cons]
          by_cases hx : ch x = '\n'
          · rw [linesOf_newline hx, linesOf_newline hx, ih]
          · rw [linesOf_cons hx, linesOf_cons hx, ih]

theorem flatten_linesOf {q : α → Bool} (hq : ∀ x, ch x = '\n' → q x = false) (text : List α) :
    (linesOf ch q text).flatten = text.filter q := by
  induction text with
  | nil => rfl
  | cons x xs ih =>
      by_cases hx : ch x = '\n'
      · simp [linesOf_newline hx, ih, hq x hx]
      · rw [linesOf_cons hx, List.filter_cons, ← ih]
        split
        · cases linesOf ch q xs <;> rfl
        · rfl

/-- Marks line by line: every character is kept or taken. -/
theorem length_kept_lines (q : α → Bool) {marks : List α → List (α × Bool)}
    (hmarks : ∀ line, (marks line).map Prod.fst = line) (lines : List (List α)) :
    (lines.map fun line => (kept (marks line)).filter q).flatten.length
        + (lines.map fun line => lost q (marks line)).sum
      = (lines.map (List.filter q)).flatten.length := by
  induction lines with
  | nil => rfl
  | cons line lines ih =>
      have hcount := countP_kept q (marks line)
      rw [hmarks, List.countP_eq_length_filter, List.countP_eq_length_filter] at hcount
      simp only [List.map_cons, List.flatten_cons, List.length_append, List.sum_cons]
      omega

/-- The passes take no newline. -/
theorem shebangMarks_newline (mode : LineMode) (text : List α) :
    Spares (ch · == '\n') (shebangMarks ch mode text) := by
  induction text generalizing mode with
  | nil => intro p hp; cases hp
  | cons x xs ih =>
      obtain ⟨b, mode', hmarks, hb⟩ := shebangMarks_cons ch mode x xs
      rw [hmarks]
      exact spares_cons hb (ih mode')

theorem blockMarks_newline (skip : Nat) (text : List α) :
    Spares (ch · == '\n') (blockMarks ch skip text) := by
  induction text generalizing skip with
  | nil => intro p hp; simp [blockMarks] at hp
  | cons x xs ih =>
      obtain ⟨b, skip', hmarks, hb⟩ := blockMarks_cons ch skip x xs
      rw [hmarks]
      exact spares_cons hb (ih skip')

theorem kept_subset {marks : List (α × Bool)} : kept marks ⊆ marks.map Prod.fst := by
  intro x hx
  obtain ⟨p, hp, rfl⟩ := List.mem_map.mp hx
  exact List.mem_map_of_mem (List.mem_of_mem_filter hp)

/-- No pass loses a line. -/
theorem length_split_unblocked (text : List α) :
    (Lines.split ch (unblocked ch text)).length = (Lines.split ch text).length := by
  have hlength : ∀ marks : List (α × Bool), Spares (ch · == '\n') marks →
      (Lines.split ch (kept marks)).length = (Lines.split ch (marks.map Prod.fst)).length := by
    intro marks hmarks
    have hlines := linesOf_kept (q := fun _ => false) (fun _ _ _ => rfl) hmarks
    simpa [linesOf] using congrArg List.length hlines
  rw [unblocked, hlength _ (blockMarks_newline 0 _), map_fst_blockMarks,
    hlength _ (shebangMarks_newline .start _), map_fst_shebangMarks]

end MigrationPlatform.Analyzer
