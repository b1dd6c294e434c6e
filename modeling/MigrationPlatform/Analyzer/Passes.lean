import Mathlib.Data.List.TakeWhile
import MigrationPlatform.Lib.RegexWalk
import MigrationPlatform.Analyzer.Marks

/-!
# What the three passes take

Each regular expression of `strip_comments` matches where its reading in `Marks`
says, so each pass keeps what the marks leave, and so does `strip_comments`.
-/

namespace MigrationPlatform.Analyzer

open Regex

variable {α : Type} {ch : α → Char} {word : Char → Bool}

theorem head?_dropWhile_all (ch : α → Char) (xs : List α) :
    (xs.dropWhile fun x => ch x != '\n').head?.all (fun x => ch x == '\n') = true := by
  induction xs with
  | nil => rfl
  | cons x xs ih =>
      by_cases hx : ch x = '\n'
      · simp [hx]
      · simpa [hx] using ih

/-- A literal of two characters, as a condition on the text. -/
theorem isPrefixOf_two (a b : Char) (xs : List α) :
    [a, b].isPrefixOf (xs.map ch) = begins ch a b xs := by
  match xs with
  | [] => rfl
  | [x] => simp [begins, List.isPrefixOf]
  | x :: y :: rest =>
      have hsymm : ∀ c d : Char, (c == d) = (d == c) := fun c d => by
        rw [Bool.eq_iff_iff, beq_iff_eq, beq_iff_eq, eq_comm]
      simp [begins, List.isPrefixOf, hsymm a, hsymm b]

theorem results_lit_two {s : String} {a b : Char} (hs : s.toList = [a, b]) (c : Cursor α) :
    results ch word (.lit s) c = if begins ch a b c.rest then [c.advance 2] else [] := by
  rw [results_lit, hs, isPrefixOf_two]
  rfl

/-- **Where `#!` matches**, it matches the rest of the line. -/
theorem matchAt_shebang (before rest : List α) :
    matchAt ch word shebang.re before rest
      = if before.head?.all (fun x => ch x == '\n') && begins ch '#' '!' rest then
          some ⟨rest.takeWhile fun x => ch x != '\n', []⟩
        else none := by
  have hres : results ch word shebang.re ⟨before, rest, []⟩
      = (if before.head?.all (fun x => ch x == '\n') then [Cursor.mk before rest []]
          else []).flatMap fun c => (if begins ch '#' '!' c.rest then [c.advance 2] else []).flatMap
            fun c => (results ch word (.star true dot) c).flatMap
              fun c => (results ch word .lineStop c).flatMap fun c => [c] := by
    simp only [shebang, Re.all, List.foldr_cons, List.foldr_nil, results,
      results_lit_two (show "#!".toList = ['#', '!'] from rfl)]
  split
  · rename_i h
    obtain ⟨hb, hp⟩ := Bool.and_eq_true_iff.mp h
    rw [if_pos hb, List.flatMap_singleton, if_pos hp, List.flatMap_singleton] at hres
    obtain ⟨x, y, tail, rfl, hx, hy⟩ := begins_iff.mp hp
    -- the dot goes as far as it can, and `$` holds there
    have hline : (x :: y :: tail).takeWhile (fun z => ch z != '\n')
        = x :: y :: tail.takeWhile fun z => ch z != '\n' := by simp [hx, hy]
    have hfar := head?_greedyWalk ch (fun c => c != '\n') [] (y :: x :: before) tail
    have hhead := head?_flatMap_of_head (f := fun c =>
      (results ch word .lineStop c).flatMap fun c => [c]) hfar
      (b := (Cursor.mk (y :: x :: before) tail []).advance
        (tail.takeWhile fun z => ch z != '\n').length) (by
        have hend := head?_dropWhile_all ch tail
        rw [← drop_takeWhile] at hend
        simp only [results, Cursor.advance, hend, if_true]
        rfl)
    rw [← results_star_greedy word] at hhead
    have hmatch : matchAt ch word shebang.re before (x :: y :: tail)
        = some ⟨(x :: y :: tail).take ((tail.takeWhile fun z => ch z != '\n').length + 2), _⟩ :=
      matchAt_of_head (by rw [hres]; exact hhead) rfl
    rw [hmatch, hline, List.take_succ_cons, List.take_succ_cons, take_takeWhile]
    rfl
  · rename_i h
    rw [matchAt, hres]
    cases hb : before.head?.all (fun x => ch x == '\n') with
    | false => rfl
    | true =>
        rw [hb, Bool.true_and] at h
        rw [if_pos rfl, List.flatMap_singleton, if_neg h]
        rfl

/-- The first pass takes the lines that begin with `#!`. -/
theorem subFrom_shebang (before rest : List α) :
    (before.head?.all (fun x => ch x == '\n') = true →
      subFrom ch word shebang (fun _ => []) before rest 0 = kept (shebangMarks ch .start rest))
    ∧ (before.head?.all (fun x => ch x == '\n') = false →
      subFrom ch word shebang (fun _ => []) before rest 0 = kept (shebangMarks ch .inside rest))
    ∧ subFrom ch word shebang (fun _ => []) before rest
        (rest.takeWhile fun x => ch x != '\n').length
      = kept (shebangMarks ch .dropped rest) := by
  induction rest generalizing before with
  | nil => simp [shebangMarks]
  | cons x xs ih =>
      obtain ⟨ihstart, ihinside, ihdropped⟩ := ih (x :: before)
      by_cases hx : ch x = '\n'
      · -- no match begins at a newline, and the next line starts behind it
        have hhead : (x :: before).head?.all (fun x => ch x == '\n') = true := by simp [hx]
        have hbegins : begins ch '#' '!' (x :: xs) = false := by
          cases xs <;> simp [begins, hx]
        have hnone : matchAt ch word shebang.re before (x :: xs) = none := by
          rw [matchAt_shebang, hbegins, Bool.and_false]
          rfl
        have hline : (x :: xs).takeWhile (fun x => ch x != '\n') = [] := by simp [hx]
        have hnewline : subFrom ch word shebang (fun _ => []) before (x :: xs) 0
            = x :: kept (shebangMarks ch .start xs) := by
          rw [subFrom_none hnone, ihstart hhead]
        have hmarks : ∀ mode, shebangMarks ch mode (x :: xs)
            = (x, false) :: shebangMarks ch .start xs := fun mode => by simp [shebangMarks, hx]
        rw [hline, hmarks, hmarks, hmarks]
        exact ⟨fun _ => hnewline, fun _ => hnewline, hnewline⟩
      · -- a match can begin at the start of the line only
        have hhead : (x :: before).head?.all (fun x => ch x == '\n') = false := by simp [hx]
        have hline : ((x :: xs).takeWhile fun x => ch x != '\n').length
            = (xs.takeWhile fun x => ch x != '\n').length + 1 := by simp [hx]
        refine ⟨fun hb => ?_, fun hb => ?_, ?_⟩
        · cases hbegins : begins ch '#' '!' (x :: xs) with
          | true =>
              have hsome : matchAt ch word shebang.re before (x :: xs) = _ :=
                matchAt_shebang before (x :: xs)
              rw [hb, hbegins, Bool.true_and, if_pos rfl] at hsome
              rw [subFrom_some hsome, hline, Nat.add_sub_cancel, ihdropped]
              simp [shebangMarks, hx, hbegins]
          | false =>
              have hnone : matchAt ch word shebang.re before (x :: xs) = none := by
                rw [matchAt_shebang, hbegins, Bool.and_false]
                rfl
              rw [subFrom_none hnone, ihinside hhead]
              simp [shebangMarks, hx, hbegins]
        · have hnone : matchAt ch word shebang.re before (x :: xs) = none := by
            rw [matchAt_shebang, hb, Bool.false_and]
            rfl
          rw [subFrom_none hnone, ihinside hhead]
          simp [shebangMarks, hx]
        · rw [hline, subFrom_skip, ihdropped]
          simp [shebangMarks, hx]

/-- **The first pass** keeps what its marks leave. -/
theorem sub_shebang (text : List α) :
    sub ch word shebang (fun _ => []) text = kept (shebangMarks ch .start text) := by
  rw [sub_eq_subFrom]
  exact (subFrom_shebang [] text).1 rfl

/-- The nearest `*/` ends the lazy walk. -/
theorem head?_lazyWalk_closing (ch : α → Char) (before rest : List α) (g : List (Nat × List α)) :
    ((lazyWalk ch (fun _ => true) g before rest).flatMap fun c =>
        (if begins ch '*' '/' c.rest then [c.advance 2] else []).flatMap fun c => [c]).head?
      = (closing ch rest).map fun n => (Cursor.mk before rest g).advance n := by
  induction rest generalizing before with
  | nil => rfl
  | cons x xs ih =>
      rw [lazyWalk, head?_flatMap_cons, if_pos rfl, ih, closing]
      cases hb : begins ch '*' '/' (x :: xs) with
      | true => rfl
      | false =>
          have hadv : ∀ n, (Cursor.mk (x :: before) xs g).advance n
              = (Cursor.mk before (x :: xs) g).advance (n + 1) := fun n =>
            (Cursor.advance_cons n before x xs g).symm
          simp [hadv, Option.map_map, Function.comp_def]

/-- **Where `/*` matches**, it matches up to the nearest `*/`. -/
theorem matchAt_blockComment (before rest : List α) :
    matchAt ch word blockComment.re before rest
      = (blockLength ch rest).map fun n => ⟨rest.take n, []⟩ := by
  -- from the opening mark on the text is walked, lazily, to a closing mark
  have hres : results ch word blockComment.re ⟨before, rest, []⟩
      = (if begins ch '/' '*' rest then [(Cursor.mk before rest []).advance 2] else []).flatMap
          fun c => (results ch word (.star false (.cls fun _ => true)) c).flatMap
            fun c => (if begins ch '*' '/' c.rest then [c.advance 2] else []).flatMap
              fun c => [c] := by
    simp only [blockComment, Re.all, List.foldr_cons, List.foldr_nil, results,
      results_lit_two (show "/*".toList = ['/', '*'] from rfl),
      results_lit_two (show "*/".toList = ['*', '/'] from rfl)]
  rw [blockLength]
  cases hb : begins ch '/' '*' rest with
  | false =>
      rw [hb] at hres
      rw [matchAt, hres]
      rfl
  | true =>
      obtain ⟨x, y, tail, rfl, _, _⟩ := begins_iff.mp hb
      rw [hb, if_pos rfl, List.flatMap_singleton] at hres
      have hhead := head?_lazyWalk_closing ch (y :: x :: before) tail []
      rw [← results_star_lazy word] at hhead
      rw [if_pos rfl]
      cases hc : closing ch tail with
      | none =>
          have hnone : (results ch word blockComment.re ⟨before, x :: y :: tail, []⟩).head?
              = none := by
            rw [hc] at hhead
            rw [hres]
            exact hhead
          rw [matchAt, hnone]
          simp [hc]
      | some n =>
          rw [hc] at hhead
          have hmatch : matchAt ch word blockComment.re before (x :: y :: tail)
              = some ⟨(x :: y :: tail).take (n + 2), _⟩ :=
            matchAt_of_head (by rw [hres]; exact hhead) rfl
          rw [hmatch]
          simp [hc]

theorem closing_le {xs : List α} {n : Nat} (h : closing ch xs = some n) : n ≤ xs.length := by
  induction xs generalizing n with
  | nil => cases h
  | cons x xs ih =>
      rw [closing] at h
      split at h
      · rename_i hb
        obtain ⟨_, _, rest, hxs, _, _⟩ := begins_iff.mp hb
        have hn : 2 = n := Option.some.inj h
        rw [hxs]
        simp [← hn]
      · obtain ⟨m, hm, rfl⟩ := Option.map_eq_some_iff.mp h
        exact Nat.succ_le_succ (ih hm)

/-- A block comment begins with its `/*` and lies in the text. -/
theorem blockLength_spec {text : List α} {n : Nat} (h : blockLength ch text = some n) :
    begins ch '/' '*' text = true ∧ 2 ≤ n ∧ n ≤ text.length := by
  rw [blockLength] at h
  split at h
  · rename_i hb
    obtain ⟨m, hm, rfl⟩ := Option.map_eq_some_iff.mp h
    obtain ⟨_, _, rest, rfl, _, _⟩ := begins_iff.mp hb
    have hle := closing_le hm
    exact ⟨hb, by omega, by simpa using hle⟩
  · cases h

/-- The second pass takes what its marks take, from any position on. -/
theorem subFrom_blockComment (word : Char → Bool) (before rest : List α) (skip : Nat) :
    kept (blockMarks ch skip rest) = (rest.take skip).filter (ch · == '\n')
      ++ subFrom ch word blockComment (blankKeepNewlines ch) before rest skip := by
  induction rest generalizing before skip with
  | nil => simp [blockMarks]
  | cons x xs ih =>
      cases skip with
      | succ skip =>
          rw [blockMarks, subFrom_skip, List.take_succ_cons]
          cases hx : ch x == '\n' with
          | true =>
              have hkeep : (ch x != '\n') = false := by simpa [bne] using hx
              rw [hkeep, kept_cons_false, ih (x :: before) skip, List.filter_cons, hx]
              rfl
          | false =>
              have htake : (ch x != '\n') = true := by simpa [bne] using hx
              rw [htake, kept_cons_true, ih (x :: before) skip, List.filter_cons, hx]
              rfl
      | zero =>
          have hmatch : matchAt ch word blockComment.re before (x :: xs) = _ :=
            matchAt_blockComment before (x :: xs)
          rw [blockMarks, List.take_zero, List.filter_nil, List.nil_append]
          cases hn : blockLength ch (x :: xs) with
          | none =>
              rw [hn] at hmatch
              rw [subFrom_none hmatch, kept_cons_false, ih (x :: before) 0]
              rfl
          | some n =>
              -- the pass puts the newlines of the match at once, the marks one by one
              obtain ⟨hb, h2, hle⟩ := blockLength_spec hn
              obtain ⟨m, rfl⟩ : ∃ m, n = m + 1 := ⟨n - 1, by omega⟩
              have hx : (ch x == '\n') = false := by
                obtain ⟨_, _, _, hxs, hslash, _⟩ := begins_iff.mp hb
                obtain ⟨rfl, _⟩ := List.cons.inj hxs
                simp [hslash]
              have hlen : ((x :: xs).take (m + 1)).length = m + 1 := by
                rw [List.length_take]
                omega
              rw [hn, Option.map_some] at hmatch
              rw [subFrom_some hmatch, hlen, kept_cons_true, Nat.add_sub_cancel, ih (x :: before) m,
                blankKeepNewlines, List.take_succ_cons, List.filter_cons, hx]
              rfl

/-- **The second pass** keeps what its marks leave. -/
theorem sub_blockComment (text : List α) :
    sub ch word blockComment (blankKeepNewlines ch) text = kept (blockMarks ch 0 text) := by
  rw [sub_eq_subFrom, subFrom_blockComment word [] text 0]
  rfl

/-- The `//` and the rest of its line. -/
theorem head?_slashes (word : Char → Bool) {line : List α} (hline : ∀ x ∈ line, ch x ≠ '\n')
    (before : List α) (g : List (Nat × List α)) :
    (results ch word (.all [.lit "//", .star true dot, .stop]) ⟨before, line, g⟩).head?
      = if begins ch '/' '/' line then some ((Cursor.mk before line g).advance line.length)
        else none := by
  have hres : results ch word (.all [.lit "//", .star true dot, .stop]) ⟨before, line, g⟩
      = (if begins ch '/' '/' line then [(Cursor.mk before line g).advance 2] else []).flatMap
          fun c => (results ch word (.star true dot) c).flatMap
            fun c => (results ch word .stop c).flatMap fun c => [c] := by
    simp only [Re.all, List.foldr_cons, List.foldr_nil, results,
      results_lit_two (show "//".toList = ['/', '/'] from rfl)]
  rw [hres]
  cases hb : begins ch '/' '/' line with
  | false => rfl
  | true =>
      obtain ⟨a, b, tail, rfl, _, _⟩ := begins_iff.mp hb
      have hall : tail.takeWhile (fun x => ch x != '\n') = tail := by
        refine List.takeWhile_eq_self_iff.mpr fun x hx => ?_
        have hx := hline x (List.mem_cons_of_mem _ (List.mem_cons_of_mem _ hx))
        simpa using hx
      have hfar := head?_greedyWalk ch (fun c => c != '\n') g (b :: a :: before) tail
      rw [← results_star_greedy word, hall] at hfar
      rw [if_pos rfl, if_pos rfl, List.flatMap_singleton, List.length_cons, List.length_cons,
        Cursor.advance_cons, Cursor.advance_cons, Cursor.advance_cons, Cursor.advance_cons]
      refine head?_flatMap_of_head hfar ?_
      simp [results, Cursor.advance]

/-- **Where `//` matches** in a line: at its start, or after a character that is no guard. -/
theorem matchAt_lineComment {x : α} {xs : List α} (hline : ∀ y ∈ x :: xs, ch y ≠ '\n')
    (before : List α) :
    matchAt ch word lineComment.re before (x :: xs)
      = if before.isEmpty && begins ch '/' '/' (x :: xs) then some ⟨x :: xs, [(1, [])]⟩
        else if !isGuard (ch x) && begins ch '/' '/' xs then some ⟨x :: xs, [(1, [x])]⟩
        else none := by
  have hres : (results ch word lineComment.re ⟨before, x :: xs, []⟩).head?
      = (if before.isEmpty && begins ch '/' '/' (x :: xs) then
          some ((Cursor.mk before (x :: xs) [(1, [])]).advance (x :: xs).length) else none).or
        (if !isGuard (ch x) && begins ch '/' '/' xs then
          some ((Cursor.mk (x :: before) xs [(1, [x])]).advance xs.length) else none) := by
    have hslashes := head?_slashes word hline before [(1, [])]
    have hslashes' := head?_slashes word
      (fun y hy => hline y (List.mem_cons_of_mem _ hy)) (x :: before) [(1, [x])]
    have hgroup : results ch word (.group 1 (.alt .start (.cls fun c => !isGuard c)))
          ⟨before, x :: xs, []⟩
        = (if before.isEmpty then [⟨before, x :: xs, [(1, [])]⟩] else [])
          ++ if !isGuard (ch x) then [⟨x :: before, xs, [(1, [x])]⟩] else [] := by
      cases hb : before.isEmpty <;> cases hg : isGuard (ch x) <;> simp [results, hb, hg]
    have hseq : results ch word lineComment.re ⟨before, x :: xs, []⟩
        = (results ch word (.group 1 (.alt .start (.cls fun c => !isGuard c)))
            ⟨before, x :: xs, []⟩).flatMap
          (results ch word (.all [.lit "//", .star true dot, .stop])) := rfl
    rw [hseq, hgroup, List.flatMap_append, List.head?_append]
    cases before.isEmpty <;> cases isGuard (ch x) <;> simp [hslashes, hslashes']
  rw [matchAt, hres]
  split
  · simp [Cursor.advance]
  · split <;> simp [Cursor.advance]

theorem subFrom_of_length_le {p : Pattern} {repl : Match α → List α} {rest : List α} {skip : Nat}
    (h : rest.length ≤ skip) (before : List α) : subFrom ch word p repl before rest skip = [] := by
  induction rest generalizing before skip with
  | nil => rw [subFrom_nil]
  | cons x xs ih =>
      obtain ⟨n, rfl⟩ : ∃ n, skip = n + 1 := ⟨skip - 1, by simp at h; omega⟩
      rw [subFrom_skip]
      exact ih (by simpa using h) (x :: before)

theorem kept_all_true (xs : List α) : kept (xs.map fun y => (y, true)) = [] := by
  induction xs with
  | nil => rfl
  | cons x xs ih => rw [List.map_cons, kept_cons_true, ih]

theorem lineMarks_of_not_begins {xs : List α} (h : begins ch '/' '/' xs = false) (guarded : Bool) :
    lineMarks ch guarded xs = lineMarks ch true xs := by
  cases xs with
  | nil => rfl
  | cons x xs => rw [lineMarks, lineMarks, h, Bool.and_false, Bool.and_false]

/-- A character at which no comment begins is kept, and it guards what follows or not. -/
theorem subFrom_lineComment_cons {x : α} {xs : List α} (hline : ∀ y ∈ x :: xs, ch y ≠ '\n')
    {before : List α} (hstart : (before.isEmpty && begins ch '/' '/' (x :: xs)) = false)
    (hrest : subFrom ch word lineComment (fun m => (m.group 1).getD []) (x :: before) xs 0
      = kept (lineMarks ch true xs)) :
    subFrom ch word lineComment (fun m => (m.group 1).getD []) before (x :: xs) 0
      = x :: kept (lineMarks ch (isGuard (ch x)) xs) := by
  have hmatch : matchAt ch word lineComment.re before (x :: xs) = _ :=
    matchAt_lineComment hline before
  rw [hstart, if_neg Bool.false_ne_true] at hmatch
  split at hmatch
  · rename_i h
    -- the match takes the character along and puts it back
    obtain ⟨hguard, hbegins⟩ := Bool.and_eq_true_iff.mp h
    have hmarks : kept (lineMarks ch (isGuard (ch x)) xs) = [] := by
      cases xs with
      | nil => rfl
      | cons y ys =>
          rw [lineMarks, hguard, hbegins, Bool.true_and, if_pos rfl, kept_cons_true, kept_all_true]
    rw [subFrom_some hmatch, subFrom_of_length_le (by simp), hmarks]
    rfl
  · rename_i h
    rw [subFrom_none hmatch, hrest]
    cases hguard : isGuard (ch x) with
    | true => rfl
    | false =>
        rw [hguard, Bool.not_false, Bool.true_and, Bool.not_eq_true] at h
        rw [lineMarks_of_not_begins h false]

/-- Past the start of a line, what the third pass takes begins after a character that it keeps. -/
theorem subFrom_lineComment {line : List α} (hline : ∀ x ∈ line, ch x ≠ '\n') {before : List α}
    (hbefore : before ≠ []) :
    subFrom ch word lineComment (fun m => (m.group 1).getD []) before line 0
      = kept (lineMarks ch true line) := by
  induction line generalizing before with
  | nil => rfl
  | cons x xs ih =>
      have hxs : ∀ y ∈ xs, ch y ≠ '\n' := fun y hy => hline y (List.mem_cons_of_mem _ hy)
      have hstart : (before.isEmpty && begins ch '/' '/' (x :: xs)) = false := by
        rw [List.isEmpty_eq_false_iff.mpr hbefore, Bool.false_and]
      rw [subFrom_lineComment_cons hline hstart (ih hxs (List.cons_ne_nil _ _)), lineMarks]
      rfl

/-- **The third pass** keeps what its marks leave of a line. -/
theorem sub_lineComment {line : List α} (hline : ∀ x ∈ line, ch x ≠ '\n') :
    sub ch word lineComment (fun m => (m.group 1).getD []) line
      = kept (lineMarks ch false line) := by
  rw [sub_eq_subFrom]
  cases line with
  | nil => rfl
  | cons x xs =>
      have hxs : ∀ y ∈ xs, ch y ≠ '\n' := fun y hy => hline y (List.mem_cons_of_mem _ hy)
      rw [lineMarks]
      cases hbegins : begins ch '/' '/' (x :: xs) with
      | true =>
          have hmatch : matchAt ch word lineComment.re [] (x :: xs) = _ :=
            matchAt_lineComment hline []
          rw [hbegins, List.isEmpty_nil, Bool.and_self, if_pos rfl] at hmatch
          rw [subFrom_some hmatch, subFrom_of_length_le (by simp), Bool.not_false, Bool.and_self,
            if_pos rfl, kept_cons_true, kept_all_true]
          rfl
      | false =>
          have hstart : (([] : List α).isEmpty && begins ch '/' '/' (x :: xs)) = false := hbegins
          have hrest : subFrom ch word lineComment (fun m => (m.group 1).getD []) [x] xs 0 = _ :=
            subFrom_lineComment hxs (List.cons_ne_nil _ _)
          rw [subFrom_lineComment_cons hline hstart hrest,
            Bool.and_false, if_neg Bool.false_ne_true, kept_cons_false]

/-! ## The passes together -/

/-- **`strip_comments` line by line**: what the three readings leave. -/
theorem split_stripComments (ch : α → Char) (u : Unicode) {nl : α} (hnl : ch nl = '\n')
    (text : List α) :
    Lines.split ch (stripComments ch u nl text)
      = (Lines.split ch (unblocked ch text)).map fun line => kept (lineMarks ch false line) := by
  have hlines : (Lines.split ch (unblocked ch text)).map
        (sub ch u.word lineComment fun m => (m.group 1).getD [])
      = (Lines.split ch (unblocked ch text)).map fun line => kept (lineMarks ch false line) :=
    List.map_congr_left fun line hline =>
      sub_lineComment (Lines.not_newline_of_mem_split line hline)
  have hstrip : stripComments ch u nl text
      = Lines.join nl ((Lines.split ch (unblocked ch text)).map
          fun line => kept (lineMarks ch false line)) := by
    rw [stripComments, sub_shebang, sub_blockComment, ← hlines]
    rfl
  rw [hstrip, Lines.split_join hnl]
  · simp [Lines.split_ne_nil]
  · intro line hline x hx
    obtain ⟨line, hmem, rfl⟩ := List.mem_map.mp hline
    have hx := kept_subset hx
    rw [map_fst_lineMarks] at hx
    exact Lines.not_newline_of_mem_split line hmem x hx

theorem length_split_stripComments (ch : α → Char) (u : Unicode) {nl : α} (hnl : ch nl = '\n')
    (text : List α) :
    (Lines.split ch (stripComments ch u nl text)).length = (Lines.split ch text).length := by
  rw [split_stripComments ch u hnl, List.length_map, length_split_unblocked]

/-- Marks on the text make no difference to `strip_comments`. -/
theorem stripComments_map {β : Type} {ch' : β → Char} (u : Unicode) (nl : α) (f : α → β)
    (hf : ∀ x, ch' (f x) = ch x) (text : List α) :
    stripComments ch' u (f nl) (text.map f) = (stripComments ch u nl text).map f := by
  have hblank : ∀ m : Match α,
      blankKeepNewlines ch' (m.map f) = (blankKeepNewlines ch m).map f := by
    intro m
    simp [blankKeepNewlines, Match.map, List.filter_map, Function.comp_def, hf]
  have hgroup : ∀ m : Match α, ((m.map f).group 1).getD [] = ((m.group 1).getD []).map f := by
    intro m
    have hlookup : ∀ gs : List (Nat × List α),
        (gs.map fun g => (g.1, g.2.map f)).lookup 1 = (gs.lookup 1).map (List.map f) := by
      intro gs
      induction gs with
      | nil => rfl
      | cons g gs ih =>
          obtain ⟨n, xs⟩ := g
          rw [List.map_cons, List.lookup_cons, List.lookup_cons, ih]
          cases (1 : Nat) == n <;> rfl
    rw [Match.group, Match.map, hlookup, Match.group]
    cases m.groups.lookup 1 <;> rfl
  have hshebang : sub ch' u.word shebang (fun _ => []) (text.map f)
      = (sub ch u.word shebang (fun _ => []) text).map f := sub_map f hf shebang (fun _ => rfl) text
  have hline : ∀ line : List α,
      sub ch' u.word lineComment (fun m => (m.group 1).getD []) (line.map f)
        = (sub ch u.word lineComment (fun m => (m.group 1).getD []) line).map f :=
    sub_map f hf lineComment hgroup
  rw [stripComments, stripComments, hshebang, sub_map f hf blockComment hblank,
    Lines.split_map f hf, List.map_map, ← Lines.join_map, List.map_map]
  congr 2
  funext line
  exact hline line

/-- **No line is lost**, so `scan` never trips over its assertion. -/
theorem scan_eq (u : Unicode) (text : Text) :
    scan u text = .ok (scanLines u (Lines.split id text) (Lines.split id (strip u text))) := by
  have hlength : (Lines.split id (strip u text)).length = (Lines.split id text).length :=
    length_split_stripComments id u rfl text
  exact if_pos hlength

end MigrationPlatform.Analyzer
