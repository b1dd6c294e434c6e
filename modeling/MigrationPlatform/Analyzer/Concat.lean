import Mathlib.Data.List.Infix
import MigrationPlatform.Analyzer.Findings

/-!
# One text after another

A text in which no comment is left open has no influence on what is read after it:
each pass of `strip_comments` takes of the two texts, one on lines behind the
other, what it takes of each of them alone. So the findings of a rule that reports
every line, and the step calls, are those of the first text and then those of the
second, moved down by the lines of the first.
-/

namespace MigrationPlatform.Analyzer

open Regex

/-- The characters behind the last match. -/
def unmatchedEnd {α : Type} : List (α ⊕ Match α) → List α
  | [] => []
  | .inl x :: ts => if ts.any Sum.isRight then unmatchedEnd ts else x :: unmatchedEnd ts
  | .inr _ :: ts => unmatchedEnd ts

/--
No comment is left open at the end of the text: when the lines that begin with `#!`
are blanked, the scan for block comments leaves no `/*` behind its last match.
-/
def ClosedAtEnd (u : Unicode) (text : Text) : Prop :=
  ¬ ['/', '*'] <:+: unmatchedEnd
    (tokens id u.word blockComment [] (sub id u.word shebang (fun _ => []) text) 0)

instance (u : Unicode) (text : Text) : Decidable (ClosedAtEnd u text) := by
  unfold ClosedAtEnd
  infer_instance

section Passes

variable {α : Type} {ch : α → Char} {nl : α}

theorem kept_append (marks marks' : List (α × Bool)) :
    kept (marks ++ marks') = kept marks ++ kept marks' := by
  simp [kept]

/-- No delimiter is made of the end of a text and a newline. -/
theorem begins_append (hnl : ch nl = '\n') {a b : Char} (hb : b ≠ '\n') (x : α) (xs ys : List α) :
    begins ch a b (x :: xs ++ nl :: ys) = begins ch a b (x :: xs) := by
  cases xs with
  | nil =>
      have hne : (ch nl == b) = false := beq_eq_false_iff_ne.mpr (hnl ▸ hb.symm)
      simp [begins, hne]
  | cons y xs => rfl

theorem begins_newline (hnl : ch nl = '\n') {a : Char} (ha : a ≠ '\n') (b : Char) (ys : List α) :
    begins ch a b (nl :: ys) = false := by
  have hne : (ch nl == a) = false := beq_eq_false_iff_ne.mpr (hnl ▸ ha.symm)
  cases ys <;> simp [begins, hne]

/-- The first pass starts a new line behind a newline. -/
theorem shebangMarks_append (hnl : ch nl = '\n') (mode : LineMode) (xs ys : List α) :
    shebangMarks ch mode (xs ++ nl :: ys)
      = shebangMarks ch mode xs ++ (nl, false) :: shebangMarks ch .start ys := by
  induction xs generalizing mode with
  | nil => simp [shebangMarks, hnl]
  | cons x xs ih =>
      have hbegins := begins_append hnl (a := '#') (b := '!') (by decide) x xs ys
      rw [List.cons_append] at hbegins ⊢
      cases mode <;> simp only [shebangMarks, hbegins, ih]
      · split
        · rfl
        · split <;> rfl
      · split <;> rfl
      · split <;> rfl

/-- Every block comment that is opened is closed. `skip` counts what is left of the last one. -/
def closes (ch : α → Char) : Nat → List α → Bool
  | _, [] => true
  | skip + 1, _ :: xs => closes ch skip xs
  | 0, x :: xs =>
      match blockLength ch (x :: xs) with
      | some n => closes ch (n - 1) xs
      | none => !begins ch '/' '*' (x :: xs) && closes ch 0 xs

theorem closing_append {xs : List α} {n : Nat} (h : closing ch xs = some n) (ys : List α) :
    closing ch (xs ++ ys) = some n := by
  induction xs generalizing n with
  | nil => cases h
  | cons x xs ih =>
      rw [closing] at h
      rw [List.cons_append, closing]
      split at h
      · rename_i hb
        obtain ⟨a, b, tail, hxs, ha, hb'⟩ := begins_iff.mp hb
        obtain ⟨rfl, rfl⟩ := List.cons.inj hxs
        have hstill : begins ch '*' '/' (x :: (b :: tail ++ ys)) = true :=
          begins_iff.mpr ⟨x, b, tail ++ ys, rfl, ha, hb'⟩
        rw [if_pos hstill, h]
      · rename_i hb
        obtain ⟨m, hm, rfl⟩ := Option.map_eq_some_iff.mp h
        have hbegins : begins ch '*' '/' (x :: (xs ++ ys)) = begins ch '*' '/' (x :: xs) := by
          cases xs with
          | nil => cases hm
          | cons y xs => rfl
        rw [hbegins, if_neg hb, ih hm]
        rfl

theorem blockLength_append {xs : List α} {n : Nat} (h : blockLength ch xs = some n)
    (ys : List α) : blockLength ch (xs ++ ys) = some n := by
  obtain ⟨hb, _, _⟩ := blockLength_spec h
  obtain ⟨a, b, tail, rfl, ha, hb'⟩ := begins_iff.mp hb
  rw [blockLength, if_pos hb] at h
  obtain ⟨m, hm, rfl⟩ := Option.map_eq_some_iff.mp h
  have hm : closing ch tail = some m := hm
  have hb : begins ch '/' '*' (a :: b :: tail ++ ys) = true :=
    begins_iff.mpr ⟨a, b, tail ++ ys, rfl, ha, hb'⟩
  have hdrop : (a :: b :: tail ++ ys).drop 2 = tail ++ ys := rfl
  rw [blockLength, if_pos hb, hdrop, closing_append hm]
  rfl

/-- The second pass starts afresh behind a text whose comments are closed. -/
theorem blockMarks_append (hnl : ch nl = '\n') {skip : Nat} {xs : List α} (hskip : skip ≤ xs.length)
    (h : closes ch skip xs = true) (ys : List α) :
    blockMarks ch skip (xs ++ nl :: ys)
      = blockMarks ch skip xs ++ (nl, false) :: blockMarks ch 0 ys := by
  induction xs generalizing skip with
  | nil =>
      obtain rfl : skip = 0 := Nat.le_zero.mp hskip
      have hnone : blockLength ch (nl :: ys) = none := by
        rw [blockLength, begins_newline hnl (by decide)]
        rfl
      have hfresh : blockMarks ch 0 (nl :: ys) = (nl, false) :: blockMarks ch 0 ys := by
        rw [blockMarks, hnone]
      exact hfresh
  | cons x xs ih =>
      cases skip with
      | succ skip =>
          rw [List.cons_append, blockMarks, blockMarks,
            ih (Nat.le_of_succ_le_succ hskip) h]
          rfl
      | zero =>
          rw [closes] at h
          rw [List.cons_append, blockMarks, blockMarks]
          cases hn : blockLength ch (x :: xs) with
          | some n =>
              -- the comment is closed in the first text
              have happend := blockLength_append hn (nl :: ys)
              rw [List.cons_append] at happend
              obtain ⟨_, h2, hle⟩ := blockLength_spec hn
              rw [List.length_cons] at hle
              rw [hn] at h
              rw [happend]
              exact congrArg ((x, true) :: ·) (ih (by omega) h)
          | none =>
              rw [hn] at h
              -- none begins here, also not with the newline behind
              obtain ⟨hbegins, h⟩ := Bool.and_eq_true_iff.mp h
              have hnone : blockLength ch (x :: (xs ++ nl :: ys)) = none := by
                have hb := begins_append hnl (a := '/') (b := '*') (by decide) x xs ys
                rw [List.cons_append] at hb
                rw [blockLength, hb,
                  show begins ch '/' '*' (x :: xs) = false by simpa using hbegins]
                rfl
              rw [hnone]
              exact congrArg ((x, false) :: ·) (ih (Nat.zero_le _) h)

/-! ## The condition -/

/-- Behind an open comment nothing is matched. -/
theorem tokens_of_closing {word : Char → Bool} {xs : List α} (h : closing ch xs = none)
    (before : List α) : tokens ch word blockComment before xs 0 = xs.map .inl := by
  induction xs generalizing before with
  | nil => rfl
  | cons x xs ih =>
      have hxs : closing ch xs = none := by
        rw [closing] at h
        split at h
        · cases h
        · simpa using h
      have hnone : blockLength ch (x :: xs) = none := by
        rw [blockLength]
        split
        · rename_i hb
          obtain ⟨a, b, tail, hab, _, _⟩ := begins_iff.mp hb
          obtain ⟨rfl, rfl⟩ := List.cons.inj hab
          have htail : closing ch tail = none := by
            rw [closing] at hxs
            split at hxs
            · cases hxs
            · simpa using hxs
          simp [htail]
        · rfl
      have hmatch : matchAt ch word blockComment.re before (x :: xs) = none := by
        rw [matchAt_blockComment, hnone]
        rfl
      rw [tokens, hmatch]
      exact congrArg (Sum.inl x :: ·) (ih hxs (x :: before))

theorem unmatchedEnd_inl (xs : List α) : unmatchedEnd (xs.map Sum.inl) = xs := by
  induction xs with
  | nil => rfl
  | cons x xs ih =>
      have hnone : (xs.map (Sum.inl (β := Match α))).any Sum.isRight = false := by simp
      rw [List.map_cons, unmatchedEnd, hnone, ih]
      rfl

/-- A comment that nothing closes stays unmatched, and so does all behind it. -/
theorem open_of_unmatchedEnd {word : Char → Bool} {before xs : List α} {x : α}
    (hn : blockLength ch (x :: xs) = none) (hbegins : begins ch '/' '*' (x :: xs) = true) :
    ['/', '*'] <:+: (unmatchedEnd
      (.inl x :: tokens ch word blockComment (x :: before) xs 0)).map ch := by
  have hclosing := hn
  rw [blockLength, if_pos hbegins] at hclosing
  obtain ⟨a, b, tail, hab, ha, hb⟩ := begins_iff.mp hbegins
  obtain ⟨rfl, rfl⟩ := List.cons.inj hab
  have htail : closing ch tail = none := by simpa using hclosing
  have hstar : matchAt ch word blockComment.re (x :: before) (b :: tail) = none := by
    have hb0 : begins ch '/' '*' (b :: tail) = false := by
      cases tail <;> simp [begins, hb]
    rw [matchAt_blockComment, blockLength, hb0]
    rfl
  have htokens : tokens ch word blockComment (x :: before) (b :: tail) 0
      = (b :: tail).map .inl := by
    rw [tokens, hstar, tokens_of_closing htail]
    rfl
  rw [htokens, ← List.map_cons, unmatchedEnd_inl]
  exact ⟨[], tail.map ch, by simp [ha, hb]⟩

/-- If no `/*` is left behind the last match, every comment is closed. -/
theorem closes_of_unmatchedEnd {word : Char → Bool} {before rest : List α} {skip : Nat}
    (h : ¬ ['/', '*'] <:+:
      (unmatchedEnd (tokens ch word blockComment before rest skip)).map ch) :
    closes ch skip rest = true := by
  induction rest generalizing before skip with
  | nil => cases skip <;> rfl
  | cons x xs ih =>
      cases skip with
      | succ skip => exact ih h
      | zero =>
          rw [tokens, matchAt_blockComment] at h
          rw [closes]
          cases hn : blockLength ch (x :: xs) with
          | some n =>
              obtain ⟨_, h2, hle⟩ := blockLength_spec hn
              have hlength : ((x :: xs).take n).length = n := by
                rw [List.length_take]
                omega
              rw [hn] at h
              simp only [Option.map_some, unmatchedEnd, hlength] at h
              exact ih h
          | none =>
              rw [hn, Option.map_none] at h
              have hopen : begins ch '/' '*' (x :: xs) = false := by
                by_contra hbegins
                exact h (open_of_unmatchedEnd hn (Bool.not_eq_false _ ▸ hbegins))
              rw [hopen, Bool.not_false, Bool.true_and]
              simp only [unmatchedEnd] at h
              refine @ih (x :: before) 0 fun hin => h ?_
              split
              · exact hin
              · exact hin.trans (List.suffix_cons (ch x) _).isInfix

/-- Both passes over the whole text take of two texts what they take of each. -/
theorem unblocked_append (ch : α → Char) (hnl : ch nl = '\n') {xs : List α}
    (h : closes ch 0 (kept (shebangMarks ch .start xs)) = true) (ys : List α) :
    unblocked ch (xs ++ nl :: ys) = unblocked ch xs ++ nl :: unblocked ch ys := by
  rw [unblocked, shebangMarks_append hnl, kept_append, kept_cons_false,
    blockMarks_append hnl (Nat.zero_le _) h, kept_append, kept_cons_false]
  rfl

end Passes

/-- **Stripping is local**: two texts one after the other are stripped one after the other. -/
theorem strip_append (u : Unicode) {a : Text} (h : ClosedAtEnd u a) (b : Text) :
    strip u (a ++ '\n' :: b) = strip u a ++ '\n' :: strip u b := by
  have hpasses : ∀ text : Text, strip u text = Lines.join '\n'
      ((Lines.split id (unblocked id text)).map
        (sub id u.word lineComment fun m => (m.group 1).getD [])) := by
    intro text
    rw [strip, stripComments, sub_shebang, sub_blockComment]
    rfl
  have hcloses : closes id 0 (kept (shebangMarks id .start a)) = true := by
    rw [ClosedAtEnd, sub_shebang] at h
    exact closes_of_unmatchedEnd (by rwa [List.map_id])
  rw [hpasses, hpasses, hpasses, unblocked_append id (show id '\n' = '\n' from rfl) hcloses,
    Lines.split_append_newline id (show id '\n' = '\n' from rfl), List.map_append,
    Lines.join_append]
  · simp [Lines.split_ne_nil]
  · simp [Lines.split_ne_nil]

/-! ## Findings -/

/-- The finding, so many lines further down. -/
def Finding.shift (n : Nat) (f : Finding) : Finding := { f with line := f.line + n }

/-- The findings of a rule. -/
def Report.findingsOf (r : Report) (rule : String) : List Finding :=
  r.findings.filter fun f => f.rule == rule

theorem searchLines_append (u : Unicode) (p : Pattern) (lines lines' : List Text) (i : Nat) :
    searchLines u p i (lines ++ lines')
      = searchLines u p i lines ++ searchLines u p (i + lines.length) lines' := by
  induction lines generalizing i with
  | nil => rfl
  | cons line lines ih =>
      have hi : i + (line :: lines).length = i + 1 + lines.length := by
        rw [List.length_cons]
        omega
      rw [List.cons_append, searchLines, searchLines, ih, hi]
      split <;> rfl

theorem searchLines_shift (u : Unicode) (p : Pattern) (lines : List Text) (i n : Nat) :
    searchLines u p (i + n) lines
      = (searchLines u p i lines).map fun found => (found.1 + n, found.2) := by
  induction lines generalizing i with
  | nil => rfl
  | cons line lines ih =>
      have hi : i + n + 1 = i + 1 + n := by omega
      rw [searchLines, searchLines, hi, ih]
      split <;> rfl

theorem callLines_append (u : Unicode) (name : Text) (lines lines' : List Text) (i : Nat) :
    callLines u name i (lines ++ lines')
      = callLines u name i lines ++ callLines u name (i + lines.length) lines' := by
  induction lines generalizing i with
  | nil => rfl
  | cons line lines ih =>
      have hi : i + (line :: lines).length = i + 1 + lines.length := by
        rw [List.length_cons]
        omega
      rw [List.cons_append, callLines, callLines, ih, hi, List.append_assoc]

theorem callLines_shift (u : Unicode) (name : Text) (lines : List Text) (i n : Nat) :
    callLines u name (i + n) lines = (callLines u name i lines).map (· + n) := by
  induction lines generalizing i with
  | nil => rfl
  | cons line lines ih =>
      have hi : i + n + 1 = i + 1 + n := by omega
      rw [callLines, callLines, hi, ih, List.map_append, List.map_replicate]

section Append

variable {u : Unicode} {a b : Text}

theorem lines_scanned (text : Text) :
    (scanned u text).lines.length = (Lines.split id text).length :=
  length_split_stripComments id u rfl text

theorem lines_append (h : ClosedAtEnd u a) :
    (scanned u (a ++ '\n' :: b)).lines = (scanned u a).lines ++ (scanned u b).lines := by
  have hlines : ∀ text, (scanned u text).lines = Lines.split id (strip u text) := fun _ => rfl
  rw [hlines, strip_append u h, Lines.split_append_newline id (show id '\n' = '\n' from rfl)]
  rfl

theorem originalLines_append :
    (scanned u (a ++ '\n' :: b)).originalLines
      = (scanned u a).originalLines ++ (scanned u b).originalLines :=
  Lines.split_append_newline id (show id '\n' = '\n' from rfl) a b

/-- A line of the first text shows the same snippet. -/
theorem snippet_append_left {k : Nat} (hk : k < (Lines.split id a).length) :
    (scanned u (a ++ '\n' :: b)).snippet (1 + k) = (scanned u a).snippet (1 + k) := by
  have hk : k < (scanned u a).originalLines.length := hk
  rw [Scanned.snippet, Scanned.snippet, originalLines_append, Nat.add_sub_cancel_left,
    List.getD_eq_getElem?_getD, List.getElem?_append_left hk, ← List.getD_eq_getElem?_getD]

/-- A line of the second text shows it further down. -/
theorem snippet_append_right (k : Nat) :
    (scanned u (a ++ '\n' :: b)).snippet (1 + k + (Lines.split id a).length)
      = (scanned u b).snippet (1 + k) := by
  have hindex : 1 + k + (Lines.split id a).length - 1 = (Lines.split id a).length + k := by
    omega
  have hright : ((scanned u a).originalLines ++ (scanned u b).originalLines)[
      (Lines.split id a).length + k]? = (scanned u b).originalLines[k]? :=
    (List.getElem?_append_right (Nat.le_add_right _ _)).trans
      (congrArg _ (Nat.add_sub_cancel_left (Lines.split id a).length k))
  rw [Scanned.snippet, Scanned.snippet, originalLines_append, hindex, Nat.add_sub_cancel_left,
    List.getD_eq_getElem?_getD, hright, ← List.getD_eq_getElem?_getD]

/-- A rule that reports every line makes its findings in the first text, then in the second. -/
theorem ruleFindings_append (h : ClosedAtEnd u a) {rule : Rule} (honce : rule.once = false) :
    ruleFindings u (scanned u (a ++ '\n' :: b)) rule
      = ruleFindings u (scanned u a) rule
        ++ (ruleFindings u (scanned u b) rule).map
          (Finding.shift (Lines.split id a).length) := by
  have hlength := lines_scanned (u := u) a
  have hfirst : ∀ found ∈ searchLines u rule.pattern 1 (scanned u a).lines,
      ruleFinding (scanned u (a ++ '\n' :: b)) rule found.1 found.2
        = ruleFinding (scanned u a) rule found.1 found.2 := by
    rintro ⟨j, m⟩ hj
    obtain ⟨k, line, rfl, hline, _⟩ := mem_searchLines.mp hj
    obtain ⟨hk, _⟩ := List.getElem?_eq_some_iff.mp hline
    rw [ruleFinding, snippet_append_left (hlength ▸ hk)]
    rfl
  have hsecond : ∀ found ∈ searchLines u rule.pattern 1 (scanned u b).lines,
      ruleFinding (scanned u (a ++ '\n' :: b)) rule (found.1 + (Lines.split id a).length) found.2
        = (ruleFinding (scanned u b) rule found.1 found.2).shift (Lines.split id a).length := by
    rintro ⟨j, m⟩ hj
    obtain ⟨k, line, rfl, hline, _⟩ := mem_searchLines.mp hj
    rw [ruleFinding, snippet_append_right]
    rfl
  have hall : ∀ text, ruleFindings u (scanned u text) rule
      = (searchLines u rule.pattern 1 (scanned u text).lines).map
        fun found => ruleFinding (scanned u text) rule found.1 found.2 := by
    intro text
    rw [ruleFindings, honce]
    rfl
  rw [hall, hall, hall, lines_append h, searchLines_append, searchLines_shift, List.map_append,
    List.map_map, List.map_map, hlength, List.map_congr_left hfirst]
  exact congrArg _ (List.map_congr_left hsecond)

theorem linesCalled_append (h : ClosedAtEnd u a) (name : Text) :
    linesCalled (scanned u (a ++ '\n' :: b)).stepCalls name
      = linesCalled (scanned u a).stepCalls name
        ++ (linesCalled (scanned u b).stepCalls name).map (· + (Lines.split id a).length) := by
  have hlines : ∀ text, linesCalled (scanned u text).stepCalls name
      = callLines u name 1 (scanned u text).lines := fun _ => linesCalled_scanLines u _ _ name
  rw [hlines, hlines, hlines, lines_append h, callLines_append, callLines_shift, lines_scanned]

end Append

/-! ## Locality -/

/--
**Analysis is local.** If no comment is left open at the end of the first text, a
text behind it is stripped as it is alone; a rule that reports every line makes the
findings of the first text and then those of the second, moved down by the lines of
the first; and the step calls come together in the same way.
-/
theorem analysis_local (u : Unicode) (source : String) {a : Text} (h : ClosedAtEnd u a)
    (b : Text) :
    strip u (a ++ '\n' :: b) = strip u a ++ '\n' :: strip u b
    ∧ (∃ r ra rb, analyzeText u (a ++ '\n' :: b) source = .ok r
      ∧ analyzeText u a source = .ok ra ∧ analyzeText u b source = .ok rb
      ∧ ∀ rule ∈ rules, rule.once = false → r.findingsOf rule.id
        = ra.findingsOf rule.id
          ++ (rb.findingsOf rule.id).map (Finding.shift (Lines.split id a).length))
    ∧ ∃ s sa sb, scan u (a ++ '\n' :: b) = .ok s ∧ scan u a = .ok sa ∧ scan u b = .ok sb
      ∧ ∀ name, linesCalled s.stepCalls name
        = linesCalled sa.stepCalls name
          ++ (linesCalled sb.stepCalls name).map (· + (Lines.split id a).length) := by
  refine ⟨strip_append u h b, ⟨_, _, _, analyzeText_scanned u _ source,
    analyzeText_scanned u a source, analyzeText_scanned u b source, fun rule hrule honce => ?_⟩,
    ⟨_, _, _, scan_eq u _, scan_eq u a, scan_eq u b, linesCalled_append h⟩⟩
  have hfindings : ∀ text, (report u source (scanned u text)).findingsOf rule.id
      = ruleFindings u (scanned u text) rule := fun text =>
    filter_findings u source (scanned u text) (filter_rules hrule) (rule_id_ne hrule)
  rw [hfindings, hfindings, hfindings, ruleFindings_append h honce]

theorem analysis_local_twoStages :
    strip asciiOnly ("stage('A') /* one */".toList ++ '\n' :: "// two\nstage('B')".toList)
      = strip asciiOnly "stage('A') /* one */".toList
        ++ '\n' :: strip asciiOnly "// two\nstage('B')".toList :=
  (analysis_local asciiOnly "<stdin>" (by decide) _).1

end MigrationPlatform.Analyzer
