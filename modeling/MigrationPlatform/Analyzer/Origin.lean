import Mathlib.Data.List.Forall2
import MigrationPlatform.Analyzer.Findings

/-!
# Where a finding comes from

`strip_comments` takes characters away and moves none: every cleaned line is what
is left of the line with its number. So what a rule or the step pattern matched in
a cleaned line stands, in order, in the source line that the finding shows.
-/

namespace MigrationPlatform.Analyzer

open Regex

section Sublists

variable {α : Type} {ch : α → Char}

theorem sublist_kept (marks : List (α × Bool)) : (kept marks).Sublist (marks.map Prod.fst) :=
  List.filter_sublist.map Prod.fst

/-- A character more in front of the first line. -/
theorem forall₂_consHead {lines lines' : List (List α)} (x : α)
    (h : List.Forall₂ List.Sublist lines lines') (hne : lines ≠ []) :
    List.Forall₂ List.Sublist lines (Lines.consHead x lines')
      ∧ List.Forall₂ List.Sublist (Lines.consHead x lines) (Lines.consHead x lines') := by
  cases h with
  | nil => exact absurd rfl hne
  | cons hline hlines => exact ⟨.cons (hline.cons x) hlines, .cons (hline.cons_cons x) hlines⟩

/-- **Marks that spare newlines leave a part of every line.** -/
theorem forall₂_split_kept {marks : List (α × Bool)} (h : Spares (ch · == '\n') marks) :
    List.Forall₂ List.Sublist (Lines.split ch (kept marks))
      (Lines.split ch (marks.map Prod.fst)) := by
  induction marks with
  | nil => exact .cons .slnil .nil
  | cons p marks ih =>
      obtain ⟨x, b⟩ := p
      have hlines := forall₂_consHead x (ih h.tail) (Lines.split_ne_nil _)
      have htaken : ch x = '\n' → b = false := by
        intro hx
        cases b with
        | false => rfl
        | true => exact absurd (h (x, true) List.mem_cons_self rfl) (by simp [hx])
      rw [List.map_cons, Lines.split]
      split
      · rename_i hx
        -- a newline is kept, so a line ends on both sides
        obtain rfl := htaken (by simpa using hx)
        rw [kept_cons_false, Lines.split, if_pos hx]
        exact .cons .slnil (ih h.tail)
      · rename_i hx
        cases b with
        | true => exact hlines.1
        | false =>
            rw [kept_cons_false, Lines.split, if_neg hx]
            exact hlines.2

/-- **Every cleaned line is a part of the line with its number.** -/
theorem forall₂_split_stripComments (ch : α → Char) (u : Unicode) {nl : α}
    (hnl : ch nl = '\n') (text : List α) :
    List.Forall₂ List.Sublist (Lines.split ch (stripComments ch u nl text))
      (Lines.split ch text) := by
  have hshebang := forall₂_split_kept (shebangMarks_newline .start text : Spares (ch · == '\n') _)
  rw [map_fst_shebangMarks] at hshebang
  have hblock := forall₂_split_kept
    (blockMarks_newline 0 (kept (shebangMarks ch .start text)) : Spares (ch · == '\n') _)
  rw [map_fst_blockMarks] at hblock
  have hline : List.Forall₂ List.Sublist (Lines.split ch (stripComments ch u nl text))
      (Lines.split ch (unblocked ch text)) := by
    rw [split_stripComments ch u hnl, List.forall₂_map_left_iff, List.forall₂_same]
    intro line _
    have hkept := sublist_kept (lineMarks ch false line)
    rwa [map_fst_lineMarks] at hkept
  have htrans : ∀ {xs ys zs : List (List α)}, List.Forall₂ List.Sublist xs ys →
      List.Forall₂ List.Sublist ys zs → List.Forall₂ List.Sublist xs zs := by
    intro xs ys zs hxy
    induction hxy generalizing zs with
    | nil => exact id
    | cons h _ ih =>
        intro hyz
        cases hyz with
        | cons h' hyz => exact .cons (h.trans h') (ih hyz)
  exact htrans hline (htrans hblock hshebang)

end Sublists

/--
What a finding was made from: its line is a line of the text, the snippet shows
it, and it holds, in order, what the finding's rule or the step pattern has
matched in what is left of it.
-/
def FoundIn (u : Unicode) (text : Text) (f : Finding) : Prop :=
  ∃ k line cleaned m, f.line = k + 1
    ∧ (Lines.split id text)[k]? = some line ∧ f.snippet = trim line
    ∧ (Lines.split id (strip u text))[k]? = some cleaned ∧ m.text.Sublist line
    ∧ ((∃ rule ∈ rules, rule.id = f.rule ∧ search id u.word rule.pattern cleaned = some m)
      ∨ (f.rule = "shared-library-step" ∧ m ∈ finditer id u.word stepCall cleaned
        ∧ m.group 1 = some f.detail))

/-- What is matched in a cleaned line stands in the line. -/
theorem sublist_of_mem_finditer (u : Unicode) {text : Text} {k : Nat} {cleaned : Text}
    (hcleaned : (Lines.split id (strip u text))[k]? = some cleaned) {p : Pattern} {m : Match Char}
    (hm : m ∈ finditer id u.word p cleaned) :
    ∃ line, (Lines.split id text)[k]? = some line ∧ m.text.Sublist line := by
  have hlines : List.Forall₂ List.Sublist (Lines.split id (strip u text)) (Lines.split id text) :=
    forall₂_split_stripComments id u rfl text
  obtain ⟨hk, rfl⟩ := List.getElem?_eq_some_iff.mp hcleaned
  have hk' : k < (Lines.split id text).length := hlines.length_eq ▸ hk
  exact ⟨_, List.getElem?_eq_getElem hk',
    (infix_of_mem_finditer hm).sublist.trans (hlines.get hk hk')⟩

theorem snippet_scanned (u : Unicode) {text line : Text} {k : Nat}
    (h : (Lines.split id text)[k]? = some line) : (scanned u text).snippet (k + 1) = trim line := by
  have hget : (Lines.split id text).getD k [] = line := by
    rw [List.getD_eq_getElem?_getD, h]
    rfl
  exact congrArg trim hget

/-- A called name is what the first group of a match has captured. -/
theorem match_of_mem_lineCalls {u : Unicode} {line name : Text} (h : name ∈ lineCalls u line) :
    ∃ m ∈ finditer id u.word stepCall line, m.group 1 = some name := by
  obtain ⟨m, hm, rfl⟩ := List.mem_map.mp h
  obtain ⟨captured, hgroup⟩ := Option.isSome_iff_exists.mp
    (group_of_mem_finditer (show stepCall.re.captures 1 = true from rfl) hm)
  exact ⟨m, hm, by rw [hgroup]; rfl⟩

theorem foundIn_of_mem (u : Unicode) (source : String) (text : Text) {f : Finding}
    (h : f ∈ (report u source (scanned u text)).findings) : FoundIn u text f := by
  rcases mem_findings.mp h with ⟨rule, hrule, hf⟩ | ⟨name, hname, rfl⟩
  · obtain ⟨k, cleaned, m, hcleaned, hm, _, rfl⟩ := mem_ruleFindings.mp hf
    obtain ⟨line, hline, hsub⟩ :=
      sublist_of_mem_finditer u hcleaned (List.mem_of_mem_head? hm)
    exact ⟨k, line, cleaned, m, rfl, hline, snippet_scanned u hline, hcleaned, hsub,
      .inl ⟨rule, hrule, rfl, hm⟩⟩
  · obtain ⟨k, cleaned, hk, hcleaned, hcalled, _⟩ :=
      libraryStepFinding_line (mem_librarySteps.mp hname).1
    obtain ⟨m, hm, hgroup⟩ := match_of_mem_lineCalls hcalled
    obtain ⟨line, hline, hsub⟩ := sublist_of_mem_finditer u hcleaned hm
    have hsnippet : (libraryStepFinding (scanned u text) name).snippet
        = (scanned u text).snippet (libraryStepFinding (scanned u text) name).line := rfl
    have hk : (libraryStepFinding (scanned u text) name).line = k + 1 := hk
    exact ⟨k, line, cleaned, m, hk, hline, by rw [hsnippet, hk, snippet_scanned u hline],
      hcleaned, hsub, .inr ⟨rfl, hm, hgroup⟩⟩

/--
**Comment stripping only deletes, and never shifts a line.** No line is lost, so
`scan` never trips over its assertion; every cleaned line is a part of the line
with its number; and every finding shows the line that it was made from.
-/
theorem strip_only_deletes (u : Unicode) (text : Text) :
    (Lines.split id (strip u text)).length = (Lines.split id text).length
    ∧ (∃ s, scan u text = .ok s)
    ∧ List.Forall₂ List.Sublist (Lines.split id (strip u text)) (Lines.split id text)
    ∧ ∀ source, ∃ r, analyzeText u text source = .ok r ∧ ∀ f ∈ r.findings, FoundIn u text f :=
  ⟨length_split_stripComments id u rfl text, ⟨_, scan_eq u text⟩,
    forall₂_split_stripComments id u rfl text,
    fun source => ⟨_, analyzeText_scanned u text source,
      fun _ hf => foundIn_of_mem u source text hf⟩⟩

end MigrationPlatform.Analyzer
