import Mathlib.Data.Char
import Mathlib.Data.List.Lex
import Mathlib.Data.Prod.Lex
import MigrationPlatform.Analyzer.LocalDefs

/-!
# The finding list

The findings of a report are exactly those that the rules and the library steps
call for, none twice, in the strict order of line, rule and detail. The sort looks
at line and rule only. What has both in common is made by the library steps, in
the order of their names, and the sort is stable.
-/

namespace MigrationPlatform.Analyzer

open Regex

/-! ## The order of strings -/

/-- The order of Python strings is the lexicographic one. -/
theorem textLe_iff {a b : Text} : textLe a b = true ↔ a ≤ b := by
  induction a generalizing b with
  | nil => exact iff_of_true rfl (not_lt.mp (List.not_lt_nil b))
  | cons x xs ih =>
      cases b with
      | nil => simp [textLe]
      | cons y ys =>
          have hlt : x.toNat < y.toNat ↔ x < y := Iff.rfl
          rw [textLe, ← not_lt, List.cons_lt_cons_iff, Bool.or_eq_true, Bool.and_eq_true,
            decide_eq_true_eq, beq_iff_eq, hlt, ih, ← not_lt]
          constructor
          · rintro (h | ⟨hxy, h⟩) (h' | ⟨hyx, h'⟩)
            · exact lt_asymm h h'
            · exact lt_irrefl x (hyx ▸ h)
            · exact lt_irrefl x (hxy ▸ h')
            · exact h h'
          · intro h
            rcases lt_trichotomy x y with hxy | rfl | hxy
            · exact .inl hxy
            · exact .inr ⟨rfl, fun h' => h (.inr ⟨rfl, h'⟩)⟩
            · exact absurd (.inl hxy) h

/-- The sort key of a finding. -/
def Finding.key (f : Finding) : Lex (Nat × Text) := toLex (f.line, f.rule.toList)

theorem Finding.le_iff {f g : Finding} : f.le g = true ↔ f.key ≤ g.key := by
  rw [Finding.key, Finding.key, Prod.Lex.toLex_le_toLex, Finding.le, Bool.or_eq_true,
    Bool.and_eq_true, decide_eq_true_eq, beq_iff_eq, textLe_iff]

/-- A finding stands before another: by line, then by rule, then by detail. -/
def Finding.Before (f g : Finding) : Prop :=
  f.line < g.line ∨ f.line = g.line
    ∧ (f.rule.toList < g.rule.toList ∨ f.rule = g.rule ∧ f.detail < g.detail)

/-! ## The order of findings -/

/-- The report is in the order of the keys. -/
theorem pairwise_findings (u : Unicode) (source : String) (s : Scanned) :
    (report u source s).findings.Pairwise fun f g => f.key ≤ g.key := by
  have htotal : Std.Total fun f g : Finding => f.le g = true :=
    ⟨fun f g => by simpa only [Finding.le_iff] using le_total f.key g.key⟩
  have htrans : IsTrans Finding fun f g => f.le g = true :=
    ⟨fun f g h hfg hgh => Finding.le_iff.mpr
      (le_trans (Finding.le_iff.mp hfg) (Finding.le_iff.mp hgh))⟩
  have hsorted := List.pairwise_insertionSort (fun f g : Finding => f.le g = true)
    (collectFindings u s)
  exact hsorted.imp fun h => Finding.le_iff.mp h

/-- The shared-library steps are in strict order. -/
theorem pairwise_librarySteps {s : Scanned} (h : CallTable s.stepCalls) :
    (librarySteps s).Pairwise (· < ·) := by
  have htotal : Std.Total fun a b : Text => textLe a b = true :=
    ⟨fun a b => by simpa only [textLe_iff] using le_total a b⟩
  have htrans : IsTrans Text fun a b => textLe a b = true :=
    ⟨fun a b c hab hbc => textLe_iff.mpr (le_trans (textLe_iff.mp hab) (textLe_iff.mp hbc))⟩
  have hsorted := List.pairwise_insertionSort (fun a b : Text => textLe a b = true)
    ((s.stepCalls.map Prod.fst).filter (isLibraryStep s))
  have hnodup : (librarySteps s).Nodup :=
    (List.perm_insertionSort _ _).nodup_iff.mpr (h.nodup.filter _)
  exact (hsorted.and hnodup).imp fun h => lt_of_le_of_ne (textLe_iff.mp h.1) h.2

/-- Findings with one rule are made line after line, or name after name. -/
theorem pairwise_collectFindings {u : Unicode} {s : Scanned} (h : CallTable s.stepCalls)
    {f : Finding} (hf : f ∈ collectFindings u s) :
    ((collectFindings u s).filter fun g => g.rule == f.rule).Pairwise
      fun f g => f.line < g.line ∨ f.detail < g.detail := by
  rw [collectFindings] at hf
  rcases List.mem_append.mp hf with hf | hf
  · obtain ⟨rule, hrule, hf⟩ := List.mem_flatMap.mp hf
    obtain ⟨k, _, m, _, _, _, rfl⟩ := mem_ruleFindings.mp hf
    have hlines := (searchLines_lt u rule.pattern s.lines 1).1
    have hid : (ruleFinding s rule (k + 1) m).rule = rule.id := rfl
    rw [hid, filter_collectFindings u s (filter_rules hrule) (rule_id_ne hrule), ruleFindings,
      List.pairwise_map]
    split
    · exact (hlines.sublist (List.take_sublist 1 _)).imp .inl
    · exact hlines.imp .inl
  · obtain ⟨name, hname, rfl⟩ := List.mem_map.mp hf
    have hid : (libraryStepFinding s name).rule = "shared-library-step" := rfl
    rw [hid, filter_collectFindings_steps, List.pairwise_map]
    exact (pairwise_librarySteps h).imp .inr

/-- What has line and rule in common keeps the order in which it was made. -/
theorem filter_findings_key (u : Unicode) (source : String) (s : Scanned) {p : Finding → Bool}
    (hp : ∀ f g, p f = true → p g = true → f.key = g.key) :
    (report u source s).findings.filter p = (collectFindings u s).filter p := by
  have hfindings : (report u source s).findings
      = (collectFindings u s).insertionSort fun f g => f.le g = true := rfl
  rw [hfindings]
  refine filter_insertionSort (List.pairwise_of_forall_mem_list fun f hf g hg => ?_)
  have hkey := hp f g (List.mem_filter.mp hf).2 (List.mem_filter.mp hg).2
  exact Finding.le_iff.mpr (le_of_eq hkey)

/-- Two findings with one line and one rule were made one after the other. -/
theorem detail_lt {u : Unicode} {source : String} {s : Scanned} (h : CallTable s.stepCalls)
    {f g : Finding} (hsub : [f, g].Sublist (report u source s).findings)
    (hline : f.line = g.line) (hrule : f.rule = g.rule) : f.detail < g.detail := by
  have hsame := filter_findings_key u source s
    (p := fun f' => f'.line == g.line && f'.rule == g.rule) (by
      intro f' g' hf' hg'
      obtain ⟨hf₁, hf₂⟩ : f'.line = g.line ∧ f'.rule = g.rule := by simpa using hf'
      obtain ⟨hg₁, hg₂⟩ : g'.line = g.line ∧ g'.rule = g.rule := by simpa using hg'
      rw [Finding.key, Finding.key, hf₁, hf₂, hg₁, hg₂])
  have hpair := hsub.filter fun f' => f'.line == g.line && f'.rule == g.rule
  simp only [List.filter_cons, hrule, hline, beq_self_eq_true, Bool.and_self, if_true,
    List.filter_nil] at hpair
  rw [hsame, ← List.filter_filter] at hpair
  have hpair := hpair.trans List.filter_sublist
  have hmem : g ∈ collectFindings u s :=
    List.mem_of_mem_filter (hpair.subset (List.mem_cons_of_mem _ List.mem_cons_self))
  have hmade := List.pairwise_iff_forall_sublist.mp (pairwise_collectFindings h hmem) hpair
  exact hmade.resolve_left (by omega)

/-- **The findings are in strict order** of line, rule and detail. -/
theorem pairwise_before (u : Unicode) (source : String) {s : Scanned} (h : CallTable s.stepCalls) :
    (report u source s).findings.Pairwise Finding.Before := by
  refine List.pairwise_iff_forall_sublist.mpr fun {f g} hsub => ?_
  have hle := List.pairwise_iff_forall_sublist.mp (pairwise_findings u source s) hsub
  rcases Prod.Lex.toLex_le_toLex.mp hle with hlt | ⟨hline, hrule⟩
  · exact .inl hlt
  · rcases lt_or_eq_of_le hrule with hlt | hrule
    · exact .inr ⟨hline, .inl hlt⟩
    · have hrule : f.rule = g.rule := String.toList_inj.mp hrule
      exact .inr ⟨hline, .inr ⟨hrule, detail_lt h hsub hline hrule⟩⟩

/-! ## What the list holds -/

/--
The finding of a rule of the table: for a line of the cleaned text in which its
pattern occurs, with nothing found above it if the rule reports only the first line.
-/
def RuleFinds (u : Unicode) (text : Text) (rule : Rule) (f : Finding) : Prop :=
  ∃ k line m, (Lines.split id (strip u text))[k]? = some line
    ∧ search id u.word rule.pattern line = some m
    ∧ (rule.once = true → ∀ j < k, ∀ line', (Lines.split id (strip u text))[j]? = some line' →
        search id u.word rule.pattern line' = none)
    ∧ f = { rule := rule.id
            category := rule.category
            line := k + 1
            snippet := trim ((Lines.split id text).getD k [])
            title := rule.title
            actionsEquivalent := rule.actionsEquivalent
            note := rule.note
            detail := (m.group 1).getD [] }

/--
The finding of a shared-library step: for a name that a line of the cleaned text calls
as a step, that is no known step, is not defined in the file and does not start with
an upper-case letter, on the first line that calls it.
-/
def StepFinds (u : Unicode) (text : Text) (name : Text) (f : Finding) : Prop :=
  name ∉ knownSteps.map String.toList ∧ name ∉ introduced u.word [] (strip u text)
    ∧ (name.headD ' ').isUpper = false
    ∧ ∃ k line, (Lines.split id (strip u text))[k]? = some line ∧ name ∈ calledNames line
      ∧ (∀ j < k, ∀ line', (Lines.split id (strip u text))[j]? = some line' →
          name ∉ calledNames line')
      ∧ f = { rule := "shared-library-step"
              category := .manual
              line := k + 1
              snippet := trim ((Lines.split id text).getD k [])
              title := "Shared-library step `" ++ String.ofList name ++ "`"
              actionsEquivalent :=
                "A composite action `.github/actions/" ++ String.ofList (kebab name) ++ "`."
              note := "Called " ++ toString (timesCalled u text name) ++ " time(s)."
              detail := name }

theorem ruleFinds_iff {u : Unicode} {text : Text} {rule : Rule} {f : Finding} :
    f ∈ ruleFindings u (scanned u text) rule ↔ RuleFinds u text rule f :=
  mem_ruleFindings

theorem stepFinds_iff {u : Unicode} {text : Text} {f : Finding} :
    (∃ name ∈ librarySteps (scanned u text), f = libraryStepFinding (scanned u text) name)
      ↔ ∃ name, StepFinds u text name f := by
  have hfinding : ∀ name k, (libraryStepFinding (scanned u text) name).line = k + 1 →
      libraryStepFinding (scanned u text) name
        = { rule := "shared-library-step"
            category := .manual
            line := k + 1
            snippet := trim ((Lines.split id text).getD k [])
            title := "Shared-library step `" ++ String.ofList name ++ "`"
            actionsEquivalent :=
              "A composite action `.github/actions/" ++ String.ofList (kebab name) ++ "`."
            note := "Called " ++ toString (timesCalled u text name) ++ " time(s)."
            detail := name } := by
    intro name k hk
    have hcalls : (((scanned u text).stepCalls.lookup name).getD []).headD 0 = k + 1 := hk
    rw [← libraryStepFinding_note, libraryStepFinding, hcalls]
    rfl
  constructor
  · rintro ⟨name, hname, rfl⟩
    obtain ⟨hcalled, hstep⟩ := mem_librarySteps.mp hname
    obtain ⟨hknown, hlocal, hupper⟩ := isLibraryStep_iff.mp hstep
    obtain ⟨k, line, hk, hline, hcall, hfirst⟩ := libraryStepFinding_line hcalled
    simp only [lineCalls_eq] at hcall hfirst
    exact ⟨name, hknown, mt mem_localDefs.mpr hlocal, hupper, k, line, hline, hcall, hfirst,
      hfinding name k hk⟩
  · rintro ⟨name, hknown, hlocal, hupper, k, line, hline, hcall, hfirst, rfl⟩
    have hcalled : name ∈ (scanned u text).stepCalls.map Prod.fst :=
      mem_stepCalls.mpr ⟨line, List.mem_of_getElem? hline, hcall⟩
    have hstep := isLibraryStep_iff.mpr ⟨hknown, mt mem_localDefs.mp hlocal, hupper⟩
    refine ⟨name, mem_librarySteps.mpr ⟨hcalled, hstep⟩, (hfinding name k ?_).symm⟩
    -- there is only one first line
    obtain ⟨k', line', hk', hline', hcall', hfirst'⟩ := libraryStepFinding_line hcalled
    simp only [lineCalls_eq] at hcall' hfirst'
    rcases Nat.lt_trichotomy k k' with hlt | rfl | hlt
    · exact absurd hcall (hfirst' k hlt line hline)
    · exact hk'
    · exact absurd hcall' (hfirst k' hlt line' hline')

/--
**The finding list is complete, free of duplicates and totally ordered.** Its
findings increase strictly in line, rule and detail, and they are exactly those
that the rules of the table find in the lines of the cleaned text and those of the
shared-library steps that these lines call.
-/
theorem findings_complete (u : Unicode) (source : String) (text : Text) :
    ∃ r, analyzeText u text source = .ok r
      ∧ r.findings.Pairwise Finding.Before
      ∧ ∀ f, f ∈ r.findings
        ↔ (∃ rule ∈ rules, RuleFinds u text rule f) ∨ ∃ name, StepFinds u text name f := by
  refine ⟨_, analyzeText_scanned u text source,
    pairwise_before u source (callTable_scanLines u _ _), fun f => ?_⟩
  rw [mem_findings, stepFinds_iff]
  simp only [ruleFinds_iff]

end MigrationPlatform.Analyzer
