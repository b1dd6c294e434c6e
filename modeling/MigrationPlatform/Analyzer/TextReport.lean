import MigrationPlatform.Analyzer.ActionNames
import MigrationPlatform.Analyzer.ReportJson

/-!
# The report as plain text

`to_text` of `report.py`: a header, and a line for each finding, in columns. The
columns are only padded, never cut, so what keeps a line readable is what stands in
it: no rule has a blank in its name, and nothing that a finding shows holds a
newline. The detail of a finding is what a group has captured on one line.
-/

namespace MigrationPlatform.Analyzer

open Regex

/-- `f"{t:<n}"`. -/
def ljust (n : Nat) (t : Text) : Text := t ++ List.replicate (n - t.length) ' '

/-- The title of a finding, with its detail. -/
def Finding.headline (f : Finding) : Text :=
  if f.detail.isEmpty then f.title.toList else f.title.toList ++ ": ".toList ++ f.detail

/-- The line of a finding. -/
def textRow (f : Finding) : Text :=
  'L' :: ljust 4 (toString f.line).toList ++ ' ' :: (ljust 6 f.category.value.toList
    ++ ' ' :: (ljust 22 f.rule.toList ++ ' ' :: f.headline))

/-- The `summary` of a report as Python shows it. -/
def summaryText (r : Report) : Text :=
  '\x7b' :: List.intercalate ", ".toList (categories.map fun c =>
    "'".toList ++ c.value.toList ++ "': ".toList ++ (toString (r.count c)).toList) ++ ['\x7d']

/-- The first line of the text report. -/
def textHeader (r : Report) : Text :=
  r.source.toList ++ ": ".toList ++ (toString r.findings.length).toList ++ " findings ".toList
    ++ summaryText r

/-- `to_text`. -/
def toText (r : Report) : Text :=
  Lines.join '\n' (textHeader r :: r.findings.map textRow) ++ ['\n']

/-! ## Reading the lines -/

/-- What a line of the text report says. -/
structure TextRow where
  line : Nat
  category : Category
  rule : Text
  headline : Text
deriving DecidableEq

/-- A column, and what comes behind it and its padding. -/
def readColumn (t : Text) : Text × Text :=
  (t.takeWhile (· != ' '), (t.dropWhile (· != ' ')).dropWhile (· == ' '))

/-- A line of the text report, read back. -/
def readRow : Text → Option TextRow
  | 'L' :: t =>
      let (line, t) := readColumn t
      let (category, t) := readColumn t
      let (rule, headline) := readColumn t
      (categories.find? fun c => c.value.toList == category).map fun c =>
        ⟨JsonText.digits line, c, rule, headline⟩
  | _ => none

/-- What can stand in a column: one word. -/
def isColumn (t : Text) : Bool := !t.isEmpty && t.all fun c => c != ' ' && c != '\n'

section Columns

variable {t : Text} (h : isColumn t = true)
include h

theorem column_ne_nil : t ≠ [] := by
  have hne := (Bool.and_eq_true_iff.mp h).1
  simpa using hne

theorem column_chars : ∀ c ∈ t, c ≠ ' ' ∧ c ≠ '\n' := by
  intro c hc
  have hc := List.all_eq_true.mp (Bool.and_eq_true_iff.mp h).2 c hc
  simpa using hc

theorem readColumn_ljust (n : Nat) {rest : Text} (hrest : rest.head? ≠ some ' ') :
    readColumn (ljust n t ++ ' ' :: rest) = (t, rest) := by
  have hnot : ∀ c ∈ t, (c != ' ') = true := fun c hc => bne_iff_ne.mpr (column_chars h c hc).1
  have hpadding : ljust n t ++ ' ' :: rest
      = t ++ (List.replicate (n - t.length + 1) ' ' ++ rest) := by
    rw [ljust, List.append_assoc, List.replicate_succ', List.append_assoc]
    rfl
  have hstop : rest.dropWhile (· == ' ') = rest := by
    cases rest with
    | nil => rfl
    | cons c rest =>
        exact List.dropWhile_cons_of_neg fun h => hrest (congrArg some (beq_iff_eq.mp h))
  unfold readColumn
  rw [hpadding, List.takeWhile_append_of_pos hnot, List.dropWhile_append_of_pos hnot]
  refine Prod.ext ?_ ?_
  · rw [List.replicate_succ, List.cons_append, List.takeWhile_cons_of_neg (by decide),
      List.append_nil]
  · rw [List.replicate_succ, List.cons_append, List.dropWhile_cons_of_neg (by decide),
      ← List.cons_append, ← List.replicate_succ,
      List.dropWhile_append_of_pos (by simp), hstop]

/-- A column does not begin with a blank. -/
theorem head?_ljust (n : Nat) (rest : Text) : (ljust n t ++ rest).head? ≠ some ' ' := by
  rw [ljust, List.append_assoc, List.head?_append_of_ne_nil _ (column_ne_nil h)]
  intro hhead
  exact (column_chars h ' ' (List.mem_of_mem_head? hhead)).1 rfl

theorem not_newline_ljust (n : Nat) : ∀ c ∈ ljust n t, c ≠ '\n' := by
  intro c hc
  rcases List.mem_append.mp hc with hc | hc
  · exact (column_chars h c hc).2
  · rw [List.eq_of_mem_replicate hc]
    decide

end Columns

theorem isColumn_category (c : Category) : isColumn c.value.toList = true := by
  cases c <;> rfl

theorem isColumn_toString (n : Nat) : isColumn (toString n).toList = true := by
  have hdigits : (toString n).toList = Nat.toDigits 10 n := by
    simp [toString, Nat.repr]
  have hchars : ∀ c ∈ Nat.toDigits 10 n, (c != ' ' && c != '\n') = true := by
    intro c hc
    have hc := Nat.isDigit_of_mem_toDigits (by omega) (by omega) hc
    by_cases hblank : c = ' '
    · rw [hblank] at hc
      cases hc
    · by_cases hnewline : c = '\n'
      · rw [hnewline] at hc
        cases hc
      · simp [hblank, hnewline]
  have hne : (Nat.toDigits 10 n).isEmpty = false :=
    List.isEmpty_eq_false_iff.mpr Nat.toDigits_ne_nil
  unfold isColumn
  rw [hdigits, hne, List.all_eq_true.mpr hchars]
  rfl

theorem find_category (c : Category) :
    (categories.find? fun c' => c'.value.toList == c.value.toList) = some c := by
  cases c <;> decide

/-! ## Texts without a newline -/

theorem all_ne_newline {t : Text} : t.all (· != '\n') = true ↔ ∀ c ∈ t, c ≠ '\n' := by
  simp only [List.all_eq_true, bne_iff_ne]

theorem toString_ne_newline (n : Nat) : (toString n).toList.all (· != '\n') = true :=
  all_ne_newline.mpr fun c hc => (column_chars (isColumn_toString n) c hc).2

theorem quoted_ne_newline {t : Text} (h : t.all (· != '\n') = true) :
    (quoted t).all (· != '\n') = true := by
  unfold quoted
  rw [List.all_append, List.all_append, h]
  rfl

/-! ## The line of a finding -/

/-- What keeps the line of a finding readable. -/
structure OneLine (f : Finding) : Prop where
  rule : isColumn f.rule.toList = true
  title_head : f.title.toList.head?.any (· != ' ') = true
  title : ∀ c ∈ f.title.toList, c ≠ '\n'
  detail : ∀ c ∈ f.detail, c ≠ '\n'

theorem OneLine.head?_headline {f : Finding} (h : OneLine f) : f.headline.head? ≠ some ' ' := by
  obtain ⟨c, hc, hne⟩ := (Option.any_eq_true _ _).mp h.title_head
  have hhead : f.headline.head? = some c := by
    unfold Finding.headline
    split
    · exact hc
    · rw [List.append_assoc, List.head?_append, hc, Option.some_or]
  rw [hhead]
  intro he
  exact bne_iff_ne.mp hne (Option.some.inj he)

/-- **The line of a finding is read back.** -/
theorem OneLine.readRow_textRow {f : Finding} (h : OneLine f) :
    readRow (textRow f) = some ⟨f.line, f.category, f.rule.toList, f.headline⟩ := by
  have hnumber : JsonText.digits (toString f.line).toList = f.line := by
    have hdigits : (toString f.line).toList = Nat.toDigits 10 f.line := by
      simp [toString, Nat.repr]
    rw [hdigits, JsonText.digits_toDigits]
  have hcategory := isColumn_category f.category
  unfold textRow readRow
  rw [List.cons_append]
  simp only
  rw [readColumn_ljust (isColumn_toString f.line) 4 (head?_ljust hcategory 6 _)]
  simp only
  rw [readColumn_ljust hcategory 6 (head?_ljust h.rule 22 _)]
  simp only
  rw [readColumn_ljust h.rule 22 h.head?_headline, find_category, hnumber]
  rfl

theorem OneLine.not_newline {f : Finding} (h : OneLine f) : ∀ c ∈ textRow f, c ≠ '\n' := by
  have hheadline : ∀ c ∈ f.headline, c ≠ '\n' := by
    intro c hc
    unfold Finding.headline at hc
    split at hc
    · exact h.title c hc
    · rcases List.mem_append.mp hc with hc | hc
      · rcases List.mem_append.mp hc with hc | hc
        · exact h.title c hc
        · have hcolon : ∀ c ∈ [':', ' '], c ≠ '\n' := by simp
          exact hcolon c hc
      · exact h.detail c hc
  intro c hc
  simp only [textRow, List.mem_cons, List.mem_append] at hc
  rcases hc with (rfl | hc) | rfl | hc | rfl | hc | rfl | hc
  · decide
  · exact not_newline_ljust (isColumn_toString f.line) 4 c hc
  · decide
  · exact not_newline_ljust (isColumn_category f.category) 6 c hc
  · decide
  · exact not_newline_ljust h.rule 22 c hc
  · decide
  · exact hheadline c hc

/-! ## Every finding of a report stands on a line -/

theorem rule_texts : (rules.all fun rule => isColumn rule.id.toList
    && rule.title.toList.head?.any (· != ' ') && rule.title.toList.all (· != '\n')) = true := by
  decide +kernel

/-- The detail of a rule's finding is a piece of a cleaned line. -/
theorem detail_infix {u : Unicode} {s : Scanned} {rule : Rule} {f : Finding}
    (h : f ∈ ruleFindings u s rule) : ∃ line ∈ s.lines, f.detail <:+: line := by
  obtain ⟨k, line, m, hline, hm, -, rfl⟩ := mem_ruleFindings.mp h
  refine ⟨line, List.mem_of_getElem? hline, ?_⟩
  show (m.group 1).getD [] <:+: line
  cases hgroup : m.group 1 with
  | none => exact List.nil_infix
  | some t => exact group_infix_of_mem_finditer (List.mem_of_mem_head? hm) hgroup

theorem oneLine_ruleFinding {u : Unicode} {text : Text} {rule : Rule} (hrule : rule ∈ rules)
    {f : Finding} (h : f ∈ ruleFindings u (scanned u text) rule) : OneLine f := by
  have htexts := List.all_eq_true.mp rule_texts rule hrule
  simp only [Bool.and_eq_true, List.all_eq_true, bne_iff_ne] at htexts
  obtain ⟨⟨hid, hhead⟩, htitle⟩ := htexts
  obtain ⟨line, hline, hdetail⟩ := detail_infix h
  obtain ⟨_, _, _, -, -, -, rfl⟩ := mem_ruleFindings.mp h
  refine ⟨hid, hhead, htitle, fun c hc => ?_⟩
  exact Lines.not_newline_of_mem_split line hline c (hdetail.subset hc)

theorem oneLine_libraryStepFinding {u : Unicode} {text name : Text}
    (h : name ∈ librarySteps (scanned u text)) :
    OneLine (libraryStepFinding (scanned u text) name) := by
  have hident : ∀ c ∈ name, c ≠ '\n' := by
    intro c hc he
    have hc := (stepName_of_mem h).ident c hc
    rw [he] at hc
    cases hc
  have htitle : (libraryStepFinding (scanned u text) name).title.toList
      = "Shared-library step ".toList ++ quoted name := by
    show ("Shared-library step `" ++ String.ofList name ++ "`").toList = _
    simp [quoted]
  have hrule : isColumn "shared-library-step".toList = true := rfl
  refine ⟨hrule, ?_, all_ne_newline.mp ?_, hident⟩
  · rw [htitle]
    rfl
  · rw [htitle, List.all_append, quoted_ne_newline (all_ne_newline.mpr hident)]
    rfl

/-- **What a finding shows stands on one line**, whatever the text. -/
theorem oneLine_of_mem {u : Unicode} {source : String} {text : Text} {f : Finding}
    (h : f ∈ (report u source (scanned u text)).findings) : OneLine f := by
  rcases mem_findings.mp h with ⟨rule, hrule, hf⟩ | ⟨name, hname, rfl⟩
  · exact oneLine_ruleFinding hrule hf
  · exact oneLine_libraryStepFinding hname

/-! ## The text report is read back -/

theorem not_newline_textHeader {r : Report} (h : ∀ c ∈ r.source.toList, c ≠ '\n') :
    ∀ c ∈ textHeader r, c ≠ '\n' := by
  refine all_ne_newline.mp ?_
  unfold textHeader summaryText
  simp only [categories, List.map_cons, List.map_nil, List.intercalate, List.intersperse,
    List.flatten_cons, List.flatten_nil, List.all_append, List.all_cons, all_ne_newline.mpr h,
    toString_ne_newline]
  rfl

theorem split_toText {r : Report} (hsource : ∀ c ∈ r.source.toList, c ≠ '\n')
    (h : ∀ f ∈ r.findings, OneLine f) :
    Lines.split id (toText r) = textHeader r :: r.findings.map textRow ++ [[]] := by
  have hlines : ∀ line ∈ textHeader r :: r.findings.map textRow, ∀ c ∈ line, c ≠ '\n' := by
    intro line hline
    rcases List.mem_cons.mp hline with rfl | hline
    · exact not_newline_textHeader hsource
    · obtain ⟨f, hf, rfl⟩ := List.mem_map.mp hline
      exact (h f hf).not_newline
  have hnewline : id '\n' = '\n' := rfl
  unfold toText
  rw [Lines.split_append_newline id hnewline,
    Lines.split_join hnewline (List.cons_ne_nil _ _) hlines]
  rfl

/--
**The text report tells every finding.** Behind the header every line is the line of
one finding, in the order of the report, and can be read back, whatever the findings
have captured. A source with a newline in its name would break the header only.
-/
theorem toText_reads (u : Unicode) (text : Text) {source : String}
    (hsource : ∀ c ∈ source.toList, c ≠ '\n') :
    ∃ r, analyzeText u text source = .ok r
      ∧ ∃ rows, Lines.split id (toText r) = textHeader r :: rows ++ [[]]
      ∧ rows.map readRow = r.findings.map fun f =>
        some ⟨f.line, f.category, f.rule.toList, f.headline⟩ := by
  refine ⟨_, analyzeText_scanned u text source, _, split_toText hsource fun _ => oneLine_of_mem, ?_⟩
  rw [List.map_map]
  refine List.map_congr_left fun f hf => ?_
  have hline : OneLine f := oneLine_of_mem hf
  rw [Function.comp_apply, hline.readRow_textRow]

theorem toText_reads_input :
    ∃ r, analyzeText asciiOnly "input 'ok?'".toList "Jenkinsfile" = .ok r
      ∧ ∃ rows, Lines.split id (toText r) = textHeader r :: rows ++ [[]]
      ∧ rows.map readRow = r.findings.map fun f =>
        some ⟨f.line, f.category, f.rule.toList, f.headline⟩ :=
  toText_reads asciiOnly _ (by simp)

end MigrationPlatform.Analyzer
