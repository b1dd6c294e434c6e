import MigrationPlatform.Analyzer.Analyze
import MigrationPlatform.Analyzer.Survive

/-!
# What comments contain

Two texts with the same structure differ only in the contents of their comments.
Their analyses agree if the passes of `strip_comments` see both texts as they are:
they take nothing but comments, and they leave nothing of any comment. The
snippets and the original lines may differ; nothing else in the report looks at
them.
-/

namespace MigrationPlatform.Analyzer

/-! ## The analysis depends on the cleaned lines -/

/-- What a finding says, but for its texts. -/
def Finding.entry (f : Finding) : String × Category × Nat × Text :=
  (f.rule, f.category, f.line, f.detail)

/-- The order of findings, on what they say. -/
def entryLe (e e' : String × Category × Nat × Text) : Bool :=
  e.2.2.1 < e'.2.2.1 || (e.2.2.1 == e'.2.2.1 && textLe e.1.toList e'.1.toList)

/-- What a report says about a Jenkinsfile. -/
structure Analysis where
  stages : List Text
  sharedLibrary : Option Text
  credentialIds : List Text
  sharedLibrarySteps : List Text
  pluginSteps : List Text
  entries : List (String × Category × Nat × Text)

/-- The analysis in a report. -/
def Report.analysis (r : Report) : Analysis where
  stages := r.stages
  sharedLibrary := r.sharedLibrary
  credentialIds := r.credentialIds
  sharedLibrarySteps := r.sharedLibrarySteps
  pluginSteps := r.pluginSteps
  entries := r.findings.map Finding.entry

theorem entries_ruleFindings (u : Unicode) (s s' : Scanned) (hlines : s.lines = s'.lines)
    (rule : Rule) :
    (ruleFindings u s rule).map Finding.entry = (ruleFindings u s' rule).map Finding.entry := by
  rw [ruleFindings, ruleFindings, hlines, List.map_map, List.map_map]
  rfl

/-- Original lines show in the snippets only. -/
theorem entries_collectFindings (u : Unicode) (original original' cleaned : List Text) :
    (collectFindings u (scanLines u original cleaned)).map Finding.entry
      = (collectFindings u (scanLines u original' cleaned)).map Finding.entry := by
  have hrules : ((rules.flatMap (ruleFindings u (scanLines u original cleaned))).map Finding.entry)
      = (rules.flatMap (ruleFindings u (scanLines u original' cleaned))).map Finding.entry := by
    rw [List.map_flatMap, List.map_flatMap]
    congr 1
    funext rule
    exact entries_ruleFindings u (scanLines u original cleaned) (scanLines u original' cleaned)
      rfl rule
  rw [collectFindings, collectFindings, List.map_append, List.map_append, hrules, List.map_map,
    List.map_map]
  rfl

/-- **The analysis depends on the cleaned lines** and on nothing else of the text. -/
theorem analysis_report (u : Unicode) (source source' : String)
    (original original' cleaned : List Text) :
    (report u source (scanLines u original cleaned)).analysis
      = (report u source' (scanLines u original' cleaned)).analysis := by
  have hsort : ∀ fs : List Finding, (fs.insertionSort fun f g => f.le g = true).map Finding.entry
      = (fs.map Finding.entry).insertionSort fun e e' => entryLe e e' = true := fun fs =>
    List.map_insertionSort _ _ Finding.entry fs fun _ _ _ _ => Iff.rfl
  have hentries : (report u source (scanLines u original cleaned)).findings.map Finding.entry
      = (report u source' (scanLines u original' cleaned)).findings.map Finding.entry := by
    rw [report, report, hsort, hsort, entries_collectFindings u original original' cleaned]
  rw [Report.analysis, Report.analysis, hentries]
  rfl

/-! ## Texts with the same structure -/

/-- The lexed text without the contents of its comments, but with their newlines. -/
def skeleton (text : Text) : List (Char × Kind) :=
  (lex text).filter fun x => x.2 != .comment || x.1 == '\n'

/-- The texts differ only in the contents of their comments. -/
def SameStructure (a b : Text) : Prop := skeleton a = skeleton b

instance (a b : Text) : Decidable (SameStructure a b) := by
  unfold SameStructure
  infer_instance

/-- The text, read without strings, shows the comments that it has. -/
structure ReadsExactly (text : Text) : Prop extends ReadsTrue text where
  /-- Nothing of a comment is left. -/
  rest : ∀ line ∈ Lines.split Prod.fst (unblocked Prod.fst (lex text)),
    ∀ x ∈ kept (lineMarks Prod.fst false line), outside x = true

/-- What is outside the comments shows in the structure. -/
theorem linesOf_skeleton (text : Text) :
    linesOf Prod.fst outside (skeleton text) = linesOf Prod.fst outside (lex text) := by
  -- leaving out the contents of comments is a reading that marks just them
  have hkept : ∀ xs : List (Char × Kind), xs.filter (fun x => x.2 != .comment || x.1 == '\n')
      = kept (xs.map fun x => (x, !(x.2 != .comment || x.1 == '\n'))) := by
    intro xs
    simp [kept, List.filter_map, Function.comp_def]
  have hspares : ∀ q : Char × Kind → Bool, (∀ x, q x = true → x.2 ≠ .comment ∨ x.1 = '\n') →
      Spares q ((lex text).map fun x => (x, !(x.2 != .comment || x.1 == '\n'))) := by
    intro q hq p hp hb
    obtain ⟨x, _, rfl⟩ := List.mem_map.mp hp
    by_contra hx
    have hx := hq x (by simpa using hx)
    simp at hb
    rcases hx with hx | hx
    · exact hx hb.1
    · exact hb.2 hx
  rw [skeleton, hkept, linesOf_kept]
  · simp [Function.comp_def]
  · refine hspares outside fun x hx => .inl fun hk => ?_
    simp [outside, hk] at hx
  · exact hspares _ fun x hx => .inr (by simpa using hx)

/-- A text that is read exactly is cleaned to what is outside its comments. -/
theorem split_strip (u : Unicode) {text : Text} (h : ReadsExactly text) :
    Lines.split id (strip u text)
      = (linesOf Prod.fst outside (lex text)).map (List.map Prod.fst) := by
  have hlines : Lines.split Prod.fst (stripLexed u text) = linesOf Prod.fst outside (lex text) := by
    rw [← survives_of_readsTrue u h.toReadsTrue, linesOf_stripLexed, stripLexed,
      split_stripComments Prod.fst u rfl]
    refine List.map_congr_left fun line hline => ?_
    exact (List.filter_eq_self.mpr (h.rest line hline)).symm
  have hsplit : Lines.split id ((stripLexed u text).map Prod.fst)
      = (Lines.split Prod.fst (stripLexed u text)).map (List.map Prod.fst) :=
    Lines.split_map Prod.fst (fun _ => rfl) _
  rw [← map_fst_stripLexed, hsplit, hlines]

/--
**Contents of comments never influence the analysis** of texts that show, read
without strings, the comments that they have.
-/
theorem analysis_of_sameStructure (u : Unicode) (source : String) {a b : Text}
    (hsame : SameStructure a b) (ha : ReadsExactly a) (hb : ReadsExactly b) :
    ∃ r r', analyzeText u a source = .ok r ∧ analyzeText u b source = .ok r'
      ∧ r.analysis = r'.analysis := by
  have hclean : Lines.split id (strip u a) = Lines.split id (strip u b) := by
    rw [split_strip u ha, split_strip u hb, ← linesOf_skeleton, ← linesOf_skeleton, hsame]
  refine ⟨_, _, congrArg (Except.map (report u source)) (scan_eq u a),
    congrArg (Except.map (report u source)) (scan_eq u b), ?_⟩
  rw [hclean]
  exact analysis_report u source source _ _ _

theorem analysis_of_sameStructure_note :
    ∃ r r', analyzeText asciiOnly "stage('A') // one".toList "<stdin>" = .ok r
      ∧ analyzeText asciiOnly "stage('A') // stage('B')".toList "<stdin>" = .ok r'
      ∧ r.analysis = r'.analysis :=
  analysis_of_sameStructure asciiOnly "<stdin>" (by decide)
    ⟨⟨by decide, by decide, by decide⟩, by decide⟩
    ⟨⟨by decide, by decide, by decide⟩, by decide⟩

/-- Right behind a quote, what a comment says becomes a stage. -/
theorem not_analysis_of_sameStructure :
    ¬ ∀ u source a b, SameStructure a b →
      (analyzeText u a source).map Report.analysis
        = (analyzeText u b source).map Report.analysis := by
  intro h
  have hsame := h asciiOnly "<stdin>" "x = 'a'//stage('B')".toList "x = 'a'// note".toList
    (by decide)
  have hstages := congrArg (Except.map Analysis.stages) hsame
  revert hstages
  decide

end MigrationPlatform.Analyzer
