import Mathlib.Data.List.Infix
import MigrationPlatform.Lib.Lines
import MigrationPlatform.Pipelines.Actions

/-!
# What the migrated pipeline reports

The `notify` job: it always runs, joins the results of the other jobs and looks for
words in them. Its status is the truth about the run: a failure anywhere is reported,
and success means that everything that was asked for has been deployed.
-/

namespace MigrationPlatform.Pipelines

def Result.text : Result → Text
  | .success => "success".toList
  | .failure => "failure".toList
  | .cancelled => "cancelled".toList
  | .skipped => "skipped".toList

/-- The pattern `*word*` of the shell. -/
def matchesWord (word text : Text) : Bool := text.tails.any word.isPrefixOf

/-- `case "$RESULTS" in ... esac`. -/
def caseStatus (results : Text) : Result :=
  if matchesWord "failure".toList results then .failure
  else if matchesWord "cancelled".toList results then .cancelled
  else .success

/-- `join(needs.*.result, ' ')`. -/
def joinResults (results : List Result) : Text := Lines.join ' ' (results.map Result.text)

/-- The status that `notify` passes on. -/
def runStatus (f : Results) : Result := caseStatus (joinResults ((Job.needs .notify).filterMap f))

theorem matchesWord_iff {word text : Text} : matchesWord word text = true ↔ word <:+: text := by
  unfold matchesWord
  rw [List.any_eq_true, List.infix_iff_prefix_suffix]
  constructor
  · intro ⟨t, ht, hprefix⟩
    exact ⟨t, List.isPrefixOf_iff_prefix.mp hprefix, List.mem_tails t text |>.mp ht⟩
  · intro ⟨t, hprefix, ht⟩
    exact ⟨t, List.mem_tails t text |>.mpr ht, List.isPrefixOf_iff_prefix.mpr hprefix⟩

/-- A result is found in a join by its word. -/
theorem matchesWord_joinResults {r : Result} {word : Text} (hne : word ≠ []) (hword : ' ' ∉ word)
    (honly : ∀ r', matchesWord word r'.text = decide (r' = r)) (results : List Result) :
    matchesWord word (joinResults results) = decide (r ∈ results) := by
  rw [Bool.eq_iff_iff, matchesWord_iff, joinResults, Lines.infix_join_iff hne hword,
    decide_eq_true_eq]
  simp only [List.mem_map, exists_exists_and_eq_and, ← matchesWord_iff, honly, decide_eq_true_eq,
    exists_eq_right]

/-- **The status of a run** from its results. -/
theorem caseStatus_joinResults (results : List Result) :
    caseStatus (joinResults results)
      = if .failure ∈ results then .failure
        else if .cancelled ∈ results then .cancelled
        else .success := by
  unfold caseStatus
  rw [matchesWord_joinResults (r := .failure) (by decide) (by decide) (by intro r; cases r <;> rfl),
    matchesWord_joinResults (r := .cancelled) (by decide) (by decide)
      (by intro r; cases r <;> rfl)]
  simp only [decide_eq_true_eq]

section Runs

variable {c : Context} {s : Dag.State Job Result}

theorem runStatus_eq_failure :
    runStatus s.result = .failure ↔ ∃ j ∈ Job.needs .notify, s.result j = some .failure := by
  unfold runStatus
  rw [caseStatus_joinResults, ← List.mem_filterMap]
  split
  · simp_all
  · split <;> simp_all

theorem runStatus_eq_success :
    runStatus s.result = .success ↔ ∀ j ∈ Job.needs .notify,
      s.result j ≠ some .failure ∧ s.result j ≠ some .cancelled := by
  have hmem : ∀ r, r ∈ (Job.needs .notify).filterMap s.result
      ↔ ∃ j ∈ Job.needs .notify, s.result j = some r := fun r => List.mem_filterMap
  unfold runStatus
  rw [caseStatus_joinResults]
  simp only [hmem]
  constructor
  · intro h j hj
    split at h
    · cases h
    · rename_i hfailure
      split at h
      · cases h
      · rename_i hcancelled
        exact ⟨fun he => hfailure ⟨j, hj, he⟩, fun he => hcancelled ⟨j, hj, he⟩⟩
  · intro h
    rw [if_neg fun ⟨j, hj, he⟩ => (h j hj).1 he, if_neg fun ⟨j, hj, he⟩ => (h j hj).2 he]

/-! ## Failures are reported -/

/-- A test job that fails makes its call fail. -/
theorem test_failure (h : (workflow c).Reachable Ends s) {j : Job} (hj : j = .unit ∨ j = .lint)
    (hfailure : s.result j = some .failure) {r : Result} (htest : s.result .test = some r) :
    r = .failure := by
  have henters : ∀ b o, (workflow c).enter j b s.result = o → enterTest c b s.result j = o := by
    rcases hj with rfl | rfl
    · exact fun b o he => he
    · exact fun b o he => he
  have hbuild : s.result .build = some .success := by
    rcases Dag.result_eq_some.mp hfailure with hended | hpassed
    · obtain ⟨-, b, -, henter⟩ := h.sound.of_started (j := j) (by rw [hended]; rfl)
      have henter := henters b none henter
      unfold enterTest at henter
      split at henter
      · cases henter
      · split at henter
        · rename_i hcond
          exact beq_iff_eq.mp (Bool.and_eq_true_iff.mp hcond).1
        · cases henter
    · obtain ⟨-, b, -, henter⟩ := h.sound.of_passed hpassed
      have henter := henters b (some .failure) henter
      unfold enterTest at henter
      split at henter
      · rcases c.service.unstarted_cases j with he | he
        · rw [he] at henter
          cases henter
        · rw [he] at henter
          cases henter
      · split at henter <;> cases henter
  have henter := (test_passed h htest).2
  unfold enterCall at henter
  rw [if_pos (beq_iff_eq.mpr hbuild)] at henter
  have hcontains : [s.result .unit, s.result .lint].contains (some .failure) = true := by
    rcases hj with rfl | rfl
    · simp [hfailure]
    · simp [hfailure]
  unfold called at henter
  rw [if_pos hcontains] at henter
  exact (Option.some.inj henter).symm

/-- A review that ends badly makes its deployment fail. -/
theorem review_failure (h : (workflow c).Reachable Ends s) {target : Target}
    (hfailure : s.result (.review target) = some .failure) {r : Result}
    (hdeploy : s.result (.deploy target) = some r) : r = .failure := by
  have hcond : deployCondition c s.result target = true := by
    rcases Dag.result_eq_some.mp hfailure with hended | hpassed
    · obtain ⟨-, b, -, henter⟩ := h.sound.of_started (j := .review target) (by rw [hended]; rfl)
      have henter : enterReview c s.result target = none := henter
      unfold enterReview at henter
      split at henter
      · cases henter
      · rename_i hcond
        simpa using hcond
    · obtain ⟨-, b, -, henter⟩ := h.sound.of_passed hpassed
      have henter : enterReview c s.result target = some .failure := henter
      unfold enterReview at henter
      split at henter
      · cases henter
      · split at henter <;> cases henter
  rcases Dag.result_eq_some.mp hdeploy with hended | hpassed
  · have hstarted : (s.phase (.deploy target)).started = true := by rw [hended]; rfl
    have hreview := (deploy_started h hstarted).2
    rw [hfailure] at hreview
    cases hreview
  · obtain ⟨-, b, -, henter⟩ := h.sound.of_passed hpassed
    have henter : enterDeploy c s.result target = some r := henter
    unfold enterDeploy at henter
    rw [hcond, hfailure] at henter
    exact (Option.some.inj henter).symm

/-- **Every failure is reported**, also that of a job that `notify` does not wait for itself. -/
theorem failure_reported (h : (workflow c).Reachable Ends s)
    (hj : (s.phase .notify).started = true) :
    runStatus s.result = .failure ↔ ∃ j, j ≠ .notify ∧ s.result j = some .failure := by
  have hneeds := (h.sound.of_started hj).1
  have hsettled : ∀ j ∈ Job.needs .notify, ∃ r, s.result j = some r := fun j hj =>
    Option.isSome_iff_exists.mp (hneeds j hj)
  rw [runStatus_eq_failure]
  constructor
  · intro ⟨j, hj, hfailure⟩
    refine ⟨j, ?_, hfailure⟩
    intro he
    rw [he] at hj
    revert hj
    decide
  · intro ⟨j, hne, hfailure⟩
    have hcall : j = .unit ∨ j = .lint → ∃ j ∈ Job.needs .notify, s.result j = some .failure := by
      intro hj
      obtain ⟨r, hr⟩ := hsettled .test (by decide)
      exact ⟨.test, by decide, test_failure h hj hfailure hr ▸ hr⟩
    cases j with
    | build => exact ⟨.build, by decide, hfailure⟩
    | unit => exact hcall (.inl rfl)
    | lint => exact hcall (.inr rfl)
    | test => exact ⟨.test, by decide, hfailure⟩
    | image => exact ⟨.image, by decide, hfailure⟩
    | review target =>
        have hmem : Job.deploy target ∈ Job.needs .notify := by cases target <;> decide
        obtain ⟨r, hr⟩ := hsettled _ hmem
        exact ⟨.deploy target, hmem, review_failure h hfailure hr ▸ hr⟩
    | deploy target => exact ⟨.deploy target, by cases target <;> decide, hfailure⟩
    | notify => exact absurd rfl hne

/-- A job that was left out has not met its condition. -/
theorem image_of_settled (h : (workflow c).Reachable Ends s)
    (hbuild : s.result .build = some .success)
    (htest : s.result .test = some .success ∨ s.result .test = some .skipped)
    (hskipped : s.result .image = some .skipped) : False := by
  obtain ⟨-, b, -, henter⟩ := h.sound.of_passed (passed_of_skipped h hskipped)
  have henter : enterImage s.result = some .skipped := henter
  unfold enterImage at henter
  have hcond : (s.result .build == some .success
      && (s.result .test == some .success || s.result .test == some .skipped)) = true := by
    simpa only [Bool.and_eq_true, Bool.or_eq_true, beq_iff_eq] using ⟨hbuild, htest⟩
  rw [if_pos hcond] at henter
  cases henter

theorem deploy_of_settled (h : (workflow c).Reachable Ends s) {target : Target}
    (hcond : deployCondition c s.result target = true)
    (hskipped : s.result (.deploy target) = some .skipped) : False := by
  obtain ⟨-, b, -, henter⟩ := h.sound.of_passed (passed_of_skipped h hskipped)
  have henter : enterDeploy c s.result target = some .skipped := henter
  unfold enterDeploy at henter
  rw [hcond] at henter
  simp only [Bool.not_true, Bool.false_eq_true, if_false] at henter
  split at henter
  · cases henter
  · split at henter <;> cases henter

theorem build_of_settled (h : (workflow c).Reachable Ends s) (hstopped : s.stopped = false)
    (hskipped : s.result .build = some .skipped) : False := by
  obtain ⟨-, b, hb, henter⟩ := h.sound.of_passed (passed_of_skipped h hskipped)
  cases b with
  | false => cases henter
  | true =>
      have htrue := hb rfl
      rw [hstopped] at htrue
      cases htrue

/--
**The notification tells the truth.** In every run, once `notify` has been started: it
reports a failure exactly if some job has failed; and if it reports success and the run
was not cancelled, everything that was asked for is there: the build, the image, on
`main` the deployment to staging, and the one to production if that was the target.
-/
theorem runStatus_truthful (h : (workflow c).Reachable Ends s)
    (hj : (s.phase .notify).started = true) :
    (runStatus s.result = .failure ↔ ∃ j, j ≠ .notify ∧ s.result j = some .failure)
      ∧ (runStatus s.result = .success → s.stopped = false →
        s.phase .build = .ended .success ∧ s.phase .image = .ended .success
        ∧ (sameText c.ref "refs/heads/main" = true →
          s.phase (.deploy .staging) = .ended .success
          ∧ (c.environment = .production → s.phase (.deploy .production) = .ended .success))) := by
  refine ⟨failure_reported h hj, fun hstatus hstopped => ?_⟩
  have hneeds := (h.sound.of_started hj).1
  -- what was waited for has succeeded, or was skipped
  have hgood : ∀ j ∈ Job.needs .notify,
      s.result j = some .success ∨ s.result j = some .skipped := by
    intro j hj
    obtain ⟨hfailure, hcancelled⟩ := runStatus_eq_success.mp hstatus j hj
    obtain ⟨r, hr⟩ := Option.isSome_iff_exists.mp (hneeds j hj)
    rw [hr] at hfailure hcancelled ⊢
    cases r with
    | success => exact .inl rfl
    | failure => exact absurd rfl hfailure
    | cancelled => exact absurd rfl hcancelled
    | skipped => exact .inr rfl
  have hbuild : s.result .build = some .success :=
    (hgood .build (by decide)).resolve_right (build_of_settled h hstopped)
  have himage : s.result .image = some .success :=
    (hgood .image (by decide)).resolve_right
      (image_of_settled h hbuild (hgood .test (by decide)))
  refine ⟨ended_of_success h rfl hbuild, ended_of_success h rfl himage, fun hmain => ?_⟩
  have hcond : deployCondition c s.result .staging = true := by
    simp [deployCondition, himage, hmain]
  have hstaging : s.result (.deploy .staging) = some .success :=
    (hgood (.deploy .staging) (by decide)).resolve_right (deploy_of_settled h hcond)
  refine ⟨ended_of_success h rfl hstaging, fun henvironment => ?_⟩
  have hcond : deployCondition c s.result .production = true := by
    simp [deployCondition, hstaging, henvironment]
  exact ended_of_success h rfl
    ((hgood (.deploy .production) (by decide)).resolve_right (deploy_of_settled h hcond))

end Runs

theorem runStatus_truthful_productionRun :
    ∃ s, Transition.run (workflow productionContext).step Dag.init productionRun = some s
      ∧ (runStatus s.result = .failure ↔ ∃ j, j ≠ .notify ∧ s.result j = some .failure)
      ∧ s.phase (.deploy .production) = .ended .success := by
  have hrun : Transition.run (workflow productionContext).step Dag.init productionRun
      = some ((Transition.run (workflow productionContext).step Dag.init productionRun).getD
        Dag.init) := rfl
  have h := runStatus_truthful (Dag.Graph.reachable_of_run (.init rfl) productionRun_ends hrun) rfl
  exact ⟨_, hrun, h.1, ((h.2 rfl rfl).2.2 rfl).2 rfl⟩

end MigrationPlatform.Pipelines
