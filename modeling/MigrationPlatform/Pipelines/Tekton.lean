import MigrationPlatform.Pipelines.InCluster

/-!
# The Tekton pipeline

`legacy/tekton/pipeline.yaml` with the script of `tasks/slack-notify.yaml`. A failed task
stops the run: what has not been started is not started any more. A task whose `when`
fails is skipped, which does not stop what runs after it.
-/

namespace MigrationPlatform.Pipelines.Tekton

inductive Task where
  | clone
  | build
  | unitTest
  | lint
  | image
  | deployStaging
  | deployProduction
deriving DecidableEq, Repr

inductive Result where
  | succeeded
  | failed
  /-- By its `when` expressions. -/
  | skipped
  /-- Behind a failure. -/
  | stopped
deriving DecidableEq, Repr

def Result.bad : Result → Bool
  | .failed | .stopped => true
  | _ => false

/-- `spec.params` that conditions look at. -/
structure Params where
  environment : String
  skipTests : String

inductive Operator where
  | isIn
  | notIn

/-- A `when` expression. -/
structure When where
  input : String
  operator : Operator
  values : List String

def When.holds (w : When) : Bool :=
  match w.operator with
  | .isIn => w.values.contains w.input
  | .notIn => !w.values.contains w.input

/-- `runAfter`. -/
def Task.runAfter : Task → List Task
  | .clone => []
  | .build => [.clone]
  | .unitTest | .lint => [.build]
  | .image => [.unitTest, .lint]
  | .deployStaging => [.image]
  | .deployProduction => [.deployStaging]

/-- The tasks whose results are among the parameters. -/
def Task.results : Task → List Task
  | .image | .deployStaging | .deployProduction => [.clone]
  | _ => []

def Task.needs (t : Task) : List Task := t.runAfter ++ t.results

def Task.when (p : Params) : Task → List When
  | .unitTest | .lint => [{ input := p.skipTests, operator := .notIn, values := ["true"] }]
  | .deployProduction =>
      [{ input := p.environment, operator := .isIn, values := ["production"] }]
  | _ => []

/-- What the task that is referred to does. -/
def Task.step : Task → Step
  | .clone => .checkout
  | .build => .build
  | .unitTest => .unit
  | .lint => .lint
  | .image => .image
  | .deployStaging => .deployHelm .staging
  | .deployProduction => .deployHelm .production

/-- What becomes of a task once what it waits for is settled. -/
def enterTask (p : Params) (stopping : Bool) (f : Task → Option Result) (t : Task) :
    Option Result :=
  if stopping || t.needs.any (fun k => (f k).any Result.bad) then some .stopped
  else if (t.when p).all When.holds then none
  else some .skipped

def pipeline (p : Params) : Dag.Graph Task Result where
  needs := Task.needs
  enter := fun t stopping f => enterTask p stopping f t
  enter_congr := by
    intro t stopping f f' hneeds
    have hany : t.needs.any (fun k => (f k).any Result.bad)
        = t.needs.any (fun k => (f' k).any Result.bad) := by
      rw [Bool.eq_iff_iff, List.any_eq_true, List.any_eq_true]
      exact exists_congr fun k => and_congr_right fun hk => by rw [hneeds k hk]
    simp only [enterTask, hany]

/-! ## The notification -/

def tasks : List Task :=
  [.clone, .build, .unitTest, .lint, .image, .deployStaging, .deployProduction]

/-- `$(tasks.status)`. -/
def tasksStatus (f : Task → Option Result) : String :=
  if !tasks.all (fun t => (f t).isSome) then "None"
  else if tasks.any (fun t => f t == some .failed) then "Failed"
  else if tasks.any (fun t => f t == some .skipped || f t == some .stopped) then "Completed"
  else "Succeeded"

/-- The `case` of `slack-notify`. -/
def icon (status : String) : String :=
  if status = "Succeeded" then ":white_check_mark:"
  else if status = "Failed" then ":x:"
  else ":warning:"

/-! ## Runs -/

/-- The gate of a task. -/
def Task.gate (p : Params) (t : Task) : Bool := (t.when p).all When.holds

theorem gated_pipeline (p : Params) : Dag.Gated (pipeline p) Result.bad (Task.gate p) := by
  have hbad : Result.bad .stopped = true ∧ Result.bad .skipped = false := ⟨rfl, rfl⟩
  refine Dag.Gated.of_enter (fun t f => t.needs.any fun k => (f k).any Result.bad) hbad.1 hbad.2
    (fun _ _ _ => rfl) ?_ ?_
  · intro t f k r hk hr hbad
    rw [List.any_eq_true]
    exact ⟨k, hk, by rw [hr]; exact hbad⟩
  · intro t f hgood
    rw [List.any_eq_false]
    intro k hk
    obtain ⟨r, hr, hrgood⟩ := hgood k hk
    rw [hr, Option.any_some, hrgood]
    exact Bool.false_ne_true

def Task.rank : Task → Nat
  | .clone => 0
  | .build => 1
  | .unitTest | .lint => 2
  | .image => 3
  | .deployStaging => 4
  | .deployProduction => 5

theorem ranked_pipeline (p : Params) : (pipeline p).Ranked Task.rank := by
  intro t k hk
  have hall : ∀ t : Task, t.needs.all (fun k => k.rank < t.rank) = true := by
    intro t
    cases t <;> decide
  simpa using List.all_eq_true.mp (hall t) k hk

/-- The run for a build of the legacy pipeline. -/
def paramsOf (b : Build) : Params where
  environment := b.environment.text
  skipTests := if b.skipTests then "true" else "false"

/-- What the Tekton pipeline leaves behind. -/
def leftBehind : Step → Bool
  | .sast | .smokeTest _ | .approve => true
  | _ => false

/-- How a task ends that runs. -/
def taskResult (behave : Step → Outcome) (t : Task) : Result :=
  if goes (strict behave) t.step then .succeeded else .failed

/-- How the steps end in the build that a run is compared with. -/
abbrev ported (behave : Step → Outcome) : Step → Outcome := without leftBehind (strict behave)

section Mirrors

variable (b : Build) (behave : Step → Outcome)

/-- The expressions ask for what the stages ask for. -/
theorem gate_paramsOf (t : Task) : t.gate (paramsOf b) = isOpen (onBranchMain b) t.step := by
  unfold Task.gate paramsOf onBranchMain
  cases t with
  | unitTest => cases b.skipTests <;> simp [Task.when, When.holds, isOpen, Task.step]
  | lint => cases b.skipTests <;> simp [Task.when, When.holds, isOpen, Task.step]
  | deployProduction =>
      cases b.environment <;> simp [Task.when, When.holds, isOpen, Task.step, Target.text]
  | _ => rfl

/-- A task is good if what it waits for is, and it is skipped or its step succeeds. -/
theorem good_eq (t : Task) :
    isGood (ported behave) (onBranchMain b) t.step
      = (t.needs.all (fun k => isGood (ported behave) (onBranchMain b) k.step)
        && (!isOpen (onBranchMain b) t.step || goes (ported behave) t.step)) := by
  have hstaged := isStaged_of_smokeTest (b := b) (goes_without (.smokeTest .staging) :
    goes (ported behave) (.smokeTest .staging) = true)
  have htested := isTested_of_sast (b := onBranchMain b)
    (goes_without .sast : goes (ported behave) .sast = true)
  have happrove : goes (ported behave) .approve = true := goes_without .approve
  cases t <;> simp only [isGood, isOpen, Task.needs, Task.runAfter, Task.results, Task.step,
    happrove, hstaged, isPushed, htested, isBuilt, List.all_append, List.all_cons,
    List.all_nil] <;> grind

/-- A task runs where its step is reached. -/
theorem reaches_eq (t : Task) :
    (t.needs.all (fun k => isGood (ported behave) (onBranchMain b) k.step)
      && isOpen (onBranchMain b) t.step) = reaches (ported behave) (onBranchMain b) t.step := by
  have hstaged := isStaged_of_smokeTest (b := b) (goes_without (.smokeTest .staging) :
    goes (ported behave) (.smokeTest .staging) = true)
  have htested := isTested_of_sast (b := onBranchMain b)
    (goes_without .sast : goes (ported behave) .sast = true)
  have happrove : goes (ported behave) .approve = true := goes_without .approve
  have hmain : ((onBranchMain b).branch == "main") = true := rfl
  cases t <;> simp only [isGood, isOpen, Task.needs, Task.runAfter, Task.results, Task.step,
    reaches, happrove, hmain, hstaged, isPushed, htested, isBuilt, List.all_append, List.all_cons,
    List.all_nil] <;> grind

end Mirrors

/-- The pipeline does the steps of the Jenkins build, each under its condition. -/
def mirrors (b : Build) (behave : Step → Outcome) :
    Mirrors (pipeline (paramsOf b)) Task.step Result.bad (taskResult behave) leftBehind behave
      (onBranchMain b) where
  gated := by
    rw [← funext (gate_paramsOf b)]
    exact gated_pipeline (paramsOf b)
  rank := Task.rank
  ranked := ranked_pipeline (paramsOf b)
  good := good_eq b behave
  reaches := reaches_eq b behave
  depth := 6
  comparable := by
    intro t k
    show Dag.Comparable Task.needs 6 t k ∨ _
    cases t <;> cases k <;> decide
  injective := by
    intro t k h
    cases t <;> cases k <;> first | rfl | cases h
  covers := by
    intro x
    constructor
    · intro hx
      cases x with
      | checkout => exact ⟨.clone, rfl⟩
      | build => exact ⟨.build, rfl⟩
      | unit => exact ⟨.unitTest, rfl⟩
      | lint => exact ⟨.lint, rfl⟩
      | image => exact ⟨.image, rfl⟩
      | deployHelm target =>
          cases target with
          | staging => exact ⟨.deployStaging, rfl⟩
          | production => exact ⟨.deployProduction, rfl⟩
      | _ => cases hx
    · intro ⟨t, ht⟩
      rw [← ht]
      cases t <;> rfl
  ends := by
    intro t
    unfold taskResult
    cases goes (strict behave) t.step <;> rfl

section Status

variable {b : Build} {behave : Step → Outcome} {s : Dag.State Task Result}
  (h : (pipeline (paramsOf b)).Reachable (Dag.ObeysFast Result.bad (taskResult behave)) s)

/-- A task that does not run has neither succeeded nor failed. -/
theorem enterTask_cases {p : Params} {stopping : Bool} {f : Task → Option Result} {t : Task}
    {r : Result} (h : enterTask p stopping f t = some r) : r = .stopped ∨ r = .skipped := by
  unfold enterTask at h
  split at h
  · exact .inl (Option.some.inj h).symm
  · split at h
    · cases h
    · exact .inr (Option.some.inj h).symm

theorem taskResult_cases (behave : Step → Outcome) (t : Task) :
    taskResult behave t = .succeeded ∨ taskResult behave t = .failed := by
  unfold taskResult
  split
  · exact .inl rfl
  · exact .inr rfl

include h

/-- A task has succeeded or failed if it has run. -/
theorem ended_iff {t : Task} {r : Result} (hr : s.result t = some r) :
    s.phase t = .ended r ↔ r = .succeeded ∨ r = .failed := by
  constructor
  · intro hended
    rw [h.ended (fun t r => r = taskResult behave t) (fun _ _ _ hok => hok) hended]
    exact taskResult_cases behave t
  · intro hcases
    rcases Dag.result_eq_some.mp hr with hended | hpassed
    · exact hended
    · obtain ⟨-, stopping, -, henter⟩ := h.sound.of_passed hpassed
      rcases enterTask_cases henter with rfl | rfl
      · rcases hcases with he | he <;> cases he
      · rcases hcases with he | he <;> cases he

/-- Without a failure a task has succeeded or was skipped, as its expressions say. -/
theorem result_of_good {t : Task} {r : Result} (hr : s.result t = some r)
    (hgood : r.bad = false) : r = if t.gate (paramsOf b) then .succeeded else .skipped := by
  rcases Dag.result_eq_some.mp hr with hended | hpassed
  · have hopen := ((gated_pipeline _).of_started h.sound (j := t) (by rw [hended]; rfl)).2
    rw [hopen]
    rcases (ended_iff h hr).mp hended with rfl | rfl
    · rfl
    · cases hgood
  · have hshut := ((gated_pipeline _).of_passed h.sound hpassed hgood).2
    rw [hshut]
    obtain ⟨-, stopping, -, henter⟩ := h.sound.of_passed hpassed
    rcases enterTask_cases henter with rfl | rfl
    · cases hgood
    · rfl

/-- **What is reported of a run that is over.** -/
theorem tasksStatus_eq (hover : Dag.Over (pipeline (paramsOf b)) s) :
    tasksStatus s.result =
      if (runJenkins (ported behave) (onBranchMain b)).outcome ≠ .success then "Failed"
      else if tasks.all (Task.gate (paramsOf b)) then "Succeeded"
      else "Completed" := by
  have hsettled : ∀ t, ∃ r, s.result t = some r := hover.settled (ranked_pipeline _)
  have hall : tasks.all (fun t => (s.result t).isSome) = true := by
    rw [List.all_eq_true]
    intro t _
    obtain ⟨r, hr⟩ := hsettled t
    rw [hr]
    rfl
  have hmem : ∀ t, t ∈ tasks := by
    intro t
    cases t <;> decide
  have hfailed := ((mirrors b behave).sameSteps h hover).failed
  unfold tasksStatus
  rw [hall]
  by_cases hbuild : (runJenkins (ported behave) (onBranchMain b)).outcome = .success
  · have hgood : ∀ t r, s.result t = some r → r.bad = false := by
      intro t r hr
      cases hbad : r.bad with
      | false => rfl
      | true =>
          have hnot := Dag.failed_of_bad (gated_pipeline _) (ranked_pipeline _) h hr hbad
          exact absurd hbuild (hfailed.mp hnot)
    have hresult : ∀ t,
        s.result t = some (if t.gate (paramsOf b) then .succeeded else .skipped) := by
      intro t
      obtain ⟨r, hr⟩ := hsettled t
      rw [hr, result_of_good h hr (hgood t r hr)]
    have hnone : tasks.any (fun t => s.result t == some .failed) = false := by
      rw [List.any_eq_false]
      intro t _
      rw [hresult t]
      cases t.gate (paramsOf b) <;> exact Bool.false_ne_true
    have hskipped : tasks.any (fun t => s.result t == some .skipped || s.result t == some .stopped)
        = !tasks.all (Task.gate (paramsOf b)) := by
      rw [List.not_all_eq_any_not]
      refine congrArg tasks.any (funext fun t => ?_)
      rw [hresult t]
      cases t.gate (paramsOf b) <;> rfl
    rw [hnone, hskipped, if_neg (not_not.mpr hbuild)]
    cases tasks.all (Task.gate (paramsOf b)) <;> rfl
  · obtain ⟨t, r, ht, hbad⟩ := hfailed.mpr hbuild
    have hr : s.result t = some r := Dag.result_eq_some.mpr (.inl ht)
    have hany : tasks.any (fun t => s.result t == some .failed) = true := by
      rw [List.any_eq_true]
      refine ⟨t, hmem t, ?_⟩
      rcases (ended_iff h hr).mp ht with rfl | rfl
      · cases hbad
      · rw [hr]
        rfl
    rw [hany, if_pos hbuild]
    rfl

end Status

/-! ## The pipeline and the Jenkins build -/

/--
**The pipeline mirrors the Jenkins build stage for stage.** In every run that is over, in
whatever order its tasks went and wherever behind a failure it was stopped: every step
that was run is one that the Jenkins build for `main` executes, and every step that the
build executes was run, but for one of the two test branches where the other one has
failed; and a task has failed exactly if the build does not succeed. In that build unstable
counts as failed, and what was left behind, the scan, the smoke test and the approval, as
passed. The steps are compared without the tags of their images; the build can be given one.
-/
theorem mirrors_jenkins {b : Build} {behave : Step → Outcome} {s : Dag.State Task Result}
    (h : (pipeline (paramsOf b)).Reachable (Dag.ObeysFast Result.bad (taskResult behave)) s)
    (hover : Dag.Over (pipeline (paramsOf b)) s) :
    SameSteps Task.step Result.bad s leftBehind
      (runJenkins (ported behave) (onBranchMain b)) (ported behave) :=
  (mirrors b behave).sameSteps h hover

/--
**What the notification shows.** A run is posted with a cross exactly if the Jenkins build
does not succeed in which unstable counts as failed, and the scan, the smoke test and the
approval as passed. It is posted with a check mark only if besides it was for production
with its tests: any other run that succeeds has skipped a task, so `$(tasks.status)` is
`Completed`, and it is posted with a warning, where such a build is posted with a check
mark.
-/
theorem icon_eq {b : Build} {behave : Step → Outcome} {s : Dag.State Task Result}
    (h : (pipeline (paramsOf b)).Reachable (Dag.ObeysFast Result.bad (taskResult behave)) s)
    (hover : Dag.Over (pipeline (paramsOf b)) s) :
    icon (tasksStatus s.result) =
      if (runJenkins (ported behave) (onBranchMain b)).outcome ≠ .success then ":x:"
      else if b.environment = .production ∧ b.skipTests = false then ":white_check_mark:"
      else ":warning:" := by
  have hopen : tasks.all (Task.gate (paramsOf b)) = true
      ↔ b.environment = .production ∧ b.skipTests = false := by
    simp only [tasks, gate_paramsOf, isOpen, Task.step, onBranchMain, List.all_cons,
      List.all_nil, Bool.true_and, Bool.and_true, Bool.and_eq_true, Bool.not_eq_true', beq_iff_eq]
    constructor
    · intro h
      exact ⟨h.2.2, h.1⟩
    · intro h
      exact ⟨h.2, h.2, h.1⟩
  rw [tasksStatus_eq h hover]
  by_cases hbuild : (runJenkins (ported behave) (onBranchMain b)).outcome = .success
  · rw [if_neg (not_not.mpr hbuild), if_neg (not_not.mpr hbuild)]
    by_cases hproduction : b.environment = .production ∧ b.skipTests = false
    · rw [if_pos (hopen.mpr hproduction), if_pos hproduction]
      rfl
    · rw [if_neg (fun hall => hproduction (hopen.mp hall)), if_neg hproduction]
      rfl
  · rw [if_pos hbuild, if_pos hbuild]
    rfl

/-! ## A release whose tests fail -/

def unitFails (x : Step) : Outcome := if x = .unit then .failure else .success

/-- The tests fail. -/
def failingTests : List (Dag.Event Task Result) := [
  .enter .clone, .finish .clone .succeeded, .enter .build, .finish .build .succeeded,
  .enter .unitTest, .finish .unitTest .failed]

/-- The run of a release up to there. -/
def failedRelease : Dag.State Task Result :=
  (Transition.run (pipeline (paramsOf release)).step Dag.init failingTests).getD Dag.init

/-- Behind the failure nothing is started, not even the linter. -/
def behindFailure : List (Dag.Event Task Result) :=
  [.enter .lint, .enter .image, .enter .deployStaging, .enter .deployProduction]

def stoppedRelease : Dag.State Task Result :=
  (Transition.run (pipeline (paramsOf release)).step { failedRelease with stopped := true }
    behindFailure).getD Dag.init

theorem stoppedRelease_reachable :
    (pipeline (paramsOf release)).Reachable (Dag.ObeysFast Result.bad (taskResult unitFails))
      stoppedRelease := by
  have hfailed : Transition.run (pipeline (paramsOf release)).step Dag.init failingTests
      = some failedRelease := rfl
  have hstopped : Transition.run (pipeline (paramsOf release)).step
      { failedRelease with stopped := true } behindFailure = some stoppedRelease := rfl
  have hstop : Dag.ObeysFast Result.bad (taskResult unitFails) failedRelease .stop :=
    ⟨.unitTest, .failed, rfl, rfl⟩
  have hreachable : (pipeline (paramsOf release)).Reachable
      (Dag.ObeysFast Result.bad (taskResult unitFails)) failedRelease := by
    refine Dag.Graph.reachable_of_run (.init rfl) ?_ hfailed
    simp [failingTests, Dag.ObeysFast, taskResult, Task.step, goes, strict, unitFails,
      Outcome.stops]
  refine Dag.Graph.reachable_of_run (.tail hreachable hstop rfl) ?_ hstopped
  simp [behindFailure, Dag.ObeysFast]

theorem stoppedRelease_over : Dag.Over (pipeline (paramsOf release)) stoppedRelease := by
  intro t
  cases t <;> exact ⟨rfl, fun he => by cases he⟩

theorem mirrors_jenkins_stoppedRelease :
    SameSteps Task.step Result.bad stoppedRelease leftBehind
        (runJenkins (ported unitFails) (onBranchMain release)) (ported unitFails)
      ∧ stoppedRelease.phase .lint = .passed .stopped :=
  ⟨mirrors_jenkins stoppedRelease_reachable stoppedRelease_over, rfl⟩

theorem icon_eq_stoppedRelease : icon (tasksStatus stoppedRelease.result) = ":x:" :=
  (icon_eq stoppedRelease_reachable stoppedRelease_over).trans (by decide)

end MigrationPlatform.Pipelines.Tekton
