import MigrationPlatform.Pipelines.RunStatus

/-!
# The migration preserves the pipeline

The jobs of the migrated pipeline run the steps of the legacy one. In a run that is not
cancelled, in whatever order its jobs go, exactly those steps are executed that the
Jenkins build would execute, and it reports success exactly if Jenkins would. What was
given up is said by the behaviour that the Jenkins build is run with: there is no `SAST`
stage, and what makes a build unstable makes a job fail. Its branch is read without the case
of letters, as the conditions of workflows read it. A review of staging, which no stage of
the Jenkinsfile stands for, is passed in these runs.
-/

namespace MigrationPlatform.Pipelines

/-- Nothing is unstable: what is not a success fails. -/
def strict (behave : Step → Outcome) (step : Step) : Outcome :=
  if behave step = .unstable then .failure else behave step

/-- A step that was left behind counts as a success. -/
def without (dropped : Step → Bool) (behave : Step → Outcome) (step : Step) : Outcome :=
  if dropped step then .success else behave step

theorem goes_strict {behave : Step → Outcome} {step : Step} :
    goes (strict behave) step = true ↔ strict behave step = .success := by
  unfold goes strict
  cases behave step <;> decide

theorem goes_without {dropped : Step → Bool} {behave : Step → Outcome} (step : Step) :
    goes (without dropped behave) step = (dropped step || goes behave step) := by
  unfold goes without
  cases dropped step <;> simp [Outcome.stops]

/-- Without unstable steps a list of steps succeeds if all of them go on. -/
theorem runSteps_strict {behave : Step → Outcome} (steps : List Step) :
    (runSteps (strict behave) steps).outcome = .success
      ↔ steps.all (goes (strict behave)) = true := by
  induction steps with
  | nil => simp [runSteps]
  | cons step steps ih =>
      unfold runSteps
      rw [List.all_cons, Bool.and_eq_true, goes_strict, ← ih]
      split
      · rename_i hstops
        constructor
        · intro h
          rw [show strict behave step = .success from h] at hstops
          cases hstops
        · intro h
          exact h.1
      · exact Outcome.worst_eq_success

/-! ## The steps of the jobs -/

def Job.steps : Job → List Step
  | .build => [.checkout, .build]
  | .unit => [.unit]
  | .lint => [.lint]
  | .image => [.image]
  | .review .production => [.approve]
  | .deploy target => [.deployHelm target, .smokeTest target]
  | _ => []

/-- The result of a job that runs, from its steps. -/
def Outcome.result : Outcome → Result
  | .success => .success
  | .aborted => .cancelled
  | _ => .failure

def jobResult (behave : Step → Outcome) (j : Job) : Result :=
  (runSteps (strict behave) j.steps).outcome.result

/-- A step is executed in a run: its job runs, and comes to it. -/
def Executed (behave : Step → Outcome) (s : Dag.State Job Result) (step : Step) : Prop :=
  ∃ j, (s.phase j).started = true ∧ reachedIn (strict behave) step j.steps = true

theorem jobResult_eq_success {behave : Step → Outcome} {j : Job} :
    jobResult behave j = .success ↔ j.steps.all (goes (strict behave)) = true := by
  rw [← runSteps_strict, jobResult]
  cases (runSteps (strict behave) j.steps).outcome <;> decide

theorem jobResult_ne_skipped (behave : Step → Outcome) (j : Job) :
    jobResult behave j ≠ .skipped := by
  unfold jobResult
  cases (runSteps (strict behave) j.steps).outcome <;> decide

/-- The order of the jobs. -/
def Job.rank : Job → Nat
  | .build => 0
  | .unit | .lint => 1
  | .test => 2
  | .image => 3
  | .review .staging => 4
  | .deploy .staging => 5
  | .review .production => 6
  | .deploy .production => 7
  | .notify => 8

theorem ranked_workflow (c : Context) : (workflow c).Ranked Job.rank := by
  intro j k hk
  have hall : ∀ j : Job, j.needs.all (fun k => k.rank < j.rank) = true := by
    intro j
    cases j with
    | review target => cases target <;> decide
    | deploy target => cases target <;> decide
    | _ => decide
  simpa using List.all_eq_true.mp (hall j) k hk

/-- The run for a build of the legacy pipeline. -/
def contextOf (service : Service) (b : Build) : Context where
  environment := b.environment
  skipTests := b.skipTests
  imageTagOverride := b.imageTagOverride
  ref := "refs/heads/" ++ b.branch
  sha := b.gitCommit
  service := service

/-- The job that has a step. -/
def Step.job : Step → Option Job
  | .checkout | .build => some .build
  | .unit => some .unit
  | .lint => some .lint
  | .sast => none
  | .image => some .image
  | .approve => some (.review .production)
  | .deployHelm target | .smokeTest target => some (.deploy target)

theorem mem_steps_iff {step : Step} {j : Job} : step ∈ j.steps ↔ step.job = some j := by
  cases j with
  | review target => cases target <;> cases step <;> simp [Job.steps, Step.job]
  | _ => cases step <;> simp [Job.steps, Step.job, eq_comm]

theorem mem_of_reachedIn {behave : Step → Outcome} {step : Step} {steps : List Step}
    (h : reachedIn behave step steps = true) : step ∈ steps := by
  induction steps with
  | nil => cases h
  | cons first steps ih =>
      unfold reachedIn at h
      rw [Bool.or_eq_true, decide_eq_true_eq, Bool.and_eq_true] at h
      rcases h with rfl | ⟨-, h⟩
      · exact List.mem_cons_self
      · exact List.mem_cons_of_mem first (ih h)

/-- A step is executed in its job only. -/
theorem executed_iff {behave : Step → Outcome} {s : Dag.State Job Result} {step : Step} {j : Job}
    (hj : step.job = some j) :
    Executed behave s step ↔
      (s.phase j).started = true ∧ reachedIn (strict behave) step j.steps = true := by
  constructor
  · intro ⟨k, hstarted, hreached⟩
    have hk := mem_steps_iff.mp (mem_of_reachedIn hreached)
    obtain rfl : j = k := Option.some.inj (hj.symm.trans hk)
    exact ⟨hstarted, hreached⟩
  · intro ⟨hstarted, hreached⟩
    exact ⟨j, hstarted, hreached⟩

/-! ## A run that is over -/

section Over

variable {service : Service} {b : Build} {behave : Step → Outcome} {s : Dag.State Job Result}
  (h : (workflow (contextOf service b)).Reachable (Dag.Obeys (jobResult behave)) s)
  (hover : Dag.Over (workflow (contextOf service b)) s)

include h hover

/-- Every job has what entering it on the results comes to. -/
theorem job_equation (j : Job) :
    s.result j = some ((enterJob (contextOf service b) false s.result j).getD (jobResult behave j))
      ∧ ((s.phase j).started = true ↔ enterJob (contextOf service b) false s.result j = none) :=
  hover.equation (ranked_workflow _) h j

theorem started_eq (j : Job) :
    (s.phase j).started = (enterJob (contextOf service b) false s.result j).isNone := by
  rw [Bool.eq_iff_iff, Option.isNone_iff_eq_none]
  exact (job_equation h hover j).2

/-- A working job succeeds if it runs and all its steps do. -/
theorem success_eq {j : Job} (hj : j.works = true) :
    (s.result j == some .success)
      = ((s.phase j).started && j.steps.all (goes (strict behave))) := by
  have hne := enterJob_ne_success (c := contextOf service b) hj false s.result
  rw [started_eq h hover, (job_equation h hover j).1, Bool.eq_iff_iff]
  cases henter : enterJob (contextOf service b) false s.result j with
  | none =>
      rw [Option.getD_none, Option.isNone_none, Bool.true_and, ← jobResult_eq_success]
      simp
  | some r =>
      have hr : r ≠ .success := fun he => hne (by rw [henter, he])
      simp [hr]

/-- The code was built. -/
abbrev built (behave : Step → Outcome) : Bool :=
  goes (strict behave) .checkout && goes (strict behave) .build

/-- The tests have passed, or were left out. -/
abbrev passed (b : Build) (behave : Step → Outcome) : Bool :=
  b.skipTests || (goes (strict behave) .unit && goes (strict behave) .lint)

theorem build_success : (s.result .build == some .success) = built behave := by
  rw [success_eq h hover rfl, started_eq h hover]
  simp [enterJob, Job.steps]

theorem started_test {j : Job} (hj : j = .unit ∨ j = .lint) :
    (s.phase j).started = (built behave && !b.skipTests) := by
  rw [started_eq h hover, ← build_success h hover]
  rcases hj with rfl | rfl
  · show (enterTest _ _ _ _).isNone = _
    unfold enterTest
    cases s.result .build == some .success <;> cases hskip : b.skipTests <;>
      simp [contextOf, hskip]
  · show (enterTest _ _ _ _).isNone = _
    unfold enterTest
    cases s.result .build == some .success <;> cases hskip : b.skipTests <;>
      simp [contextOf, hskip]

theorem test_result (hbuilt : built behave = true) {j : Job} (hj : j = .unit ∨ j = .lint) :
    s.result j = some (if b.skipTests then .skipped else jobResult behave j) := by
  have hbuild := (build_success h hover).trans hbuilt
  have henter : enterJob (contextOf service b) false s.result j
      = if !b.skipTests then none else some .skipped := by
    rcases hj with rfl | rfl
    · show enterTest _ _ _ _ = _
      unfold enterTest
      rw [hbuild]
      rfl
    · show enterTest _ _ _ _ = _
      unfold enterTest
      rw [hbuild]
      rfl
  rw [(job_equation h hover j).1, henter]
  cases b.skipTests <;> rfl

/-- The call of the tests lets the image through if they have passed, or were left out. -/
theorem call_passes (hbuilt : built behave = true) :
    (s.result .test == some .success || s.result .test == some .skipped) = passed b behave := by
  have hbuild := (build_success h hover).trans hbuilt
  have hresult : s.result .test = some (called service [s.result .unit, s.result .lint]) := by
    rw [(job_equation h hover .test).1]
    show some ((enterCall _ _).getD _) = _
    unfold enterCall
    rw [if_pos hbuild]
    rfl
  rw [hresult, test_result h hover hbuilt (.inl rfl), test_result h hover hbuilt (.inr rfl), passed]
  cases b.skipTests with
  | true =>
      have hcalled : called service [some .skipped, some .skipped] = service.allSkipped := rfl
      simp only [if_true, hcalled]
      rcases service.allSkipped_cases with he | he
      · rw [he]
        rfl
      · rw [he]
        rfl
  | false =>
      have hgoes : ∀ j step, j.steps = [step] →
          goes (strict behave) step = decide (jobResult behave j = .success) := by
        intro j step hj
        rw [Bool.eq_iff_iff, decide_eq_true_eq, jobResult_eq_success, hj]
        simp
      rw [hgoes .unit .unit rfl, hgoes .lint .lint rfl]
      have hunit := jobResult_ne_skipped behave .unit
      have hlint := jobResult_ne_skipped behave .lint
      generalize jobResult behave .unit = unit at hunit
      generalize jobResult behave .lint = lint at hlint
      cases unit <;> cases lint <;> first | rfl | exact absurd rfl hunit | exact absurd rfl hlint

theorem started_image : (s.phase .image).started = (built behave && passed b behave) := by
  rw [started_eq h hover]
  show (enterImage s.result).isNone = _
  unfold enterImage
  rw [build_success h hover]
  cases hbuilt : built behave with
  | false => rfl
  | true =>
      rw [call_passes h hover hbuilt]
      cases passed b behave <;> rfl

/-- Whether the image is there. -/
abbrev pushed (b : Build) (behave : Step → Outcome) : Bool :=
  built behave && passed b behave && goes (strict behave) .image

theorem image_success : (s.result .image == some .success) = pushed b behave := by
  rw [success_eq h hover rfl, started_image h hover]
  simp [Job.steps]

/-- The branch, as conditions see it. -/
abbrev onMain (b : Build) : Bool := b.branch.toList.map Char.toLower == "main".toList

omit h hover in
theorem sameText_ref : sameText ("refs/heads/" ++ b.branch) "refs/heads/main" = onMain b := by
  have hmain : "refs/heads/main".toList.map Char.toLower
      = "refs/heads/".toList.map Char.toLower ++ "main".toList := rfl
  unfold sameText onMain
  rw [String.toList_append, List.map_append, hmain, Bool.eq_iff_iff, beq_iff_eq, beq_iff_eq]
  exact Iff.of_eq (List.append_cancel_left_eq _ _ _)

/-- The review of a deployment whose condition holds. -/
theorem review_success {target : Target}
    (hcond : deployCondition (contextOf service b) s.result target = true) :
    (s.result (.review target) == some .success)
      = (!service.reviewed target || (Job.review target).steps.all (goes (strict behave))) := by
  rw [(job_equation h hover (.review target)).1]
  show (some ((enterReview _ _ _).getD _) == _) = _
  unfold enterReview
  rw [hcond]
  cases hreviewed : service.reviewed target with
  | false => simp [contextOf, hreviewed]
  | true =>
      rw [Bool.eq_iff_iff]
      simp [contextOf, hreviewed, jobResult_eq_success]

theorem started_review {target : Target} :
    (s.phase (.review target)).started
      = (deployCondition (contextOf service b) s.result target && service.reviewed target) := by
  rw [started_eq h hover]
  show (enterReview _ _ _).isNone = _
  unfold enterReview
  cases deployCondition (contextOf service b) s.result target <;>
    cases hreviewed : service.reviewed target <;> simp [contextOf, hreviewed]

theorem started_deploy {target : Target} :
    (s.phase (.deploy target)).started
      = (deployCondition (contextOf service b) s.result target
        && (!service.reviewed target
          || (Job.review target).steps.all (goes (strict behave)))) := by
  rw [started_eq h hover]
  show (enterDeploy _ _ _).isNone = _
  unfold enterDeploy
  cases hcond : deployCondition (contextOf service b) s.result target with
  | false => rfl
  | true =>
      rw [review_success h hover hcond]
      generalize (!service.reviewed target
        || (Job.review target).steps.all (goes (strict behave))) = good
      cases good with
      | true => rfl
      | false =>
          simp only [Bool.not_true, Bool.false_eq_true, if_false, Bool.and_false]
          split <;> rfl

/-- Staging is up, with the image of the build. -/
abbrev staged (b : Build) (behave : Step → Outcome) : Bool :=
  pushed b behave && onMain b && goes (strict behave) (.deployHelm .staging)
    && goes (strict behave) (.smokeTest .staging)

theorem condition_staging :
    deployCondition (contextOf service b) s.result .staging = (pushed b behave && onMain b) := by
  rw [← image_success h hover, ← sameText_ref]
  rfl

theorem condition_production :
    deployCondition (contextOf service b) s.result .production
      = (staged b behave && b.environment == .production) := by
  have hstaging : (s.result (.deploy .staging) == some .success) = staged b behave := by
    rw [success_eq h hover rfl, started_deploy h hover, condition_staging h hover]
    simp [Job.steps, Bool.and_assoc]
  rw [← hstaging]
  rfl

end Over

/-! ## The steps of the two pipelines -/

/-- What the migrated pipeline leaves behind: the scan, and the approval of an unreviewed
environment. -/
def leftBehind (service : Service) : Step → Bool
  | .sast => true
  | .approve => !service.reviewed .production
  | _ => false

/-- The build of the legacy pipeline, with its branch as conditions of workflows see it. -/
def lowerBranch (b : Build) : Build :=
  { b with branch := String.ofList (b.branch.toList.map Char.toLower) }

/-- The steps that both pipelines have. -/
def shared (service : Service) (step : Step) : Bool :=
  !leftBehind service step && step != .smokeTest .production

section Shared

variable (service : Service) (b : Build) (behave : Step → Outcome)

/-- How the steps end in the build that the run is compared with. -/
abbrev ported : Step → Outcome := without (leftBehind service) (strict behave)

theorem isBuilt_ported : isBuilt (ported service behave) = built behave := by
  simp only [isBuilt, goes_without, leftBehind, Bool.false_or]

theorem isTested_ported : isTested (ported service behave) (lowerBranch b) = passed b behave := by
  simp only [isTested, goes_without, leftBehind, Bool.false_or, Bool.true_or, Bool.and_true]
  rfl

theorem isPushed_ported : isPushed (ported service behave) (lowerBranch b) = pushed b behave := by
  simp only [isPushed, isBuilt_ported, isTested_ported, goes_without, leftBehind, Bool.false_or]

theorem branch_lowerBranch : ((lowerBranch b).branch == "main") = onMain b := by
  rw [Bool.eq_iff_iff, beq_iff_eq, onMain, beq_iff_eq, ← String.toList_inj]
  simp [lowerBranch]

theorem isStaged_ported : isStaged (ported service behave) (lowerBranch b) = staged b behave := by
  simp only [isStaged, isPushed_ported, branch_lowerBranch, goes_without, leftBehind, Bool.false_or]

end Shared

/-- **The same steps are executed** by a run that is over and by the build of the legacy
pipeline. -/
theorem executed_iff_mem {service : Service} {b : Build} {behave : Step → Outcome}
    {s : Dag.State Job Result}
    (h : (workflow (contextOf service b)).Reachable (Dag.Obeys (jobResult behave)) s)
    (hover : Dag.Over (workflow (contextOf service b)) s) {step : Step}
    (hstep : shared service step = true) :
    Executed behave s step
      ↔ step ∈ (runJenkins (ported service behave) (lowerBranch b)).executed := by
  rw [mem_executed, reached_stages]
  cases step with
  | checkout =>
      rw [executed_iff (j := .build) rfl, started_eq h hover]
      simp [enterJob, reachedIn, Job.steps, reaches]
  | build =>
      rw [executed_iff (j := .build) rfl, started_eq h hover]
      simp [enterJob, reachedIn, Job.steps, reaches, goes_without, leftBehind]
  | unit =>
      rw [executed_iff (j := .unit) rfl, started_test h hover (.inl rfl), reaches, isBuilt_ported]
      simp [reachedIn, Job.steps, lowerBranch]
  | lint =>
      rw [executed_iff (j := .lint) rfl, started_test h hover (.inr rfl), reaches, isBuilt_ported]
      simp [reachedIn, Job.steps, lowerBranch]
  | sast => cases hstep
  | image =>
      rw [executed_iff (j := .image) rfl, started_image h hover, reaches, isBuilt_ported,
        isTested_ported]
      simp [reachedIn, Job.steps]
  | deployHelm target =>
      rw [executed_iff (j := .deploy target) rfl, started_deploy h hover]
      cases target with
      | staging =>
          rw [condition_staging h hover, reaches, isPushed_ported, branch_lowerBranch]
          simp [reachedIn, Job.steps]
      | production =>
          rw [condition_production h hover, reaches, isStaged_ported, goes_without]
          simp [reachedIn, Job.steps, leftBehind, lowerBranch]
  | smokeTest target =>
      cases target with
      | staging =>
          rw [executed_iff (j := .deploy .staging) rfl, started_deploy h hover,
            condition_staging h hover, reaches, isPushed_ported, branch_lowerBranch, goes_without]
          simp [reachedIn, Job.steps, leftBehind]
      | production => simp [shared] at hstep
  | approve =>
      rw [executed_iff (j := .review .production) rfl, started_review h hover,
        condition_production h hover, reaches, isStaged_ported]
      have hreviewed : service.reviewed .production = true := by
        simpa [shared, leftBehind] using hstep
      simp [reachedIn, Job.steps, lowerBranch, hreviewed]

/-! ## The result of the run -/

theorem all_goes_of_reached {behave : Step → Outcome} {steps : List Step}
    (h : ∀ step, reachedIn behave step steps = true → goes behave step = true) :
    steps.all (goes behave) = true := by
  induction steps with
  | nil => rfl
  | cons first steps ih =>
      have hfirst := h first (by simp [reachedIn])
      rw [List.all_cons, hfirst, Bool.true_and]
      exact ih fun step hstep => h step (by simp [reachedIn, hfirst, hstep])

section Status

variable {service : Service} {b : Build} {behave : Step → Outcome} {s : Dag.State Job Result}
  (h : (workflow (contextOf service b)).Reachable (Dag.Obeys (jobResult behave)) s)
  (hover : Dag.Over (workflow (contextOf service b)) s)

include h

theorem reachable_ends : (workflow (contextOf service b)).Reachable Ends s := by
  refine Dag.Graph.Reachable.mono h fun s e hok => ?_
  cases e with
  | finish j r => exact fun he => jobResult_ne_skipped behave j (hok.symm.trans he)
  | _ => trivial

include hover

/-- A job that has run ends as its steps do. -/
theorem result_of_started {j : Job} (hj : (s.phase j).started = true) :
    s.result j = some (jobResult behave j) := by
  obtain ⟨hresult, hstarted⟩ := job_equation h hover j
  rw [hresult, hstarted.mp hj, Option.getD_none]

/-- A review that was asked for has to end well for its deployment to be no failure. -/
theorem review_of_deploy {target : Target} (hj : (s.phase (.review target)).started = true)
    (hgood : s.result (.deploy target) ≠ some .failure
      ∧ s.result (.deploy target) ≠ some .cancelled) :
    jobResult behave (.review target) = .success := by
  have hresult := result_of_started h hover hj
  rw [started_review h hover, Bool.and_eq_true] at hj
  have hdeploy := (job_equation h hover (.deploy target)).1
  have henter : enterJob (contextOf service b) false s.result (.deploy target)
      = enterDeploy (contextOf service b) s.result target := rfl
  rw [henter] at hdeploy
  unfold enterDeploy at hdeploy
  rw [hj.1, hresult] at hdeploy
  cases hreview : jobResult behave (.review target) with
  | success => rfl
  | failure => rw [hreview] at hdeploy; exact absurd hdeploy hgood.1
  | cancelled => rw [hreview] at hdeploy; exact absurd hdeploy hgood.2
  | skipped => exact absurd hreview (jobResult_ne_skipped behave _)

/-- What has been started has succeeded, if success is reported. -/
theorem jobResult_of_status (hstatus : runStatus s.result = .success) {j : Job}
    (hj : (s.phase j).started = true) : jobResult behave j = .success := by
  have hgood := runStatus_eq_success.mp hstatus
  have hresult := result_of_started h hover hj
  have hwaited : j ∈ Job.needs .notify → jobResult behave j = .success := by
    intro hmem
    have hj := hgood j hmem
    rw [hresult] at hj
    cases hr : jobResult behave j with
    | success => rfl
    | failure => exact absurd (by rw [hr]) hj.1
    | cancelled => exact absurd (by rw [hr]) hj.2
    | skipped => exact absurd hr (jobResult_ne_skipped behave j)
  have hcall : j = .unit ∨ j = .lint → jobResult behave j = .success := by
    intro hcases
    have hbuilt : built behave = true := by
      rw [started_test h hover hcases, Bool.and_eq_true] at hj
      exact hj.1
    have hbuild := beq_iff_eq.mp ((build_success h hover).trans hbuilt)
    have htest : s.result .test = some .success ∨ s.result .test = some .skipped := by
      obtain ⟨r, hr⟩ := hover.settled (ranked_workflow _) .test
      have ht := hgood .test (by decide)
      rw [hr] at ht ⊢
      cases r with
      | success => exact .inl rfl
      | failure => exact absurd rfl ht.1
      | cancelled => exact absurd rfl ht.2
      | skipped => exact .inr rfl
    rcases test_jobs (reachable_ends h) hbuild htest hcases with hsuccess | hskipped
    · exact Option.some.inj (hresult.symm.trans hsuccess)
    · exact absurd (Option.some.inj (hresult.symm.trans hskipped)) (jobResult_ne_skipped behave j)
  cases j with
  | unit => exact hcall (.inl rfl)
  | lint => exact hcall (.inr rfl)
  | review target =>
      exact review_of_deploy h hover hj (hgood (.deploy target) (by cases target <;> decide))
  | notify => rfl
  | deploy target => exact hwaited (by cases target <;> decide)
  | _ => exact hwaited (by decide)

/-- A deployment is left out, or runs, if its review ends well. -/
theorem deploy_of_jobs (hjob : ∀ j, (s.phase j).started = true → jobResult behave j = .success)
    (target : Target) :
    s.result (.deploy target) = some .success ∨ s.result (.deploy target) = some .skipped := by
  cases hcond : deployCondition (contextOf service b) s.result target with
  | false =>
      right
      rw [(job_equation h hover (.deploy target)).1]
      show some ((enterDeploy _ _ _).getD _) = _
      unfold enterDeploy
      rw [hcond]
      rfl
  | true =>
      left
      have hreview : (!service.reviewed target
          || (Job.review target).steps.all (goes (strict behave))) = true := by
        cases hreviewed : service.reviewed target with
        | false => rfl
        | true =>
            have hstarted : (s.phase (.review target)).started = true := by
              rw [started_review h hover, hcond, hreviewed]
              rfl
            rw [jobResult_eq_success.mp (hjob _ hstarted)]
            rfl
      have hstarted : (s.phase (.deploy target)).started = true := by
        rw [started_deploy h hover, hcond, hreview]
        rfl
      rw [result_of_started h hover hstarted, hjob _ hstarted]

/-- **Success is reported** exactly if every step that is executed succeeds. -/
theorem runStatus_iff :
    runStatus s.result = .success
      ↔ ∀ step, Executed behave s step → goes (strict behave) step = true := by
  constructor
  · intro hstatus step ⟨j, hstarted, hreached⟩
    have hall := jobResult_eq_success.mp (jobResult_of_status h hover hstatus hstarted)
    exact List.all_eq_true.mp hall step (mem_of_reachedIn hreached)
  · intro hall
    have hjob : ∀ j, (s.phase j).started = true → jobResult behave j = .success := by
      intro j hj
      rw [jobResult_eq_success]
      exact all_goes_of_reached fun step hstep => hall step ⟨j, hj, hstep⟩
    have hbuild : (s.phase .build).started = true := by
      rw [started_eq h hover]
      rfl
    have hbuilt : built behave = true := by
      rw [← build_success h hover, result_of_started h hover hbuild, hjob .build hbuild]
      rfl
    have hpassed : passed b behave = true := by
      cases hskip : b.skipTests with
      | true => simp [hskip]
      | false =>
          have hstarted : ∀ j, j = .unit ∨ j = .lint → (s.phase j).started = true := by
            intro j hj
            rw [started_test h hover hj, hbuilt, hskip]
            rfl
          have hunit := jobResult_eq_success.mp (hjob .unit (hstarted .unit (.inl rfl)))
          have hlint := jobResult_eq_success.mp (hjob .lint (hstarted .lint (.inr rfl)))
          simp only [Job.steps, List.all_cons, List.all_nil, Bool.and_true] at hunit hlint
          simp [hunit, hlint]
    have hsettled : ∀ j ∈ Job.needs .notify,
        s.result j = some .success ∨ s.result j = some .skipped := by
      have himage : (s.phase .image).started = true := by
        rw [started_image h hover, hbuilt, hpassed]
        rfl
      have htest := call_passes h hover hbuilt
      rw [hpassed, Bool.or_eq_true, beq_iff_eq, beq_iff_eq] at htest
      intro j hj
      simp only [Job.needs, List.mem_cons, List.not_mem_nil, or_false] at hj
      rcases hj with rfl | rfl | rfl | rfl | rfl
      · exact .inl (beq_iff_eq.mp ((build_success h hover).trans hbuilt))
      · exact htest
      · exact .inl (by rw [result_of_started h hover himage, hjob .image himage])
      · exact deploy_of_jobs h hover hjob .staging
      · exact deploy_of_jobs h hover hjob .production
    rw [runStatus_eq_success]
    intro j hj
    rcases hsettled j hj with hr | hr
    · rw [hr]
      exact ⟨by decide, by decide⟩
    · rw [hr]
      exact ⟨by decide, by decide⟩

end Status

theorem strict_eq_success {behave : Step → Outcome} {step : Step} :
    strict behave step = .success ↔ behave step = .success := by
  unfold strict
  split
  · rename_i hunstable
    simp [hunstable]
  · exact Iff.rfl

/--
**The migrated pipeline does what the legacy pipeline does.** When a run that was not
cancelled is over, in whatever order its jobs went: of the steps that both pipelines
have, exactly those were executed that Jenkins executes for the branch in small letters,
for every branch, parameter and behaviour of the steps, if unstable counts as failed and
what was left behind as passed; and success is reported exactly if that build succeeds,
and so does the smoke test of production, which only the migrated pipeline has. A review
that staging may require is passed.
-/
theorem migration_preserves {service : Service} {b : Build} {behave : Step → Outcome}
    {s : Dag.State Job Result}
    (h : (workflow (contextOf service b)).Reachable (Dag.Obeys (jobResult behave)) s)
    (hover : Dag.Over (workflow (contextOf service b)) s) :
    (∀ step, shared service step = true → (Executed behave s step
      ↔ step ∈ (runJenkins (ported service behave) (lowerBranch b)).executed))
    ∧ (runStatus s.result = .success
      ↔ (runJenkins (ported service behave) (lowerBranch b)).outcome = .success
        ∧ (Executed behave s (.smokeTest .production) →
          behave (.smokeTest .production) = .success)) := by
  refine ⟨fun step hstep => executed_iff_mem h hover hstep, ?_⟩
  rw [runStatus_iff h hover, outcome_eq_success]
  constructor
  · intro hall
    refine ⟨fun step hmem => ?_,
      fun hsmoke => strict_eq_success.mp (goes_strict.mp (hall _ hsmoke))⟩
    by_cases hleft : leftBehind service step = true
    · exact if_pos hleft
    · have hstep : shared service step = true := by
        have hne : step ≠ .smokeTest .production := by
          intro he
          rw [he, mem_executed, reached_stages] at hmem
          cases hmem
        simpa [shared, hne] using hleft
      have hgoes := hall step ((executed_iff_mem h hover hstep).mpr hmem)
      exact (if_neg hleft).trans (goes_strict.mp hgoes)
  · intro ⟨hall, hsmoke⟩ step hexecuted
    rw [goes_strict]
    by_cases hstep : shared service step = true
    · have hported := hall step ((executed_iff_mem h hover hstep).mp hexecuted)
      have hleft : ¬ leftBehind service step = true := by
        simp only [shared, Bool.and_eq_true, Bool.not_eq_true'] at hstep
        rw [hstep.1]
        exact Bool.false_ne_true
      exact (if_neg hleft).symm.trans hported
    · cases step with
      | smokeTest target =>
          cases target with
          | staging => exact absurd rfl hstep
          | production => exact strict_eq_success.mpr (hsmoke hexecuted)
      | sast =>
          obtain ⟨j, -, hreached⟩ := hexecuted
          cases mem_steps_iff.mp (mem_of_reachedIn hreached)
      | approve =>
          -- the review is not asked for
          have hstarted := ((executed_iff (j := .review .production) rfl).mp hexecuted).1
          rw [started_review h hover, Bool.and_eq_true] at hstarted
          exact absurd (by simp [shared, leftBehind, hstarted.2]) hstep
      | _ => exact absurd rfl hstep

/-! ## A release -/

def release : Build where
  branch := "main"
  environment := .production
  skipTests := false
  imageTagOverride := ""
  gitCommit := "3f2a1c9d8e7b6a5948372615"

theorem migration_preserves_release :
    ∃ s, Transition.run (workflow (contextOf guideService release)).step Dag.init
        (productionRun ++ [.finish .notify .success]) = some s
      ∧ (runStatus s.result = .success
        ↔ (runJenkins (ported guideService fun _ => .success) (lowerBranch release)).outcome
            = .success
          ∧ (Executed (fun _ => .success) s (.smokeTest .production) →
            Outcome.success = .success)) := by
  have hrun : Transition.run (workflow (contextOf guideService release)).step Dag.init
      (productionRun ++ [.finish .notify .success])
      = some ((Transition.run (workflow (contextOf guideService release)).step Dag.init
        (productionRun ++ [.finish .notify .success])).getD Dag.init) := rfl
  have hobeys : ∀ e ∈ productionRun ++ [.finish .notify .success], ∀ s,
      Dag.Obeys (jobResult fun _ => .success) s e := by
    have hjob : ∀ j, jobResult (fun _ => .success) j = .success := by
      intro j
      cases j with
      | review target => cases target <;> rfl
      | _ => rfl
    simp [productionRun, Dag.Obeys, hjob]
  refine ⟨_, hrun, (migration_preserves (Dag.Graph.reachable_of_run (.init rfl) hobeys hrun) ?_).2⟩
  intro j
  cases j with
  | review target => cases target <;> exact ⟨rfl, fun he => by cases he⟩
  | deploy target => cases target <;> exact ⟨rfl, fun he => by cases he⟩
  | _ => exact ⟨rfl, fun he => by cases he⟩

end MigrationPlatform.Pipelines
