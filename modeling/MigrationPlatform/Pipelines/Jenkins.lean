import Mathlib.Data.List.Basic

/-!
# The legacy pipeline

`legacy/jenkins/Jenkinsfile`: the stages of a declarative pipeline, with their `when`
conditions and parallel branches, and what a run of them executes. A stage is left out
when its condition fails, and when a stage before it has failed; the branches of a
parallel stage all run.

How a step ends is a parameter, since that depends on the service that is built. The
other pipelines of the repository run the same steps.
-/

namespace MigrationPlatform.Pipelines

/-- The choices of `ENVIRONMENT`. -/
inductive Target where
  | staging
  | production
deriving DecidableEq, Repr

/-- What the pipelines do for the service, step by step. -/
inductive Step where
  | checkout
  | build
  | unit
  | lint
  | sast
  | image
  | deployHelm (target : Target)
  | smokeTest (target : Target)
  /-- `input`, and what stands in for it. -/
  | approve
deriving DecidableEq, Repr

/-- The result of a step, or of a build. -/
inductive Outcome where
  | success
  | unstable
  | failure
  | aborted
deriving DecidableEq, Repr

namespace Outcome

/-- The stages behind it are left out. -/
def stops : Outcome → Bool
  | .success | .unstable => false
  | .failure | .aborted => true

/-- How bad an outcome is. -/
def rank : Outcome → Nat
  | .success => 0
  | .unstable => 1
  | .failure => 2
  | .aborted => 3

/-- A build is as bad as the worst of its steps. -/
def worst (a b : Outcome) : Outcome := if a.rank ≤ b.rank then b else a

@[simp] theorem stops_worst (a b : Outcome) : (a.worst b).stops = (a.stops || b.stops) := by
  cases a <;> cases b <;> rfl

theorem worst_eq_success {a b : Outcome} : a.worst b = .success ↔ a = .success ∧ b = .success := by
  cases a <;> cases b <;> decide

end Outcome

/-- What a build is started with. -/
structure Build where
  branch : String
  environment : Target
  skipTests : Bool
  imageTagOverride : String
  gitCommit : String

/-- A stage, or several in parallel, each with its steps. -/
structure Stage where
  when : Build → Bool
  branches : List (List Step)

/-- `stages` of the Jenkinsfile. -/
def stages : List Stage := [
  { when := fun _ => true, branches := [[.checkout]] },
  { when := fun _ => true, branches := [[.build]] },
  { when := fun b => !b.skipTests, branches := [[.unit], [.lint], [.sast]] },
  { when := fun _ => true, branches := [[.image]] },
  { when := fun b => b.branch == "main",
    branches := [[.deployHelm .staging, .smokeTest .staging]] },
  { when := fun b => b.branch == "main" && b.environment == .production,
    branches := [[.approve]] },
  { when := fun b => b.branch == "main" && b.environment == .production,
    branches := [[.deployHelm .production]] }]

/-- What has been executed, and the result so far. -/
structure Progress where
  executed : List Step
  outcome : Outcome

/-- The steps of a stage, up to the first one that fails. -/
def runSteps (behave : Step → Outcome) : List Step → Progress
  | [] => ⟨[], .success⟩
  | step :: steps =>
      if (behave step).stops then ⟨[step], behave step⟩
      else
        let rest := runSteps behave steps
        ⟨step :: rest.executed, (behave step).worst rest.outcome⟩

/-- One stage. -/
def runStage (behave : Step → Outcome) (b : Build) (p : Progress) (stage : Stage) : Progress :=
  if p.outcome.stops || !stage.when b then p
  else
    let branches := stage.branches.map (runSteps behave)
    ⟨p.executed ++ branches.flatMap Progress.executed,
      branches.foldl (fun outcome branch => outcome.worst branch.outcome) p.outcome⟩

/-- A build. -/
def runJenkins (behave : Step → Outcome) (b : Build) : Progress :=
  stages.foldl (runStage behave b) ⟨[], .success⟩

/-! ## What a build executes -/

section Executed

variable (behave : Step → Outcome) (b : Build)

/-- The steps behind a step are executed. -/
def goes (step : Step) : Bool := !(behave step).stops

/-- A step is reached in a list of steps. -/
def reachedIn (step : Step) : List Step → Bool
  | [] => false
  | first :: steps => decide (step = first) || (goes behave first && reachedIn step steps)

/-- The stages behind a stage are executed. -/
def Stage.passes (stage : Stage) : Bool :=
  !stage.when b || stage.branches.all fun steps => steps.all (goes behave)

/-- A step is reached in a list of stages. -/
def reached (step : Step) : List Stage → Bool
  | [] => false
  | stage :: rest =>
      (stage.when b && stage.branches.any (reachedIn behave step))
        || (stage.passes behave b && reached step rest)

theorem mem_runSteps {step : Step} {steps : List Step} :
    step ∈ (runSteps behave steps).executed ↔ reachedIn behave step steps = true := by
  induction steps with
  | nil => simp [runSteps, reachedIn]
  | cons first steps ih =>
      unfold runSteps reachedIn goes
      cases hstops : (behave first).stops
      · simp [ih]
      · simp

theorem stops_runSteps (steps : List Step) :
    (runSteps behave steps).outcome.stops = !steps.all (goes behave) := by
  induction steps with
  | nil => rfl
  | cons first steps ih =>
      unfold runSteps
      rw [List.all_cons, goes]
      cases hstops : (behave first).stops
      · simp [hstops, ih]
      · simp [hstops]

theorem stops_foldl_worst (outcome : Outcome) (branches : List Progress) :
    (branches.foldl (fun outcome branch => outcome.worst branch.outcome) outcome).stops
      = (outcome.stops || branches.any fun branch => branch.outcome.stops) := by
  induction branches generalizing outcome with
  | nil => simp
  | cons branch branches ih =>
      rw [List.foldl_cons, ih, Outcome.stops_worst, List.any_cons, Bool.or_assoc]

theorem stops_runStage (p : Progress) (stage : Stage) :
    (runStage behave b p stage).outcome.stops
      = (p.outcome.stops || !stage.passes behave b) := by
  unfold runStage Stage.passes
  cases hstops : p.outcome.stops
  · cases hwhen : stage.when b
    · simp [hstops]
    · simp [hstops, stops_foldl_worst, stops_runSteps, List.any_map, List.not_all_eq_any_not,
        Function.comp_def]
  · simp [hstops]

theorem mem_runStage {step : Step} (p : Progress) (stage : Stage) :
    step ∈ (runStage behave b p stage).executed ↔ step ∈ p.executed
      ∨ (p.outcome.stops = false ∧ stage.when b = true
        ∧ stage.branches.any (reachedIn behave step) = true) := by
  unfold runStage
  cases hstops : p.outcome.stops
  · cases hwhen : stage.when b
    · simp
    · simp [mem_runSteps, List.any_eq_true]
  · simp

/-- The stages of a build from some point on. -/
theorem mem_foldl_runStage {step : Step} (stages : List Stage) (p : Progress) :
    step ∈ (stages.foldl (runStage behave b) p).executed ↔ step ∈ p.executed
      ∨ (p.outcome.stops = false ∧ reached behave b step stages = true) := by
  induction stages generalizing p with
  | nil => simp [reached]
  | cons stage stages ih =>
      rw [List.foldl_cons, ih, mem_runStage, stops_runStage, reached]
      cases p.outcome.stops <;> cases stage.passes behave b <;> cases stage.when b <;>
        simp [or_assoc]

/-- **What a build executes**: the steps that are reached. -/
theorem mem_executed {step : Step} :
    step ∈ (runJenkins behave b).executed ↔ reached behave b step stages = true := by
  rw [runJenkins, mem_foldl_runStage]
  simp [Outcome.stops]

/-- The result of a build is what its steps have come to. -/
def Progress.Honest (p : Progress) : Prop :=
  p.outcome = .success ↔ ∀ step ∈ p.executed, behave step = .success

theorem honest_runSteps (steps : List Step) : (runSteps behave steps).Honest behave := by
  unfold Progress.Honest
  induction steps with
  | nil => simp [runSteps]
  | cons first steps ih =>
      unfold runSteps
      split
      · simp
      · simp [Outcome.worst_eq_success, ih]

theorem foldl_worst_eq_success (outcome : Outcome) (branches : List Progress) :
    branches.foldl (fun outcome branch => outcome.worst branch.outcome) outcome = .success
      ↔ outcome = .success ∧ ∀ branch ∈ branches, branch.outcome = .success := by
  induction branches generalizing outcome with
  | nil => simp
  | cons branch branches ih =>
      rw [List.foldl_cons, ih, Outcome.worst_eq_success, List.forall_mem_cons, and_assoc]

theorem honest_runStage {p : Progress} (h : p.Honest behave) (stage : Stage) :
    (runStage behave b p stage).Honest behave := by
  unfold runStage
  split
  · exact h
  · unfold Progress.Honest
    simp only [foldl_worst_eq_success, List.forall_mem_append, List.mem_flatMap, List.mem_map]
    refine and_congr h ?_
    constructor
    · intro hall step ⟨branch, ⟨steps, hsteps, he⟩, hmem⟩
      subst he
      exact (honest_runSteps behave steps).mp (hall _ ⟨steps, hsteps, rfl⟩) step hmem
    · intro hall branch ⟨steps, hsteps, he⟩
      subst he
      exact (honest_runSteps behave steps).mpr fun step hmem =>
        hall step ⟨_, ⟨steps, hsteps, rfl⟩, hmem⟩

/-- **A build succeeds** exactly if all the steps that it executes do. -/
theorem outcome_eq_success :
    (runJenkins behave b).outcome = .success
      ↔ ∀ step ∈ (runJenkins behave b).executed, behave step = .success := by
  have hrun : ∀ (stages : List Stage) (p : Progress), p.Honest behave →
      (stages.foldl (runStage behave b) p).Honest behave := by
    intro stages
    induction stages with
    | nil => exact fun p h => h
    | cons stage stages ih => exact fun p h => ih _ (honest_runStage behave b h stage)
  exact hrun stages ⟨[], .success⟩ (by simp [Progress.Honest])

/-! ## The stages of this pipeline -/

/-- The code is built. -/
def isBuilt : Bool := goes behave .checkout && goes behave .build

/-- The tests have passed, or are left out. -/
def isTested : Bool :=
  b.skipTests || (goes behave .unit && goes behave .lint && goes behave .sast)

/-- The image is in the registry. -/
def isPushed : Bool := isBuilt behave && isTested behave b && goes behave .image

/-- The image is deployed to staging, and up. -/
def isStaged : Bool :=
  isPushed behave b && b.branch == "main" && goes behave (.deployHelm .staging)
    && goes behave (.smokeTest .staging)

/-- What has to hold for a step to be executed. -/
def reaches : Step → Bool
  | .checkout => true
  | .build => goes behave .checkout
  | .unit | .lint | .sast => isBuilt behave && !b.skipTests
  | .image => isBuilt behave && isTested behave b
  | .deployHelm .staging => isPushed behave b && b.branch == "main"
  | .smokeTest .staging =>
      isPushed behave b && b.branch == "main" && goes behave (.deployHelm .staging)
  | .approve => isStaged behave b && b.environment == .production
  | .deployHelm .production =>
      isStaged behave b && b.environment == .production && goes behave .approve
  | .smokeTest .production => false

/-- **Every step of the Jenkinsfile is reached** under its condition. -/
theorem reached_stages (step : Step) : reached behave b step stages = reaches behave b step := by
  simp only [stages, reached, reachedIn, Stage.passes, List.any_cons, List.any_nil, List.all_cons,
    List.all_nil]
  cases step with
  | deployHelm target =>
      cases target with
      | staging => simp [reaches, isPushed, isBuilt, isTested, Bool.and_assoc]
      | production =>
          -- the branch is asked for at every stage
          simp only [reaches, isStaged, isPushed, isBuilt, isTested]
          cases b.branch == "main" <;> cases b.environment == .production <;>
            simp [Bool.and_assoc]
  | smokeTest target =>
      cases target <;> simp [reaches, isPushed, isBuilt, isTested, Bool.and_assoc]
  | approve =>
      simp only [reaches, isStaged, isPushed, isBuilt, isTested]
      cases b.branch == "main" <;> cases b.environment == .production <;>
        simp [Bool.and_assoc]
  | _ => simp [reaches, isBuilt, isTested, Bool.and_assoc]

end Executed

end MigrationPlatform.Pipelines
