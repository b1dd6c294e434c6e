import Mathlib.Data.List.TakeDrop
import MigrationPlatform.Lib.Dag
import MigrationPlatform.Pipelines.Jenkins

/-!
# The migrated pipeline

`.github/workflows/orders-api-pipeline.yml` with the reusable workflows that it calls:
the jobs, what they wait for, and their conditions, in the semantics of workflow files.
A job that is called stands for its caller, but for `test`, which has two and takes its
result from theirs. What a deployment waits for in its environment, the review, is a job
here that ends as the reviewers decide.

Conditions with `always()` are not affected by a cancelled run, the others come with
`success()` and are. What the service reports for a job that it does not start in a
cancelled run, and for a call whose jobs are all skipped, is a parameter.
-/

namespace MigrationPlatform.Pipelines

/-- A text, as a list of its characters. -/
abbrev Text := List Char

/-- `needs.<job>.result`. -/
inductive Result where
  | success
  | failure
  | cancelled
  | skipped
deriving DecidableEq, Repr

inductive Job where
  | build
  | unit
  | lint
  | test
  | image
  /-- The review that an environment may require. -/
  | review (target : Target)
  | deploy (target : Target)
  | notify
deriving DecidableEq, Repr

/-- What is set up outside the files, and what is left open by the service. -/
structure Service where
  /-- The environment has required reviewers. -/
  reviewed : Target → Bool
  /-- The result of a job that a cancelled run does not start. -/
  unstarted : Job → Result
  unstarted_cases : ∀ j, unstarted j = .cancelled ∨ unstarted j = .skipped
  /-- The result of a call whose jobs are all skipped. -/
  allSkipped : Result
  allSkipped_cases : allSkipped = .skipped ∨ allSkipped = .success

/-- `inputs`, what the run has of `github`, and the service. -/
structure Context where
  environment : Target
  skipTests : Bool
  imageTagOverride : String
  ref : String
  sha : String
  service : Service

/-- `==` on strings, which does not see the case of letters. -/
def sameText (a b : String) : Bool :=
  a.toList.map Char.toLower == b.toList.map Char.toLower

/-- What a job waits for. -/
def Job.needs : Job → List Job
  | .build => []
  | .unit | .lint => [.build]
  | .test => [.build, .unit, .lint]
  | .image => [.build, .test]
  | .review .staging => [.build, .image]
  | .deploy .staging => [.build, .image, .review .staging]
  | .review .production => [.build, .deploy .staging]
  | .deploy .production => [.build, .deploy .staging, .review .production]
  | .notify => [.build, .test, .image, .deploy .staging, .deploy .production]

/-- The results that a job looks at. -/
abbrev Results := Job → Option Result

/-- The result of a called workflow, from those of its jobs. -/
def called (service : Service) (results : List (Option Result)) : Result :=
  if results.contains (some .failure) then .failure
  else if results.contains (some .cancelled) then .cancelled
  else if results.all (· == some .skipped) then service.allSkipped
  else .success

/-- The `if` of a deployment. -/
def deployCondition (c : Context) (f : Results) : Target → Bool
  | .staging => f .image == some .success && sameText c.ref "refs/heads/main"
  | .production => f (.deploy .staging) == some .success && c.environment == .production

/-- A job of `reusable-test.yml`, called by `test`. -/
def enterTest (c : Context) (cancelled : Bool) (f : Results) (j : Job) : Option Result :=
  if cancelled then some (c.service.unstarted j)
  else if f .build == some .success && !c.skipTests then none
  else some .skipped

/-- `test` itself, which has the result of its jobs. -/
def enterCall (c : Context) (f : Results) : Option Result :=
  if f .build == some .success then some (called c.service [f .unit, f .lint]) else some .skipped

def enterImage (f : Results) : Option Result :=
  if f .build == some .success && (f .test == some .success || f .test == some .skipped) then none
  else some .skipped

def enterReview (c : Context) (f : Results) (target : Target) : Option Result :=
  if !deployCondition c f target then some .skipped
  else if c.service.reviewed target then none
  else some .success

def enterDeploy (c : Context) (f : Results) (target : Target) : Option Result :=
  if !deployCondition c f target then some .skipped
  else if f (.review target) == some .success then none
  else if f (.review target) == some .cancelled then some .cancelled
  else some .failure

/-- What becomes of a job once what it waits for is settled: it runs, or it has a result. -/
def enterJob (c : Context) (cancelled : Bool) (f : Results) : Job → Option Result
  | .build => if cancelled then some (c.service.unstarted .build) else none
  | .unit => enterTest c cancelled f .unit
  | .lint => enterTest c cancelled f .lint
  | .test => enterCall c f
  | .image => enterImage f
  | .review target => enterReview c f target
  | .deploy target => enterDeploy c f target
  | .notify => none

/-- The workflow as a job graph. -/
def workflow (c : Context) : Dag.Graph Job Result where
  needs := Job.needs
  enter := fun j cancelled f => enterJob c cancelled f j
  enter_congr := by
    intro j cancelled f g h
    cases j with
    | review target =>
        cases target <;> simp_all [Job.needs, enterJob, enterReview, deployCondition]
    | deploy target =>
        cases target <;> simp_all [Job.needs, enterJob, enterDeploy, deployCondition]
    | _ => simp_all [Job.needs, enterJob, enterTest, enterCall, enterImage]

/-! ## The tag of the image -/

/-- The output `short-sha` of `reusable-build.yml`. -/
def shortSha (c : Context) (f : Results) : Text :=
  if f .build == some .success then c.sha.toList.take 12 else []

/-- `inputs.image-tag-override || needs.build.outputs.short-sha`, for `image` and the
deployments. -/
def imageTag (c : Context) (f : Results) : Text :=
  if c.imageTagOverride.toList.isEmpty then shortSha c f else c.imageTagOverride.toList

/-- A job that runs does not end as skipped; anything else can happen at any time. -/
def Ends (_ : Dag.State Job Result) : Dag.Event Job Result → Prop
  | .finish _ r => r ≠ .skipped
  | _ => True

section Runs

variable {c : Context} {s : Dag.State Job Result}

/-- The jobs that only succeed by running. -/
def Job.works : Job → Bool
  | .build | .unit | .lint | .image | .deploy _ => true
  | _ => false

theorem enterJob_ne_success {j : Job} (hj : j.works = true) (cancelled : Bool) (f : Results) :
    enterJob c cancelled f j ≠ some .success := by
  have hunstarted : ∀ j, c.service.unstarted j ≠ .success := by
    intro j he
    rcases c.service.unstarted_cases j with h | h
    · rw [h] at he
      cases he
    · rw [h] at he
      cases he
  have htest : ∀ j, enterTest c cancelled f j ≠ some .success := by
    intro j
    unfold enterTest
    split
    · exact fun he => hunstarted j (Option.some.inj he)
    · split <;> simp
  cases j with
  | build =>
      cases cancelled with
      | false => exact fun he => by cases he
      | true => exact fun he => hunstarted .build (Option.some.inj he)
  | unit => exact htest .unit
  | lint => exact htest .lint
  | image =>
      show enterImage f ≠ _
      unfold enterImage
      split <;> simp
  | deploy target =>
      show enterDeploy c f target ≠ _
      unfold enterDeploy
      split
      · simp
      · split
        · simp
        · split <;> simp
  | test => cases hj
  | review target => cases hj
  | notify => cases hj

/-- **A job that has succeeded has run.** -/
theorem ended_of_success (h : (workflow c).Reachable Ends s) {j : Job} (hj : j.works = true)
    (hresult : s.result j = some .success) : s.phase j = .ended .success := by
  rcases Dag.result_eq_some.mp hresult with hended | hpassed
  · exact hended
  · obtain ⟨-, b, -, henter⟩ := h.sound.of_passed hpassed
    exact absurd henter (enterJob_ne_success hj b s.result)

theorem passed_of_skipped (h : (workflow c).Reachable Ends s) {j : Job}
    (hresult : s.result j = some .skipped) : s.phase j = .passed .skipped := by
  rcases Dag.result_eq_some.mp hresult with hended | hpassed
  · exact absurd rfl (h.ended (fun _ r => r ≠ .skipped) (fun _ _ _ hok => hok) hended)
  · exact hpassed

/-- A called workflow that has not failed has no job that has. -/
theorem called_cases {service : Service} {results : List (Option Result)}
    (h : called service results = .success ∨ called service results = .skipped) :
    some .failure ∉ results ∧ some .cancelled ∉ results := by
  unfold called at h
  split at h
  · rcases h with h | h <;> cases h
  · rename_i hfailure
    split at h
    · rcases h with h | h <;> cases h
    · rename_i hcancelled
      exact ⟨by simpa using hfailure, by simpa using hcancelled⟩

/-- The call does not run by itself, so its result is that of its jobs. -/
theorem test_passed (h : (workflow c).Reachable Ends s) {r : Result}
    (htest : s.result .test = some r) :
    (∀ j ∈ Job.needs .test, (s.result j).isSome = true) ∧ enterCall c s.result = some r := by
  rcases Dag.result_eq_some.mp htest with hended | hpassed
  · obtain ⟨-, b, -, henter⟩ := h.sound.of_started (j := .test) (by rw [hended]; rfl)
    have henter : enterCall c s.result = none := henter
    unfold enterCall at henter
    split at henter <;> cases henter
  · obtain ⟨hneeds, b, -, henter⟩ := h.sound.of_passed hpassed
    exact ⟨hneeds, henter⟩

/-- Both test jobs have ended well, or been skipped, if the call has. -/
theorem test_jobs (h : (workflow c).Reachable Ends s) (hbuild : s.result .build = some .success)
    (htest : s.result .test = some .success ∨ s.result .test = some .skipped)
    {j : Job} (hj : j = .unit ∨ j = .lint) :
    s.result j = some .success ∨ s.result j = some .skipped := by
  obtain ⟨r, hr, hgood⟩ : ∃ r, s.result .test = some r ∧ (r = .success ∨ r = .skipped) := by
    rcases htest with htest | htest
    · exact ⟨_, htest, .inl rfl⟩
    · exact ⟨_, htest, .inr rfl⟩
  obtain ⟨hneeds, henter⟩ := test_passed h hr
  unfold enterCall at henter
  rw [if_pos (beq_iff_eq.mpr hbuild)] at henter
  obtain ⟨hfailure, hcancelled⟩ := called_cases (Option.some.inj henter ▸ hgood)
  have hmem : j ∈ Job.needs .test ∧ s.result j ∈ [s.result .unit, s.result .lint] := by
    rcases hj with rfl | rfl
    · simp [Job.needs]
    · simp [Job.needs]
  obtain ⟨rj, hrj⟩ := Option.isSome_iff_exists.mp (hneeds j hmem.1)
  rw [hrj] at hmem ⊢
  cases rj with
  | success => exact .inl rfl
  | failure => exact absurd hmem.2 hfailure
  | cancelled => exact absurd hmem.2 hcancelled
  | skipped => exact .inr rfl

/-- A deployment runs on its condition, and on the review of its environment. -/
theorem deploy_started (h : (workflow c).Reachable Ends s) {target : Target}
    (hj : (s.phase (.deploy target)).started = true) :
    deployCondition c s.result target = true
      ∧ s.result (.review target) = some .success := by
  obtain ⟨-, b, -, henter⟩ := h.sound.of_started hj
  have henter : enterDeploy c s.result target = none := henter
  unfold enterDeploy at henter
  split at henter
  · cases henter
  · rename_i hcond
    split at henter
    · rename_i hreview
      exact ⟨by simpa using hcond, beq_iff_eq.mp hreview⟩
    · split at henter <;> cases henter

end Runs

/-- An environment with reviewers for production, and a service that reports what it cancels. -/
def guideService : Service where
  reviewed := (· == .production)
  unstarted := fun _ => .cancelled
  unstarted_cases := fun _ => .inl rfl
  allSkipped := .skipped
  allSkipped_cases := .inl rfl

def productionContext : Context where
  environment := .production
  skipTests := false
  imageTagOverride := ""
  ref := "refs/heads/main"
  sha := "3f2a1c9d8e7b6a5948372615"
  service := guideService

/-- A run of all jobs, with the test jobs side by side. -/
def productionRun : List (Dag.Event Job Result) := [
  .enter .build, .finish .build .success, .enter .lint, .enter .unit, .finish .unit .success,
  .finish .lint .success, .enter .test, .enter .image, .finish .image .success,
  .enter (.review .staging), .enter (.deploy .staging), .finish (.deploy .staging) .success,
  .enter (.review .production), .finish (.review .production) .success,
  .enter (.deploy .production), .finish (.deploy .production) .success, .enter .notify]

theorem productionRun_ends : ∀ e ∈ productionRun, ∀ s, Ends s e := by
  simp [productionRun, Ends]

end MigrationPlatform.Pipelines
