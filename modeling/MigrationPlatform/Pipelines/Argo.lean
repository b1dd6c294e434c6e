import MigrationPlatform.Pipelines.InCluster

/-!
# The Argo template

The `pipeline` of `workflows/argo/build-test-deploy.yaml`, a DAG with `failFast`. A task
is entered on its `depends` expression, which looks at the results of other tasks, and
then on its `when`. The approval is a task of its own that is suspended until somebody
resumes it.
-/

namespace MigrationPlatform.Pipelines.Argo

inductive Task where
  | clone
  | build
  | unitTest
  | lint
  | image
  | deployStaging
  | approveProduction
  | deployProduction
deriving DecidableEq, Repr

inductive Result where
  | succeeded
  | failed
  | errored
  /-- By its `when`. -/
  | skipped
  /-- Its `depends` does not hold, or another task has failed. -/
  | omitted
deriving DecidableEq, Repr

def Result.bad : Result → Bool
  | .succeeded | .skipped => false
  | _ => true

/-- `arguments.parameters` that conditions look at, with what their `enum` allows. -/
structure Params where
  environment : Target
  skipTests : Bool

/-- A `depends` expression. -/
inductive Depends where
  | nothing
  /-- A task without a result: it has succeeded or was skipped. -/
  | done (t : Task)
  | succeeded (t : Task)
  | skipped (t : Task)
  | both (d e : Depends)
  | either (d e : Depends)

namespace Depends

def tasks : Depends → List Task
  | nothing => []
  | done t | succeeded t | skipped t => [t]
  | both d e | either d e => d.tasks ++ e.tasks

def eval (f : Task → Option Result) : Depends → Bool
  | nothing => true
  | done t => f t == some .succeeded || f t == some .skipped
  | succeeded t => f t == some .succeeded
  | skipped t => f t == some .skipped
  | both d e => d.eval f && e.eval f
  | either d e => d.eval f || e.eval f

theorem eval_congr {f g : Task → Option Result} {d : Depends} (h : ∀ t ∈ d.tasks, f t = g t) :
    d.eval f = d.eval g := by
  induction d with
  | nothing => rfl
  | done t => simp only [eval, h t (List.mem_singleton.mpr rfl)]
  | succeeded t => simp only [eval, h t (List.mem_singleton.mpr rfl)]
  | skipped t => simp only [eval, h t (List.mem_singleton.mpr rfl)]
  | both d e ihd ihe =>
      simp only [eval, ihd fun t ht => h t (List.mem_append_left _ ht),
        ihe fun t ht => h t (List.mem_append_right _ ht)]
  | either d e ihd ihe =>
      simp only [eval, ihd fun t ht => h t (List.mem_append_left _ ht),
        ihe fun t ht => h t (List.mem_append_right _ ht)]

end Depends

/-- `depends` of the tasks. -/
def Task.depends : Task → Depends
  | .clone => .nothing
  | .build => .done .clone
  | .unitTest | .lint => .done .build
  | .image => .both (.either (.succeeded .unitTest) (.skipped .unitTest))
      (.either (.succeeded .lint) (.skipped .lint))
  | .deployStaging => .done .image
  | .approveProduction => .done .deployStaging
  | .deployProduction => .done .approveProduction

/-- `when` of the tasks. -/
def Task.when (p : Params) : Task → Bool
  | .unitTest | .lint => p.skipTests != true
  | .approveProduction | .deployProduction => p.environment == .production
  | _ => true

/-- What the template of a task does. -/
def Task.step : Task → Step
  | .clone => .checkout
  | .build => .build
  | .unitTest => .unit
  | .lint => .lint
  | .image => .image
  | .deployStaging => .deployHelm .staging
  | .approveProduction => .approve
  | .deployProduction => .deployHelm .production

/-- What becomes of a task once what it depends on is settled. -/
def enterTask (p : Params) (failedFast : Bool) (f : Task → Option Result) (t : Task) :
    Option Result :=
  if failedFast || !t.depends.eval f then some .omitted
  else if t.when p then none
  else some .skipped

def template (p : Params) : Dag.Graph Task Result where
  needs := fun t => t.depends.tasks
  enter := fun t failedFast f => enterTask p failedFast f t
  enter_congr := by
    intro t failedFast f g hneeds
    simp only [enterTask, Depends.eval_congr hneeds]

/-! ## What the expressions come to -/

/-- Every expression of the template asks that what it looks at has succeeded or was skipped. -/
theorem eval_iff {f : Task → Option Result} (t : Task) :
    t.depends.eval f = true ↔ ∀ k ∈ t.depends.tasks, ∃ r, f k = some r ∧ r.bad = false := by
  have hgood : ∀ k, (f k == some .succeeded || f k == some .skipped) = true
      ↔ ∃ r, f k = some r ∧ r.bad = false := by
    intro k
    cases f k with
    | none => simp
    | some r => cases r <;> simp [Result.bad]
  cases t with
  | clone => simp [Task.depends, Depends.eval, Depends.tasks]
  | image => simp [Task.depends, Depends.eval, Depends.tasks, hgood, or_imp, forall_and]
  | _ => simp [Task.depends, Depends.eval, Depends.tasks, hgood]

theorem gated_template (p : Params) : Dag.Gated (template p) Result.bad (Task.when p) := by
  have hbad : Result.bad .omitted = true ∧ Result.bad .skipped = false := ⟨rfl, rfl⟩
  refine Dag.Gated.of_enter (fun t f => !t.depends.eval f) hbad.1 hbad.2 (fun _ _ _ => rfl) ?_ ?_
  · intro t f k r hk hr hbad
    cases heval : t.depends.eval f with
    | false => rfl
    | true =>
        obtain ⟨r', hr', hgood⟩ := (eval_iff t).mp heval k hk
        obtain rfl := Option.some.inj (hr.symm.trans hr')
        rw [hbad] at hgood
        cases hgood
  · intro t f hgood
    rw [(eval_iff t).mpr hgood]
    rfl

def Task.rank : Task → Nat
  | .clone => 0
  | .build => 1
  | .unitTest | .lint => 2
  | .image => 3
  | .deployStaging => 4
  | .approveProduction => 5
  | .deployProduction => 6

theorem ranked_template (p : Params) : (template p).Ranked Task.rank := by
  intro t k hk
  have hall : ∀ t : Task, t.depends.tasks.all (fun k => k.rank < t.rank) = true := by
    intro t
    cases t <;> decide
  simpa using List.all_eq_true.mp (hall t) k hk

/-- A task that does not run is left out or skipped. -/
theorem enterTask_cases {p : Params} {failedFast : Bool} {f : Task → Option Result} {t : Task}
    {r : Result} (h : enterTask p failedFast f t = some r) : r = .omitted ∨ r = .skipped := by
  unfold enterTask at h
  split at h
  · exact .inl (Option.some.inj h).symm
  · split at h
    · cases h
    · exact .inr (Option.some.inj h).symm

/-! ## The promotion -/

/-- A task that runs is not skipped; anything else can happen at any time. -/
def Ends (_ : Dag.State Task Result) : Dag.Event Task Result → Prop
  | .finish _ r => r ≠ .skipped ∧ r ≠ .omitted
  | _ => True

/--
**Production is only deployed to behind an approval.** In every run, however its tasks end
and whenever it is stopped: if the deployment to production runs, production was asked
for, and every other task of the template has run and succeeded, the approval among them,
but for the tests if they were skipped on purpose. That tasks take skipped ones for
satisfied lets nothing else through.
-/
theorem promoted {p : Params} {s : Dag.State Task Result} (h : (template p).Reachable Ends s)
    (hj : (s.phase .deployProduction).started = true) :
    p.environment = .production
      ∧ ∀ t, t ≠ .deployProduction → s.phase t = .ended .succeeded
        ∨ (p.skipTests = true ∧ (t = .unitTest ∨ t = .lint) ∧ s.phase t = .passed .skipped) := by
  have hgate := ((gated_template p).of_started h.sound hj).2
  have henvironment : p.environment = .production := beq_iff_eq.mp hgate
  have hends : ∀ t r, s.phase t = .ended r → r ≠ .skipped ∧ r ≠ .omitted := fun t r ht =>
    h.ended (fun _ r => r ≠ .skipped ∧ r ≠ .omitted) (fun _ _ _ hok => hok) ht
  refine ⟨henvironment, fun t ht => ?_⟩
  have hbefore : t ∈ Dag.ancestors (template p).needs 6 .deployProduction := by
    show t ∈ Dag.ancestors (fun t => t.depends.tasks) 6 .deployProduction
    cases t <;> first | exact absurd rfl ht | decide
  cases hopen : t.when p with
  | true =>
      obtain ⟨r, hr, hgood⟩ := (gated_template p).ended_of_ancestor h.sound hj hbefore hopen
      left
      cases r with
      | succeeded => exact hr
      | skipped => exact absurd rfl (hends t _ hr).1
      | _ => cases hgood
  | false =>
      right
      obtain ⟨hskip, htests⟩ : p.skipTests = true ∧ (t = .unitTest ∨ t = .lint) := by
        cases t with
        | unitTest => exact ⟨by simpa [Task.when] using hopen, .inl rfl⟩
        | lint => exact ⟨by simpa [Task.when] using hopen, .inr rfl⟩
        | approveProduction => exact absurd hgate (by rw [← Bool.not_eq_true] at hopen; exact hopen)
        | deployProduction => exact absurd rfl ht
        | _ => cases hopen
      refine ⟨hskip, htests, ?_⟩
      obtain ⟨r, hr, hgood⟩ := (gated_template p).good_of_ancestor h.sound hj hbefore
      rcases Dag.result_eq_some.mp hr with hended | hpassed
      · have hstarted := ((gated_template p).of_started h.sound (j := t) (by rw [hended]; rfl)).2
        rw [hopen] at hstarted
        cases hstarted
      · obtain ⟨-, failedFast, -, henter⟩ := h.sound.of_passed hpassed
        rcases enterTask_cases henter with rfl | rfl
        · cases hgood
        · exact hpassed

/-- A run for production without tests. -/
def hotfix : List (Dag.Event Task Result) := [
  .enter .clone, .finish .clone .succeeded, .enter .build, .finish .build .succeeded,
  .enter .lint, .enter .unitTest, .enter .image, .finish .image .succeeded,
  .enter .deployStaging, .finish .deployStaging .succeeded, .enter .approveProduction,
  .finish .approveProduction .succeeded, .enter .deployProduction]

theorem promoted_hotfix :
    ∃ s, Transition.run (template ⟨.production, true⟩).step Dag.init hotfix = some s
      ∧ s.phase .approveProduction = .ended .succeeded := by
  have hrun : Transition.run (template ⟨.production, true⟩).step Dag.init hotfix
      = some ((Transition.run (template ⟨.production, true⟩).step Dag.init hotfix).getD Dag.init) :=
    rfl
  have hends : ∀ e ∈ hotfix, ∀ s, Ends s e := by simp [hotfix, Ends]
  refine ⟨_, hrun, ?_⟩
  rcases (promoted (Dag.Graph.reachable_of_run (.init rfl) hends hrun) rfl).2 .approveProduction
    (by decide) with hended | ⟨-, htests, -⟩
  · exact hended
  · rcases htests with he | he <;> cases he

/-! ## The template and the Jenkins build -/

/-- The run for a build of the legacy pipeline. -/
def paramsOf (b : Build) : Params where
  environment := b.environment
  skipTests := b.skipTests

/-- What the template leaves behind. -/
def leftBehind : Step → Bool
  | .sast | .smokeTest _ => true
  | _ => false

/-- How a task ends that runs. -/
def taskResult (behave : Step → Outcome) (t : Task) : Result :=
  if goes (strict behave) t.step then .succeeded else .failed

/-- How the steps end in the build that a run is compared with. -/
abbrev ported (behave : Step → Outcome) : Step → Outcome := without leftBehind (strict behave)

section Mirrors

variable (b : Build) (behave : Step → Outcome)

/-- A task is good if what it depends on is, and it is skipped or its step succeeds. -/
theorem good_eq (t : Task) :
    isGood (ported behave) (onBranchMain b) t.step
      = (t.depends.tasks.all (fun k => isGood (ported behave) (onBranchMain b) k.step)
        && (!isOpen (onBranchMain b) t.step || goes (ported behave) t.step)) := by
  have hstaged := isStaged_of_smokeTest (b := b) (goes_without (.smokeTest .staging) :
    goes (ported behave) (.smokeTest .staging) = true)
  have htested := isTested_of_sast (b := onBranchMain b)
    (goes_without .sast : goes (ported behave) .sast = true)
  cases t <;> simp only [isGood, isOpen, Task.depends, Depends.tasks, Task.step, hstaged, isPushed,
    htested, isBuilt, List.all_append, List.all_cons, List.all_nil] <;> grind

/-- A task runs where its step is reached. -/
theorem reaches_eq (t : Task) :
    (t.depends.tasks.all (fun k => isGood (ported behave) (onBranchMain b) k.step)
      && isOpen (onBranchMain b) t.step) = reaches (ported behave) (onBranchMain b) t.step := by
  have hstaged := isStaged_of_smokeTest (b := b) (goes_without (.smokeTest .staging) :
    goes (ported behave) (.smokeTest .staging) = true)
  have htested := isTested_of_sast (b := onBranchMain b)
    (goes_without .sast : goes (ported behave) .sast = true)
  have hmain : ((onBranchMain b).branch == "main") = true := rfl
  cases t <;> simp only [isGood, isOpen, Task.depends, Depends.tasks, Task.step, reaches, hmain,
    hstaged, isPushed, htested, isBuilt, List.all_append, List.all_cons, List.all_nil] <;> grind

end Mirrors

/-- The template does the steps of the Jenkins build, each under its condition. -/
def mirrors (b : Build) (behave : Step → Outcome) :
    Mirrors (template (paramsOf b)) Task.step Result.bad (taskResult behave) leftBehind behave
      (onBranchMain b) where
  gated := by
    have hgate : Task.when (paramsOf b) = fun t => isOpen (onBranchMain b) t.step := by
      funext t
      unfold paramsOf onBranchMain
      cases t with
      | unitTest => cases b.skipTests <;> rfl
      | lint => cases b.skipTests <;> rfl
      | _ => rfl
    exact hgate ▸ gated_template (paramsOf b)
  rank := Task.rank
  ranked := ranked_template (paramsOf b)
  good := good_eq b behave
  reaches := reaches_eq b behave
  depth := 7
  comparable := by
    intro t k
    show Dag.Comparable (fun t : Task => t.depends.tasks) 7 t k ∨ _
    cases t <;> cases k <;> decide
  injective := by
    intro t k h
    cases t <;> cases k <;> first | rfl | cases h
  covers := by
    intro x
    constructor
    · intro hx
      cases x with
      | checkout => exact ⟨.clone, rfl⟩
      | build => exact ⟨.build, rfl⟩
      | unit => exact ⟨.unitTest, rfl⟩
      | lint => exact ⟨.lint, rfl⟩
      | image => exact ⟨.image, rfl⟩
      | approve => exact ⟨.approveProduction, rfl⟩
      | deployHelm target =>
          cases target with
          | staging => exact ⟨.deployStaging, rfl⟩
          | production => exact ⟨.deployProduction, rfl⟩
      | _ => cases hx
    · intro ⟨t, ht⟩
      rw [← ht]
      cases t <;> rfl
  ends := by
    intro t
    unfold taskResult
    cases goes (strict behave) t.step <;> rfl

/--
**The template has the shape of the Jenkins build.** In every run that is over, in
whatever order its tasks went and wherever behind a failure it was stopped: every step
that was run, the approval among them, is one that the Jenkins build for `main` executes,
and every step that the build executes was run, but for one of the two test branches where
the other one has failed; and a task has failed exactly if the build does not succeed. In
that build unstable counts as failed, and the scan and the smoke test, which were left
behind, as passed. The steps are compared without the tags of their images.
-/
theorem same_shape {b : Build} {behave : Step → Outcome} {s : Dag.State Task Result}
    (h : (template (paramsOf b)).Reachable (Dag.ObeysFast Result.bad (taskResult behave)) s)
    (hover : Dag.Over (template (paramsOf b)) s) :
    SameSteps Task.step Result.bad s leftBehind
      (runJenkins (ported behave) (onBranchMain b)) (ported behave) :=
  (mirrors b behave).sameSteps h hover

/-! ## A release that is not approved -/

def refused (x : Step) : Outcome := if x = .approve then .aborted else .success

/-- The approval is refused, so production stays as it is. -/
def refusedRelease : List (Dag.Event Task Result) := [
  .enter .clone, .finish .clone .succeeded, .enter .build, .finish .build .succeeded,
  .enter .lint, .enter .unitTest, .finish .unitTest .succeeded, .finish .lint .succeeded,
  .enter .image, .finish .image .succeeded, .enter .deployStaging,
  .finish .deployStaging .succeeded, .enter .approveProduction,
  .finish .approveProduction .failed, .enter .deployProduction]

theorem same_shape_refusedRelease :
    ∃ s, Transition.run (template (paramsOf release)).step Dag.init refusedRelease = some s
      ∧ SameSteps Task.step Result.bad s leftBehind
        (runJenkins (ported refused) (onBranchMain release)) (ported refused) := by
  have hrun : Transition.run (template (paramsOf release)).step Dag.init refusedRelease
      = some ((Transition.run (template (paramsOf release)).step Dag.init
        refusedRelease).getD Dag.init) := rfl
  have hobeys : ∀ e ∈ refusedRelease, ∀ s,
      Dag.ObeysFast Result.bad (taskResult refused) s e := by
    simp [refusedRelease, Dag.ObeysFast, taskResult, Task.step, goes, strict, refused,
      Outcome.stops]
  refine ⟨_, hrun, same_shape (Dag.Graph.reachable_of_run (.init rfl) hobeys hrun) ?_⟩
  intro t
  cases t <;> exact ⟨rfl, fun he => by cases he⟩

end MigrationPlatform.Pipelines.Argo
