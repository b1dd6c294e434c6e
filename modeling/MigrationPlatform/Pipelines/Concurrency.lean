import MigrationPlatform.Lib.Accounting
import MigrationPlatform.Lib.Turns
import MigrationPlatform.Pipelines.Actions

/-!
# Runs side by side

Any number of runs of `orders-api-pipeline.yml`, for any branches, under its
`concurrency:`. The group of a run is made of its branch, and a run holds it to its end,
reviews included; `cancel-in-progress` is off, so a run that comes waits, and takes the
place of the one that waits. Runs come in the order in which they join their group, which
GitHub does not promise to be that of their triggers, and the names of groups do not see
the case of letters, so branches are the same up to that.

Jenkins has `lock` and `milestone` for its deployment to production. The group does what
both of them do: the runs that can deploy are all of one branch, so they share a group.
The group of `reusable-deploy.yml`, one for each environment, never has anyone wait.
-/

namespace MigrationPlatform.Pipelines

open Turns

/-- `orders-api-${{ github.ref }}`. The names of groups do not see the case of letters. -/
def runGroup (c : Context) : Text := ("orders-api-" ++ c.ref).toList.map Char.toLower

def jobs : List Job :=
  [.build, .unit, .lint, .test, .image, .review .staging, .deploy .staging,
    .review .production, .deploy .production, .notify]

/-- Every job has a result. -/
def isSettled (s : Dag.State Job Result) : Bool := jobs.all fun j => (s.result j).isSome

/-- The runs of the workflow, as members that take turns. -/
def runs : Kind Context Text (Dag.State Job Result) (Dag.Event Job Result) where
  group := runGroup
  start := Dag.init
  step := fun c => (workflow c).step
  done := fun _ => isSettled

/-- The runs there are, in the order in which they joined their groups. -/
abbrev Board := Turns.State Context (Dag.State Job Result)

abbrev Happening := Turns.Event Context (Dag.Event Job Result)

/-- The boards that can come about, however jobs end and whenever runs are cancelled. -/
abbrev Board.Reachable (w : Board) : Prop := runs.Reachable (fun _ => Ends) w

/-- The deployment of a run is in progress. -/
def Board.Deploying (w : Board) (i : Nat) (target : Target) : Prop :=
  ∃ m : Member Context (Dag.State Job Result),
    w[i]? = some m ∧ m.state.phase (.deploy target) = .running

/-- The deployment of a run is in progress, or has been. -/
def Board.Deployed (w : Board) (i : Nat) (target : Target) : Prop :=
  ∃ m : Member Context (Dag.State Job Result),
    w[i]? = some m ∧ (m.state.phase (.deploy target)).started = true

/-! ## A run that deploys -/

section Run

variable {c : Context} {s : Dag.State Job Result}

/-- Production comes behind staging. -/
theorem staging_of_production (h : (workflow c).Reachable Ends s)
    (hj : (s.phase (.deploy .production)).started = true) :
    s.phase (.deploy .staging) = .ended .success := by
  have hcond := (deploy_started h hj).1
  exact ended_of_success h rfl (beq_iff_eq.mp (Bool.and_eq_true_iff.mp hcond).1)

theorem main_of_deploy (h : (workflow c).Reachable Ends s) {target : Target}
    (hj : (s.phase (.deploy target)).started = true) :
    sameText c.ref "refs/heads/main" = true := by
  have hstaging : (s.phase (.deploy .staging)).started = true := by
    cases target with
    | staging => exact hj
    | production =>
        rw [staging_of_production h hj]
        rfl
  exact (Bool.and_eq_true_iff.mp (deploy_started h hstaging).1).2

/-- In one run staging has ended when production starts. -/
theorem eq_of_running (h : (workflow c).Reachable Ends s) {t u : Target}
    (ht : s.phase (.deploy t) = .running) (hu : s.phase (.deploy u) = .running) : t = u := by
  have hnot : s.phase (.deploy .production) = .running →
      s.phase (.deploy .staging) ≠ .running := by
    intro hproduction hstaging
    rw [staging_of_production h (by rw [hproduction]; rfl)] at hstaging
    cases hstaging
  cases t with
  | staging =>
      cases u with
      | staging => rfl
      | production => exact absurd ht (hnot hu)
  | production =>
      cases u with
      | staging => exact absurd hu (hnot ht)
      | production => rfl

theorem isSettled_iff : isSettled s = true ↔ ∀ j, (s.result j).isSome = true := by
  unfold isSettled
  rw [List.all_eq_true]
  constructor
  · intro h j
    refine h j ?_
    cases j with
    | review target => cases target <;> simp [jobs]
    | deploy target => cases target <;> simp [jobs]
    | _ => simp [jobs]
  · intro h j _
    exact h j

end Run

/-- **The runs that can deploy share a group.** -/
theorem runGroup_of_main {c c' : Context} (h : sameText c.ref "refs/heads/main" = true)
    (h' : sameText c'.ref "refs/heads/main" = true) : runGroup c = runGroup c' := by
  unfold sameText at h h'
  unfold runGroup
  rw [String.toList_append, String.toList_append, List.map_append, List.map_append,
    beq_iff_eq.mp h, beq_iff_eq.mp h']

/-! ## The board -/

section Board

variable {w w' : Board} {i j : Nat} {t u : Target}
  {m n : Member Context (Dag.State Job Result)}

theorem run_reachable (h : w.Reachable) (hm : w[i]? = some m) :
    (workflow m.config).Reachable Ends m.state :=
  member_reachable h m (List.mem_of_getElem? hm)

theorem begun_of_started (h : w.Reachable) (hm : w[i]? = some m) {k : Job}
    (hk : (m.state.phase k).started = true) : m.turn.begun = true := by
  by_contra hbegun
  have hidle := (fair_reachable h m (List.mem_of_getElem? hm)).idle (by simpa using hbegun)
  rw [hidle] at hk
  cases hk

/-- A run in which a job is running has its turn. -/
theorem active_of_running (h : w.Reachable) (hm : w[i]? = some m) {k : Job}
    (hk : m.state.phase k = .running) : m.turn = .active := by
  have hbegun := begun_of_started h hm (k := k) (by rw [hk]; rfl)
  cases hturn : m.turn with
  | active => rfl
  | ended =>
      have hdone := (fair_reachable h m (List.mem_of_getElem? hm)).done hturn
      have hsettled := isSettled_iff.mp hdone k
      unfold Dag.State.result at hsettled
      rw [hk] at hsettled
      cases hsettled
  | waiting => rw [hturn] at hbegun; cases hbegun
  | dropped => rw [hturn] at hbegun; cases hbegun

/-- Runs that deploy are of one group, whatever their environments. -/
theorem group_of_deployed (h : w.Reachable) (hm : w[i]? = some m) (hn : w[j]? = some n)
    (ht : (m.state.phase (.deploy t)).started = true)
    (hu : n.state.phase (.deploy u) = .running) :
    runs.group m.config = runs.group n.config := by
  have hstarted : (n.state.phase (.deploy u)).started = true := by
    rw [hu]
    rfl
  refine runGroup_of_main (main_of_deploy (run_reachable h hm) ht) ?_
  exact main_of_deploy (run_reachable h hn) hstarted

/-- A run does not deploy behind a newer one. -/
theorem le_of_deployed (h : w.Reachable) (hm : w[i]? = some m) (hn : w[j]? = some n)
    (ht : (m.state.phase (.deploy t)).started = true)
    (hu : n.state.phase (.deploy u) = .running) : i ≤ j :=
  le_of_begun h hm hn (group_of_deployed h hm hn ht hu) (begun_of_started h hm ht)
    (active_of_running h hn hu)

/--
**One deployment at a time.** However many runs there are, for whatever branches, and
however their jobs are interleaved: when a deployment is in progress, no other one is, of
any run, to either environment.
-/
theorem one_deployment (h : w.Reachable) (ht : w.Deploying i t) (hu : w.Deploying j u) :
    i = j ∧ t = u := by
  obtain ⟨m, hm, ht⟩ := ht
  obtain ⟨n, hn, hu⟩ := hu
  have hgroup := group_of_deployed h hm hn (by rw [ht]; rfl) hu
  obtain rfl : i = j := exclusive h hm hn hgroup (active_of_running h hm ht)
    (active_of_running h hn hu)
  rw [hm] at hn
  obtain rfl := Option.some.inj hn
  exact ⟨rfl, eq_of_running (run_reachable h hm) ht hu⟩

/--
**No release is lost but for a newer one.** A run that was dropped has not started any
job, and a run for the same branch, up to the case of letters, has joined the group behind
it that was not dropped.
-/
theorem dropped_for_newer (h : w.Reachable) (hm : w[i]? = some m) (hturn : m.turn = .dropped) :
    (∀ k, m.state.phase k = .idle)
      ∧ ∃ (j : Nat) (n : Member Context (Dag.State Job Result)), i < j ∧ w[j]? = some n
        ∧ sameText n.config.ref m.config.ref = true ∧ n.turn ≠ .dropped := by
  obtain ⟨hidle, j, n, hij, hn, hgroup, hkept⟩ := dropped_reachable h hm hturn
  refine ⟨fun k => by rw [hidle]; rfl, j, n, hij, hn, ?_, hkept⟩
  have hgroup : runGroup n.config = runGroup m.config := hgroup
  unfold runGroup at hgroup
  rw [String.toList_append, String.toList_append, List.map_append, List.map_append] at hgroup
  exact beq_iff_eq.mpr (List.append_cancel_left hgroup)

/-! ## The deployments of a history -/

/-- A deployment that an event starts. -/
def startedBy (w : Board) : Happening → List (Nat × Target)
  | .move i (.enter (.deploy target)) =>
      match w[i]? with
      | some m => if (enterDeploy m.config m.state.result target).isNone then [(i, target)] else []
      | none => []
  | _ => []

/-- All that happens is that jobs that run do not end as skipped. -/
def Allowed : Happening → Prop
  | .move _ (.finish _ r) => r ≠ .skipped
  | _ => True

/-- The deployment of an older run, or of the same run to staging, comes first. -/
def Before (a b : Nat × Target) : Prop :=
  a.1 < b.1 ∨ (a.1 = b.1 ∧ a.2 = .staging ∧ b.2 = .production)

theorem guard_of_allowed {e : Happening} (h : Allowed e) : Turns.Guard (fun _ => Ends) w e := by
  cases e with
  | move i a =>
      intro m _
      cases a with
      | finish k r => exact h
      | enter k => trivial
      | stop => trivial
  | _ => trivial

/-- A history ends with a board that can come about. -/
theorem reachable_of_history {as : List Happening} (hok : ∀ e ∈ as, Allowed e)
    (hrun : Transition.run runs.act [] as = some w) : w.Reachable := by
  revert hok
  refine Transition.run_last (P := fun as w => (∀ e ∈ as, Allowed e) → Board.Reachable w) ?_ ?_ hrun
  · intro _
    exact .init rfl
  · intro as e w w' _ ih hs hok
    have hw := ih fun e he => hok e (List.mem_append_left _ he)
    have hallowed := hok e (List.mem_append_right _ List.mem_cons_self)
    exact .tail hw (guard_of_allowed hallowed) hs

theorem deployed_step {e : Happening} (hs : runs.act w e = some w') (h : w.Deployed i t) :
    w'.Deployed i t := by
  obtain ⟨m, hm, ht⟩ := h
  obtain ⟨m', hm', hconfig, hstate⟩ := persists hs hm
  refine ⟨m', hm', ?_⟩
  rcases hstate with hsame | ⟨a, -, hstep⟩
  · rw [hsame]
    exact ht
  · exact Dag.started_step hstep ht

theorem mem_startedBy {e : Happening} {x : Nat × Target} (hx : x ∈ startedBy w e) :
    startedBy w e = [x] ∧ e = .move x.1 (.enter (.deploy x.2))
      ∧ ∃ m, w[x.1]? = some m ∧ enterDeploy m.config m.state.result x.2 = none := by
  unfold startedBy at hx ⊢
  split at hx
  · split at hx
    · rename_i m hm
      split at hx
      · rename_i henter
        obtain rfl := List.mem_singleton.mp hx
        refine ⟨?_, rfl, m, hm, Option.isNone_iff_eq_none.mp henter⟩
        simp only [henter, if_true]
      · cases hx
    · cases hx
  · cases hx

/-- **A deployment that an event starts** was idle before, and is in progress behind it. -/
theorem of_startedBy {e : Happening} {x : Nat × Target} (hs : runs.act w e = some w')
    (hx : x ∈ startedBy w e) :
    w'.Deploying x.1 x.2 ∧ ∃ m : Member Context (Dag.State Job Result),
      w[x.1]? = some m ∧ m.state.phase (.deploy x.2) = .idle := by
  obtain ⟨-, rfl, m, hm, henter⟩ := mem_startedBy hx
  obtain ⟨m₀, state, hm₀, -, hstep, rfl⟩ := act_move hs
  rw [hm] at hm₀
  obtain rfl := Option.some.inj hm₀
  have hstep : (workflow m.config).step m.state (.enter (.deploy x.2)) = some state := hstep
  rcases Dag.step_cases hstep with ⟨k, he, hidle, -, rfl⟩ | ⟨k, r, he, -, -⟩ | ⟨he, -⟩
  · cases he
    refine ⟨⟨_, List.getElem?_set_self (List.getElem?_eq_some_iff.mp hm).1, ?_⟩, m, hm, hidle⟩
    have henter : (workflow m.config).enter (.deploy x.2) m.state.stopped m.state.result
        = none := henter
    rw [Dag.State.set_phase, if_pos rfl, henter]
    rfl
  · cases he
  · cases he

/-- What has been deployed comes before what an event starts. -/
theorem before_of_startedBy {e : Happening} {x y : Nat × Target} (h : w.Reachable)
    (h' : w'.Reachable) (hs : runs.act w e = some w') (hx : w.Deployed x.1 x.2)
    (hy : y ∈ startedBy w e) : Before x y := by
  obtain ⟨⟨n', hn', hrunning⟩, n, hn, hidle⟩ := of_startedBy hs hy
  obtain ⟨m', hm', hstarted⟩ := deployed_step hs hx
  have hle := le_of_deployed h' hm' hn' hstarted hrunning
  by_cases hxy : x.1 = y.1
  · right
    obtain ⟨m, hm, hstarted⟩ := hx
    rw [hxy, hn] at hm
    obtain rfl := Option.some.inj hm
    refine ⟨hxy, ?_⟩
    cases ht : x.2 with
    | staging =>
        cases hu : y.2 with
        | staging =>
            rw [ht] at hstarted
            rw [hu] at hidle
            rw [hidle] at hstarted
            cases hstarted
        | production => exact ⟨rfl, rfl⟩
    | production =>
        rw [ht] at hstarted
        have hstaging := staging_of_production (run_reachable h hn) hstarted
        cases hu : y.2 with
        | staging =>
            rw [hu, hstaging] at hidle
            cases hidle
        | production =>
            rw [hu] at hidle
            rw [hidle] at hstarted
            cases hstarted
  · exact .inl (by omega)

/--
**Deployments happen in the order of the runs**, that is, in which they joined the group.
In every history, of any number of runs for any branches, in every interleaving: an older
run never deploys behind a newer one, and no run deploys twice to an environment, nor to
staging behind production.
-/
theorem deployments_ordered {as : List Happening} (hok : ∀ e ∈ as, Allowed e)
    (hrun : Transition.run runs.act [] as = some w) :
    (Transition.log runs.act startedBy [] as).Pairwise Before := by
  -- on the last event: what was started before is still there
  have hall : (∀ e ∈ as, Allowed e) →
      (∀ x ∈ Transition.log runs.act startedBy [] as, w.Deployed x.1 x.2)
        ∧ (Transition.log runs.act startedBy [] as).Pairwise Before := by
    refine Transition.run_last (P := fun as w => (∀ e ∈ as, Allowed e) →
      (∀ x ∈ Transition.log runs.act startedBy [] as, Board.Deployed w x.1 x.2)
        ∧ (Transition.log runs.act startedBy [] as).Pairwise Before) ?_ ?_ hrun
    · intro _
      exact ⟨fun x hx => absurd hx List.not_mem_nil, List.Pairwise.nil⟩
    · intro as e w w' hrun ih hs hok
      have hbefore : ∀ e ∈ as, Allowed e := fun e he => hok e (List.mem_append_left _ he)
      have hrun' := Transition.run_snoc hrun hs
      have hw := reachable_of_history hbefore hrun
      have hw' := reachable_of_history hok hrun'
      obtain ⟨hlog, hordered⟩ := ih hbefore
      rw [Transition.log_snoc hrun hs]
      refine ⟨fun x hx => ?_, List.pairwise_append.mpr ⟨hordered, ?_, ?_⟩⟩
      · rcases List.mem_append.mp hx with hx | hx
        · exact deployed_step hs (hlog x hx)
        · obtain ⟨⟨m, hm, hrunning⟩, -⟩ := of_startedBy hs hx
          exact ⟨m, hm, by rw [hrunning]; rfl⟩
      · cases hnew : startedBy w e with
        | nil => exact .nil
        | cons x _ =>
            have hone : startedBy w e = [x] :=
              (mem_startedBy (by rw [hnew]; exact List.mem_cons_self)).1
            rw [← hnew, hone]
            exact List.pairwise_singleton _ _
      · intro x hx y hy
        exact before_of_startedBy hw hw' hs (hlog x hx) hy
  exact (hall hok).2

end Board

/-! ## Three releases of one branch -/

/-- The first release is on its way when two more come; the second one gives way. -/
def threeReleases : List Happening :=
  [.come productionContext, .begin 0] ++ (productionRun.take 13).map (.move 0)
    ++ [.come productionContext, .come productionContext]
    ++ (productionRun.drop 13).map (.move 0) ++ [.move 0 (.finish .notify .success)]
    ++ [.leave 0, .begin 2] ++ (productionRun.take 11).map (.move 2)

/-- The board while the third release is being deployed to staging. -/
def thirdRelease : Board := (Transition.run runs.act [] threeReleases).getD []

theorem run_threeReleases : Transition.run runs.act [] threeReleases = some thirdRelease := rfl

theorem allowed_threeReleases : ∀ e ∈ threeReleases, Allowed e := by
  simp [threeReleases, productionRun, Allowed]

theorem reachable_thirdRelease : thirdRelease.Reachable :=
  reachable_of_history allowed_threeReleases run_threeReleases

theorem one_deployment_thirdRelease :
    thirdRelease.Deploying 2 .staging
      ∧ ∀ j u, thirdRelease.Deploying j u → 2 = j ∧ .staging = u := by
  have hstaging : thirdRelease.Deploying 2 .staging := ⟨_, rfl, rfl⟩
  exact ⟨hstaging, fun j u hu => one_deployment reachable_thirdRelease hstaging hu⟩

theorem dropped_for_newer_thirdRelease :
    ∃ m, thirdRelease[1]? = some m ∧ (∀ k, m.state.phase k = .idle)
      ∧ ∃ (j : Nat) (n : Member Context (Dag.State Job Result)), 1 < j ∧ thirdRelease[j]? = some n
        ∧ sameText n.config.ref m.config.ref = true ∧ n.turn ≠ .dropped :=
  ⟨_, rfl, dropped_for_newer reachable_thirdRelease rfl rfl⟩

theorem deployments_ordered_threeReleases :
    (Transition.log runs.act startedBy [] threeReleases).Pairwise Before
      ∧ Transition.log runs.act startedBy [] threeReleases
        = [(0, .staging), (0, .production), (2, .staging)] :=
  ⟨deployments_ordered allowed_threeReleases run_threeReleases, rfl⟩

end MigrationPlatform.Pipelines
