import MigrationPlatform.Controller.Annotation
import MigrationPlatform.Lib.Accounting

/-!
# What is delivered has been so

An event may be late: the cache lags behind, a reconcile may wait for long between
its calls, and by then the object may have moved on, or be gone with another one
under its name. But no event is made up. Whatever happens in a run, what is handed to
`Notify` is the event of a version that the API server has stored, and in that version
the workflow was completed with its completion not on record. That holds of an event that
is received while its answer is lost as well.
-/

namespace MigrationPlatform.Controller

variable {n : Nat} {w w' : World n} {a : Action n}

/-- **A version that somebody holds** was held before the step, or the step has stored it. -/
theorem sees_or_stored (hs : Step w a w') {k : NamespacedName} {o : Workflow}
    (h : w'.Sees k o) : w.Sees k o ∨ w'.store k = some o := by
  have written : ∀ {k' : NamespacedName} {v : Option Workflow}, (w.write k' v).Sees k o →
      w.Sees k o ∨ (w.write k' v).store k = some o := by
    intro k' v h
    rcases World.Sees.of_write h with h | ⟨rfl, hv⟩
    · exact .inl h
    · exact .inr (by simpa [World.write] using hv)
  cases hs with
  | create _ _ => exact written h
  | update _ => exact written h
  | delete _ => exact written h
  | @disconnect k' m hm =>
      left
      by_cases hk : k = k'
      · subst hk
        rcases h with h | h | h | h
        · exact .of_store h
        · exact .of_cache h
        · exact .of_watch (List.mem_of_mem_drop (by simpa using h))
        · exact .inr (.inr (.inr h))
      · simpa [World.Sees, Function.update_of_ne hk] using h
  | observe hw => exact .inl (.of_see hw h)
  | restart => exact .inl (.of_relist h)
  | enqueue => exact .inl h
  | start _ _ =>
      -- a worker that has just started has read nothing
      rcases World.Sees.of_worker_update h with h | ⟨t, ht, _, hr⟩
      · exact .inl h
      · cases ht
        cases hr
  | get _ _ =>
      rw [World.afterGet] at h
      split at h
      · rcases World.Sees.of_worker_update (v := none) h with h | ⟨_, h, _⟩
        · exact .inl h
        · cases h
      · rename_i wf hgo
        rcases World.Sees.of_worker_update h with h | ⟨t', ht', rfl, hr⟩
        · exact .inl h
        · cases ht'
          cases hr
          exact .inl (.of_read (onGet_go.mp hgo).1)
  | getFails _ _ => exact .inl (.of_finish (w := w) h)
  | @notify i err t wf ht hstage =>
      cases err with
      | some err => exact .inl (.of_finish h)
      | none =>
          rcases World.Sees.of_worker_update (w := { w with delivered := _ }) h
            with h | ⟨t', ht', rfl, hr⟩
          · exact .inl h
          · obtain rfl := Option.some.inj ht'
            obtain rfl := Option.some.inj hr
            exact .inl (.of_worker (t := t) ht (by rw [hstage]; rfl))
  | @patch i err t wf o' _ _ _ =>
      exact written (.of_finish (t := t) (r := onPatch (err.elim .ok .failed)) h)
  | patchFails _ _ => exact .inl (.of_finish h)
  | patchNotFound _ _ _ => exact .inl (.of_finish h)

/-- The run from the empty cluster has come through a state that stored the version. -/
def HasStored (as : List (Action n)) (o : Workflow) : Prop :=
  ∃ w₀, Transition.Visited World.act World.init as w₀ ∧ w₀.store o.key = some o

theorem HasStored.append {as : List (Action n)} {o : Workflow} (h : HasStored as o)
    (bs : List (Action n)) : HasStored (as ++ bs) o := by
  obtain ⟨w₀, hw₀, hstore⟩ := h
  exact ⟨w₀, hw₀.append bs, hstore⟩

/-! ## The events that are handed on -/

/-- The event that an action hands to `Notify`: `Get` has answered with a workflow that is due. -/
def World.handed (w : World n) : Action n → List Event
  | .get i src =>
      match w.workers i with
      | some ⟨_, req, .get⟩ =>
          match onGet (w.read src req) with
          | .go wf => [eventFor wf]
          | .ret _ => []
      | _ => []
  | _ => []

/-- An event that is handed on is that of a due workflow which the reconcile has read. -/
theorem mem_handed {ev : Event} (h : ev ∈ w.handed a) :
    ∃ k wf, w.Sees k wf ∧ wf.Due ∧ ev = eventFor wf := by
  cases a with
  | get i src =>
      simp only [World.handed] at h
      split at h
      · split at h
        · rename_i wf hgo
          obtain ⟨hread, hdue⟩ := onGet_go.mp hgo
          exact ⟨_, wf, .of_read hread, hdue, List.mem_singleton.mp h⟩
        · cases h
      · cases h
  | _ => cases h

theorem handed_get {i : Fin n} {src : Source} {t : Task} {wf : Workflow}
    (ht : w.workers i = some t) (hst : t.stage = .get) (hread : w.read src t.req = .found wf)
    (hdue : wf.Due) : eventFor wf ∈ w.handed (.get i src) := by
  obtain ⟨id, req, stage⟩ := t
  subst hst
  simp [World.handed, ht, onGet_go.mpr ⟨hread, hdue⟩]

/-- The events that a run hands to `Notify`, whether or not they arrive or are answered. -/
def handedIn (as : List (Action n)) : List Event :=
  Transition.log World.act World.handed World.init as

/-- What holds of a run and the state that it leads to. -/
structure HistoryInv (as : List (Action n)) (w : World n) : Prop where
  versions : VersionInv w
  /-- Nobody holds a version that was never stored. -/
  seen : ∀ k o, w.Sees k o → HasStored as o
  /-- Every event that is handed on is that of a version that was stored and due. -/
  handed : ∀ ev ∈ handedIn as, ∃ o, HasStored as o ∧ o.Due ∧ ev = eventFor o
  /-- A reconcile past its `Get` has handed its event on. -/
  held : ∀ i t wf, w.workers i = some t → t.stage.read = some wf → eventFor wf ∈ handedIn as
  delivered : ∀ d ∈ w.delivered, d.event ∈ handedIn as

theorem historyInv_init : HistoryInv [] (World.init : World n) where
  versions := versionInv_init
  seen := by intro k o h; simp [World.Sees, World.init] at h
  handed := by intro ev h; cases h
  held := by intro i t wf h; simp [World.init] at h
  delivered := by intro d h; cases h

theorem historyInv_step {as : List (Action n)}
    (hrun : Transition.run World.act World.init as = some w) (h : HistoryInv as w)
    (hact : w.act a = some w') : HistoryInv (as ++ [a]) w' := by
  have hs : Step w a w' := step_of_act hact
  have hrun' := Transition.run_snoc hrun hact
  have hlog : handedIn (as ++ [a]) = handedIn as ++ w.handed a := Transition.log_snoc hrun hact
  have hversions := versionInv_step h.versions hs
  have hheld : ∀ {ev}, ev ∈ handedIn as → ev ∈ handedIn (as ++ [a]) := fun hev => by
    rw [hlog]
    exact List.mem_append_left _ hev
  refine ⟨hversions, ?_, ?_, ?_, ?_⟩
  · intro k o ho
    rcases sees_or_stored hs ho with ho | hstore
    · exact (h.seen k o ho).append [a]
    · have hkey := hversions.keyed k o (.of_store hstore)
      exact ⟨w', .last hrun', hkey.symm ▸ hstore⟩
  · intro ev hev
    rw [hlog] at hev
    rcases List.mem_append.mp hev with hev | hev
    · obtain ⟨o, hstored, ho⟩ := h.handed ev hev
      exact ⟨o, hstored.append [a], ho⟩
    · -- the version that the reconcile has read
      obtain ⟨k, wf, hsees, hdue, he⟩ := mem_handed hev
      exact ⟨wf, (h.seen k wf hsees).append [a], hdue, he⟩
  · intro i t' wf ht' hr
    cases worker_step hs ht' with
    | same ht => exact hheld (h.held i t' wf ht hr)
    | started _ _ _ he => subst he; cases hr
    | read ha ht hst hread hdue he =>
        subst ha; subst he
        obtain rfl := Option.some.inj hr
        rw [hlog]
        exact List.mem_append_right _ (handed_get ht hst hread hdue)
    | sent _ ht hst he =>
        subst he
        exact hheld (h.held i _ wf ht (by rw [hst]; exact hr))
  · intro d hd
    rcases delivered_step hs with he | ⟨i, t, wf, rfl, ht, hstage, he⟩
    · exact hheld (h.delivered d (he ▸ hd))
    · rw [he] at hd
      rcases List.mem_cons.mp hd with rfl | hd
      · exact hheld (h.held i t wf ht (by rw [hstage]; rfl))
      · exact hheld (h.delivered d hd)

/--
**No event is made up.** In every run, with whatever faults and delays, an event that is
handed to `Notify` is that of a workflow as the API server stored it at some moment of the
run: completed, and with its completion not on record. It may be received without an
answer, or be lost; what is delivered is among them.
-/
theorem handed_was_stored {as : List (Action n)}
    (hrun : Transition.run World.act World.init as = some w) :
    (∀ ev ∈ handedIn as, ∃ o, HasStored as o ∧ o.Due ∧ ev = eventFor o)
      ∧ ∀ d ∈ w.delivered, d.event ∈ handedIn as := by
  have hinv : HistoryInv as w :=
    Transition.run_last historyInv_init (fun _ _ _ _ hw h hact => historyInv_step hw h hact) hrun
  exact ⟨hinv.handed, hinv.delivered⟩

/-- The first answer is lost. The workflow is gone, and another one has its name, when its event
is delivered again. -/
def lateRun : List (Action 1) :=
  [.create (exampleWorkflow "uid-1" workflowFailed), .observe exampleKey, .start w0 exampleKey,
    .get w0 .cache, .notify w0 (some "timeout"), .start w0 exampleKey, .get w0 .cache,
    .delete exampleKey, .create (exampleWorkflow "uid-2" workflowRunning), .notify w0 none]

theorem handed_was_stored_lateRun :
    ∃ w : World 1, (w.store exampleKey).map (·.uid) = some "uid-2"
      ∧ (handedIn lateRun).map (·.uid) = ["uid-1", "uid-1"]
      ∧ (∀ ev ∈ handedIn lateRun, ∃ o, HasStored lateRun o ∧ o.Due ∧ ev = eventFor o)
      ∧ ∀ d ∈ w.delivered, d.event ∈ handedIn lateRun := by
  have hend : ∃ w ∈ Transition.run World.act (World.init : World 1) lateRun,
      (w.store exampleKey).map (·.uid) = some "uid-2" := by decide
  obtain ⟨w, hrun, hstore⟩ := hend
  exact ⟨w, hstore, by decide, handed_was_stored hrun⟩

end MigrationPlatform.Controller
