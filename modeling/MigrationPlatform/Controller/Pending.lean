import MigrationPlatform.Controller.Annotation
import MigrationPlatform.Controller.Queue

/-!
# No completion is forgotten

A stored workflow whose completion is not on record must have work pending: a
change the informer has not seen, a queued key, or a reconcile in flight. Two
things can break this. The filter compares phases only, so an update that joins
a deleted workflow with a new one in the same terminal phase is dropped and the
new one is never reconciled. And a reconcile may skip on a version that the
store has left behind, which takes a patch that overwrote the annotation of
another object.

In every run without these two, an idle key is settled: the completion that the
informer shows is on record in the store.
-/

namespace MigrationPlatform.Controller

variable {n : Nat} {w w' : World n} {a : Action n} {k : NamespacedName}

/-- Something will still look at the key. -/
def World.Pending (w : World n) (k : NamespacedName) : Prop :=
  w.watch k ≠ [] ∨ w.queue k = true ∨ w.Running k

/-- Every stored workflow whose completion is not on record has work pending. -/
def NoCompletionLost (w : World n) : Prop :=
  ∀ k wf, w.store k = some wf → wf.status.phase.completed = true →
    wf.recordedPhase ≠ some wf.status.phase.str → w.Pending k

/-! ## The guards -/

/-- The status that a workflow has and is given. -/
def World.statusChange (w : World n) : Action n → Option (WorkflowStatus × WorkflowStatus)
  | .update k st => (w.store k).map fun wf => (wf.status, st)
  | _ => none

/-- A workflow keeps its phase once it is terminal. -/
def PhasesSettle (w : World n) (a : Action n) : Prop :=
  ∀ p ∈ w.statusChange a, p.1.phase.completed = true → p.2.phase = p.1.phase

instance (w : World n) (a : Action n) : Decidable (PhasesSettle w a) :=
  inferInstanceAs (Decidable (∀ p ∈ w.statusChange a, p.1.phase.completed = true →
    p.2.phase = p.1.phase))

/-! ## Settled keys -/

/-- The completion that the informer shows is on record, unless its object is gone. -/
def World.Settled (w : World n) (k : NamespacedName) : Prop :=
  ∀ c, w.cache k = some c → c.status.phase.completed = true →
    ∀ s, w.store k = some s → s.uid = c.uid → s.notifiedPhase = c.status.phase.str

/-- What the environment writes under an idle key keeps the key settled. -/
theorem settled_still (hv : VersionInv w) (hs : Step w a w') (hi : w.Idle k)
    (hc : w'.cache k = w.cache k) (h : w.Settled k) : w'.Settled k := by
  intro c hcache hdone s hstore huid
  rw [hc] at hcache
  cases stored_step hs k with
  | same he => exact h c hcache hdone s (he ▸ hstore) huid
  | created _ _ hu he =>
      -- a new object has a UID that the informer cannot have seen
      obtain rfl := Option.some.inj (he.symm.trans hstore)
      exact absurd (List.mem_map_of_mem (hv.born k c (.of_cache hcache))) (huid ▸ hu)
  | @updated wf st _ ho he =>
      obtain rfl := Option.some.inj (he.symm.trans hstore)
      exact h c hcache hdone wf ho huid
  | deleted he => rw [he] at hstore; cases hstore
  | @annotated _ _ t wf _ _ ht hst hk _ _ =>
      have hread : t.stage.read = some wf := by rw [hst]; rfl
      exact absurd ((hv.keyed _ _ (.of_worker ht hread)).symm.trans hk.symm) (hi.2 _ t ht)

/-- The invariant: whatever is idle is settled. -/
structure PendingInv (w : World n) : Prop where
  version : VersionInv w
  queue : QueueInv w
  /-- A key with nothing queued and nothing in flight is settled. -/
  settled : ∀ k, w.Idle k → w.Settled k

theorem pendingInv_init : PendingInv (World.init : World n) where
  version := versionInv_init
  queue := queueInv_init
  settled := by intro k _ c h; simp [World.init] at h

/-- **Idle keys stay settled.** -/
theorem settled_step (h : PendingInv w) (hcr : CachedReads w a) (hsep : SeparatesObjects w a)
    (hskip : RecordCurrent w a) (hs : Step w a w') (hi : w'.Idle k) : w'.Settled k := by
  cases rest_step hs hi with
  | still hw hc => exact settled_still h.version hs hw hc (h.settled k hw)
  | @filtered v rest hw ha hwatch hq hc hst _ =>
      intro c hcache hdone s hstore huid
      obtain rfl : v = some c := hc.symm.trans hcache
      cases hold : w.cache k with
      | none => rw [hold] at hq; cases hq
      | some old =>
          -- the filter compares phases; that the object is the same is the guard
          rw [hold] at hq
          have hphase := phase_of_not_queues hq
          have hu : old.uid = c.uid := by
            refine hsep (old, c) ?_ hphase hdone
            rw [ha]
            simp [World.updateSeen, hold, hwatch]
          rw [← hphase]
          exact h.settled k hw old hold (hphase ▸ hdone) s (hst ▸ hstore) (huid.trans hu.symm)
  | @read i src t ha ht hst hk hr hc hstr _ =>
      intro c hcache hdone s hstore huid
      subst ha; subst hk
      obtain rfl := hcr src rfl
      rw [hc] at hcache
      have hread : w.read .cache t.req = .found c := by rw [World.read, hcache]; rfl
      have hn : c.notifiedPhase = c.status.phase.str := by
        by_contra hne
        exact hr c hread ⟨hdone, hne⟩
      have hrecorded := hskip.recorded (mem_skipped ht hst hread hdone hn) (hstr ▸ hstore) huid
      rw [Workflow.notifiedPhase_eq, hrecorded]
      rfl
  | @patched i t wf o ha ht hst hk hq ho hc hstr _ =>
      intro c hcache hdone s hstore huid
      have hread : t.stage.read = some wf := by rw [hst]; rfl
      have hkey : wf.key = k := (h.version.keyed _ _ (.of_worker ht hread)).trans hk
      rw [hc] at hcache
      rw [hstr, hkey, Function.update_self] at hstore
      obtain rfl := Option.some.inj hstore
      rw [Workflow.notifiedPhase_annotate]
      -- nothing was queued meanwhile, so the informer still shows what was read
      rcases h.queue.abreast i t wf ht hread with h' | h' | ⟨c', h', _, hp⟩ <;> rw [hk] at h'
      · rw [hq] at h'; cases h'
      · rw [h'] at hcache; cases hcache
      · obtain rfl := Option.some.inj (h'.symm.trans hcache)
        rw [hp]
  | @gone i t wf ha ht hst hk hq hno hc hstr _ =>
      intro c _ _ s hstore
      have hread : t.stage.read = some wf := by rw [hst]; rfl
      have hkey : wf.key = k := (h.version.keyed _ _ (.of_worker ht hread)).trans hk
      rw [hstr, ← hkey, hno] at hstore
      cases hstore
  | restarted hc => intro c hcache; rw [hc] at hcache; cases hcache

/-- What is assumed of the client library: exclusive keys and cached reads. -/
def PendingAssumed (w : World n) (a : Action n) : Prop := Exclusive w a ∧ CachedReads w a

instance (w : World n) (a : Action n) : Decidable (PendingAssumed w a) :=
  inferInstanceAs (Decidable (_ ∧ _))

/--
**No completion is forgotten in a run without blind updates and stale skips.**
While a stored workflow is terminal and not annotated with its phase, its key has
a change the informer has not seen, is queued, or is being reconciled.
-/
theorem completion_pending
    (h : World.Reachable
      (fun w a => PendingAssumed w a ∧ SeparatesObjects w a ∧ RecordCurrent w a) w) :
    NoCompletionLost w := by
  have hinv : PendingInv w := h.invariant pendingInv_init fun w a w' _ ih hok hs => {
    version := versionInv_step ih.version hs
    queue := queueInv_step ih.version ih.queue hok.1.1 hok.1.2 hok.2.1 hs
    settled := fun k hi => settled_step ih hok.1.2 hok.2.1 hok.2.2 hs hi }
  intro k wf hstore hdone hann
  by_contra hnot
  simp only [World.Pending, not_or, ne_eq, not_not, Bool.not_eq_true] at hnot
  obtain ⟨hwatch, hq, hrun⟩ := hnot
  -- with the watch drained the informer shows the stored object
  have hcache : w.cache k = some wf := by
    have hf := hinv.queue.follows k
    rw [hwatch] at hf
    exact hf.trans hstore
  have hidle : w.Idle k := ⟨hq, fun i t ht hr => hrun ⟨i, t, ht, hr⟩⟩
  exact hann (Workflow.recordedPhase_of_notified hdone
    (hinv.settled k hidle wf hcache hdone wf hstore rfl))

/-- A delivery whose patch fails; the key is queued for a retry. -/
def retryRun : List (Action 1) :=
  [.create (exampleWorkflow "uid-1" workflowSucceeded), .observe exampleKey, .start w0 exampleKey,
    .get w0 .cache, .notify w0 none, .patchFails w0 "timeout"]

theorem completion_pending_retryRun :
    ∃ w : World 1, w.store exampleKey = some (exampleWorkflow "uid-1" workflowSucceeded)
      ∧ NoCompletionLost w := by
  have hend : ∃ w : World 1, World.Reachable
      (fun w a => PendingAssumed w a ∧ SeparatesObjects w a ∧ RecordCurrent w a) w
      ∧ w.store exampleKey = some (exampleWorkflow "uid-1" workflowSucceeded) :=
    World.exists_reachable retryRun (by decide) (by decide)
  obtain ⟨w, hr, hs⟩ := hend
  exact ⟨w, hs, completion_pending hr⟩

/-! ## A re-created workflow behind a disconnect -/

/--
The first workflow is delivered and recorded. It is deleted and created again
while the watch is down, and by the time the informer sees the name again the new
workflow has completed in the same phase: one update, filtered.
-/
def mergedRun : List (Action 1) :=
  [.create (exampleWorkflow "uid-1" workflowSucceeded), .observe exampleKey, .start w0 exampleKey,
    .get w0 .cache, .notify w0 none, .patch w0 none, .observe exampleKey, .delete exampleKey,
    .create (exampleWorkflow "uid-2" workflowRunning),
    .update exampleKey { phase := workflowSucceeded }, .disconnect exampleKey 2,
    .observe exampleKey]

theorem completion_lost :
    ∃ w : World 1, World.Reachable (fun w a => PendingAssumed w a ∧ PhasesSettle w a) w
      ∧ ¬ NoCompletionLost w := by
  have hend : ∃ w : World 1, World.Reachable (fun w a => PendingAssumed w a ∧ PhasesSettle w a) w
      ∧ w.store exampleKey = some (exampleWorkflow "uid-2" workflowSucceeded)
      ∧ w.watch exampleKey = [] ∧ w.queue exampleKey = false ∧ w.workers 0 = none :=
    World.exists_reachable mergedRun (by decide) (by decide)
  obtain ⟨w, hr, hs, hwatch, hq, hidle⟩ := hend
  refine ⟨w, hr, fun hall => ?_⟩
  rcases hall exampleKey _ hs (by decide) (by decide) with h | h | ⟨i, t, ht, _⟩
  · exact h hwatch
  · rw [hq] at h; cases h
  · rw [Subsingleton.elim i 0, hidle] at ht; cases ht

end MigrationPlatform.Controller
