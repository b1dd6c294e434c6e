import Mathlib.Data.Finset.Card
import Mathlib.Data.Finset.SDiff
import MigrationPlatform.Controller.Once

/-!
# The account of deliveries

One completed workflow that only the controller writes to, under every fault the
controller can meet: calls that fail, a patch that is applied although its answer
is an error, and a restart between any two steps. A delivery is either one whose
execution never got its patch applied, or the one that the annotation records.

`ExecInv` holds in every run: an execution delivers once at most, and before it
patches. The rest is about the stored object, which has only two values: as it
was, and annotated.
-/

namespace MigrationPlatform.Controller

variable {n : Nat} {w w' : World n} {a : Action n}

/-! ## Executions -/

/-- The executions that have delivered. -/
def World.senders (w : World n) : List Nat := w.delivered.map (·.exec)

/-- Only a call of `Reconcile` takes a number. -/
theorem nextId_step (hs : Step w a w') :
    w'.nextId = w.nextId ∨ ∃ i k, a = .start i k ∧ w'.nextId = w.nextId + 1 := by
  cases hs with
  | start _ _ => exact .inr ⟨_, _, rfl, rfl⟩
  | get _ _ => left; rw [World.afterGet]; split <;> rfl
  | @notify _ err _ _ _ _ => cases err <;> exact .inl rfl
  | _ => exact .inl rfl

theorem nextId_mono (hs : Step w a w') : w.nextId ≤ w'.nextId := by
  rcases nextId_step hs with he | ⟨_, _, _, he⟩ <;> omega

theorem senders_step (hs : Step w a w') :
    w'.senders = w.senders ∨ ∃ i t wf, a = .notify i none ∧ w.workers i = some t
      ∧ t.stage = .notify wf ∧ w'.senders = t.id :: w.senders := by
  rcases delivered_step hs with he | ⟨i, t, wf, ha, ht, hst, he⟩
  · exact .inl (congrArg (List.map _) he)
  · exact .inr ⟨i, t, wf, ha, ht, hst, congrArg (List.map _) he⟩

theorem senders_mono (hs : Step w a w') {e : Nat} (h : e ∈ w.senders) : e ∈ w'.senders := by
  rcases senders_step hs with he | ⟨_, _, _, _, _, _, he⟩
  · exact he ▸ h
  · exact he ▸ List.mem_cons_of_mem _ h

/-- The bookkeeping of executions. -/
structure ExecInv (w : World n) : Prop where
  /-- Numbers in use are below the next one. -/
  below : ∀ i t, w.workers i = some t → t.id < w.nextId
  sendersBelow : ∀ e ∈ w.senders, e < w.nextId
  /-- Two workers never run the same execution. -/
  distinct : ∀ i j t t', w.workers i = some t → w.workers j = some t' → t.id = t'.id → i = j
  /-- An execution delivers once at most. -/
  nodup : w.senders.Nodup
  /-- An execution has delivered exactly when it waits for its patch. -/
  sent : ∀ i t, w.workers i = some t → (t.id ∈ w.senders ↔ ∃ wf, t.stage = .patch wf)

/-- **The bookkeeping of executions is preserved by every step.** -/
theorem execInv_step (h : ExecInv w) (hs : Step w a w') : ExecInv w' where
  below := by
    intro i t ht
    have hle := nextId_mono hs
    cases worker_step hs ht with
    | same ht => exact (h.below i t ht).trans_le hle
    | started ha _ _ he =>
        subst ha; subst he
        cases hs with
        | start _ _ => exact Nat.lt_succ_self _
    | read _ h' _ _ _ he => subst he; exact (h.below i _ h').trans_le hle
    | sent _ h' _ he => subst he; exact (h.below i _ h').trans_le hle
  sendersBelow := by
    intro e he
    have hle := nextId_mono hs
    rcases senders_step hs with hd | ⟨i, t, _, _, ht, _, hd⟩ <;> rw [hd] at he
    · exact (h.sendersBelow e he).trans_le hle
    · rcases List.mem_cons.mp he with rfl | he
      · exact (h.below i t ht).trans_le hle
      · exact (h.sendersBelow e he).trans_le hle
  distinct := by
    -- an execution is an old one, or the one that has just got the next number
    have old : ∀ i t, w'.workers i = some t →
        (∃ t₀, w.workers i = some t₀ ∧ t₀.id = t.id) ∨ ∃ k, a = .start i k ∧ t.id = w.nextId := by
      intro i t ht
      cases worker_step hs ht with
      | same h' => exact .inl ⟨t, h', rfl⟩
      | started ha _ _ he => subst he; exact .inr ⟨_, ha, rfl⟩
      | read _ h' _ _ _ he => subst he; exact .inl ⟨_, h', rfl⟩
      | sent _ h' _ he => subst he; exact .inl ⟨_, h', rfl⟩
    intro i j t t' ht ht' he
    rcases old i t ht with ⟨t₀, h₀, hid⟩ | ⟨k, ha, hid⟩ <;>
      rcases old j t' ht' with ⟨t₁, h₁, hid'⟩ | ⟨k', ha', hid'⟩
    · exact h.distinct i j t₀ t₁ h₀ h₁ (by rw [hid, hid', he])
    · have := h.below i t₀ h₀; omega
    · have := h.below j t₁ h₁; omega
    · rw [ha] at ha'; exact (Action.start.inj ha').1
  nodup := by
    rcases senders_step hs with hd | ⟨i, t, wf, _, ht, hst, hd⟩
    · rw [hd]; exact h.nodup
    · rw [hd]
      refine List.nodup_cons.mpr ⟨fun hmem => ?_, h.nodup⟩
      obtain ⟨_, hp⟩ := (h.sent i t ht).mp hmem
      rw [hst] at hp
      cases hp
  sent := by
    intro i t' ht'
    cases worker_step hs ht' with
    | same ht =>
        rcases senders_step hs with hd | ⟨j, t, wf, ha, hj, hst, hd⟩
        · rw [hd]; exact h.sent i t' ht
        · rw [hd, List.mem_cons, h.sent i t' ht]
          refine or_iff_right fun hid => ?_
          -- the execution that delivers is past `Notify` afterwards
          obtain rfl := h.distinct i j t' t ht hj hid
          obtain rfl := Option.some.inj (ht.symm.trans hj)
          subst ha
          have hstage := congrArg Task.stage
            (Option.some.inj (ht'.symm.trans (sent_worker hs hj hst)))
          rw [hst] at hstage
          cases hstage
    | started ha _ _ he =>
        -- its number is new, so nothing was delivered under it
        subst ha; subst he
        refine iff_of_false (fun hmem => ?_) (by rintro ⟨_, hp⟩; cases hp)
        rcases senders_step hs with hd | ⟨_, _, _, ha, _⟩
        · exact absurd (h.sendersBelow _ (hd ▸ hmem)) (Nat.lt_irrefl _)
        · cases ha
    | @read _ t _ ha ht hst _ _ he =>
        -- it was at `Get`, so it had not delivered, and reading delivers nothing
        subst ha; subst he
        refine iff_of_false (fun hmem => ?_) (by rintro ⟨_, hp⟩; cases hp)
        rcases senders_step hs with hd | ⟨_, _, _, ha, _⟩
        · obtain ⟨_, hp⟩ := (h.sent i t ht).mp (hd ▸ hmem)
          rw [hst] at hp
          cases hp
        · cases ha
    | @sent t wf ha ht hst he =>
        subst ha; subst he
        refine iff_of_true ?_ ⟨_, rfl⟩
        rcases senders_step hs with hd | ⟨j, t₀, wf₀, ha, hj, _, hd⟩
        · have hlen := congrArg List.length hd
          cases hs with
          | notify _ _ => simp [World.senders, World.afterNotify, World.await, onNotify] at hlen
        · cases ha
          obtain rfl := Option.some.inj (ht.symm.trans hj)
          rw [hd]
          exact List.mem_cons_self

/-! ## One completed workflow -/

/-- A cluster that holds one workflow and has not looked at it yet. -/
def World.holding (wf : Workflow) : World n :=
  { World.init with
    store := Function.update (fun _ => none) wf.key (some wf)
    watch := Function.update (fun _ => []) wf.key [some wf]
    born := [(wf.uid, wf.key)] }

/-- Somebody else writes to the API server. -/
def Action.isForeign : Action n → Bool
  | .create _ | .update _ _ | .delete _ => true
  | _ => false

/-- What is assumed: only the controller writes, keys are exclusive, reads are current. -/
def AccountAssumed (w : World n) (a : Action n) : Prop :=
  a.isForeign = false ∧ Exclusive w a ∧ LiveReads w a

instance (w : World n) (a : Action n) : Decidable (AccountAssumed w a) :=
  inferInstanceAs (Decidable (_ ∧ _ ∧ _))

/-- The executions that have delivered and whose patch was not applied. -/
def World.unrecorded (w : World n) : Finset Nat := w.senders.toFinset \ w.patched.toFinset

/-- What is recorded of a workflow: nothing, or the delivery of one execution. -/
inductive Record (wf : Workflow) (w : World n) : Prop where
  /-- Nothing is recorded. -/
  | blank : w.store = Function.update (fun _ => none) wf.key (some wf) → w.patched = [] →
      Record wf w
  /-- One delivery is recorded, and nobody is on the way to another. -/
  | noted {e : Nat} :
      w.store = Function.update (fun _ => none) wf.key (some (wf.annotate wf.status.phase)) →
      e ∈ w.senders → w.patched = [e] → (∀ i t, w.workers i = some t → t.stage = .get) →
      Record wf w

/-- The invariant of a cluster that holds one completed workflow. -/
structure AccountInv (wf : Workflow) (w : World n) : Prop where
  exec : ExecInv w
  single : ∀ i j t t', w.workers i = some t → w.workers j = some t' → t.req = t'.req → i = j
  /-- A reconcile past its `Get` has read the workflow as it was. -/
  reading : ∀ i t o, w.workers i = some t → t.stage.read = some o → o = wf ∧ t.req = wf.key
  record : Record wf w

theorem accountInv_holding (wf : Workflow) : AccountInv wf (World.holding wf : World n) where
  exec := {
    below := by intro i t h; simp [World.holding, World.init] at h
    sendersBelow := by intro e h; simp [World.senders, World.holding, World.init] at h
    distinct := by intro i j t t' h; simp [World.holding, World.init] at h
    nodup := List.nodup_nil
    sent := by intro i t h; simp [World.holding, World.init] at h }
  single := by intro i j t t' h; simp [World.holding, World.init] at h
  reading := by intro i t o h; simp [World.holding, World.init] at h
  record := .blank rfl rfl

/-- What a current read can return: the workflow as it was or annotated, under its key. -/
theorem Record.read {wf o : Workflow} {k : NamespacedName} (h : Record wf w)
    (hr : w.read .live k = .found o) (hd : o.Due) :
    o = wf ∧ k = wf.key ∧ w.patched = [] := by
  have hstore := store_of_live hr
  have hkey : k = wf.key := by
    by_contra hne
    cases h with
    | blank hs _ => rw [hs, Function.update_of_ne hne] at hstore; cases hstore
    | noted hs _ _ _ => rw [hs, Function.update_of_ne hne] at hstore; cases hstore
  subst hkey
  cases h with
  | blank hs hp =>
      rw [hs, Function.update_self] at hstore
      exact ⟨(Option.some.inj hstore).symm, rfl, hp⟩
  | noted hs _ _ _ =>
      -- an annotated workflow is not due
      rw [hs, Function.update_self] at hstore
      obtain rfl := Option.some.inj hstore
      exact absurd (Workflow.notifiedPhase_annotate wf wf.status.phase) hd.2

/-- What a step of the controller does to the store: nothing, or what a patch says. -/
theorem own_step (hs : Step w a w') (hf : a.isForeign = false) :
    (w'.store = w.store ∧ w'.patched = w.patched) ∨ ∃ i t wf o, w.workers i = some t
      ∧ t.stage = .patch wf ∧ w.store wf.key = some o
      ∧ w'.store = Function.update w.store wf.key (some (o.annotate wf.status.phase))
      ∧ w'.patched = t.id :: w.patched ∧ w'.workers = Function.update w.workers i none := by
  cases hs with
  | create _ _ => cases hf
  | update _ => cases hf
  | delete _ => cases hf
  | get _ _ => left; rw [World.afterGet]; split <;> exact ⟨rfl, rfl⟩
  | @notify _ err _ _ _ _ => left; cases err <;> exact ⟨rfl, rfl⟩
  | patch ht hst ho => exact .inr ⟨_, _, _, _, ht, hst, ho, rfl, rfl, rfl⟩
  | _ => exact .inl ⟨rfl, rfl⟩

/-- A reconcile goes on from `Get` only while nothing is recorded. -/
theorem AccountInv.read_blank {wf o : Workflow} {src : Source} {k : NamespacedName} {i : Fin n}
    (h : AccountInv wf w) (hok : AccountAssumed w (.get i src)) (hr : w.read src k = .found o)
    (hd : o.Due) : o = wf ∧ k = wf.key ∧ w.patched = [] := by
  obtain rfl := hok.2.2 src rfl
  exact h.record.read hr hd

/-- **The record is kept by every step of the controller.** -/
theorem record_step {wf : Workflow} (h : AccountInv wf w) (hok : AccountAssumed w a)
    (hs : Step w a w') : Record wf w' := by
  rcases own_step hs hok.1 with ⟨hstore, hp⟩ | ⟨i, t, o, s, ht, hst, ho, hstore, hp, hw⟩
  · cases h.record with
    | blank hs₀ hp₀ => exact .blank (hstore.trans hs₀) (hp.trans hp₀)
    | noted hs₀ he hp₀ hget =>
        refine .noted (hstore.trans hs₀) (senders_mono hs he) (hp.trans hp₀) fun i t ht => ?_
        cases worker_step hs ht with
        | same ht => exact hget i t ht
        | started _ _ _ he => subst he; rfl
        | read ha _ _ hr hd _ =>
            subst ha
            have hblank := (h.read_blank hok hr hd).2.2
            rw [hp₀] at hblank
            cases hblank
        | sent _ ht hst _ => rw [hget _ _ ht] at hst; cases hst
  · obtain ⟨rfl, hreq⟩ := h.reading i t o ht (by rw [hst]; rfl)
    cases h.record with
    | noted _ _ _ hget => rw [hget i t ht] at hst; cases hst
    | blank hs₀ hp₀ =>
        rw [hs₀, Function.update_self] at ho
        obtain rfl := Option.some.inj ho
        refine .noted (e := t.id) ?_ ?_ (by rw [hp, hp₀]) fun j t' ht' => ?_
        · rw [hstore, hs₀, Function.update_idem]
        · exact senders_mono hs ((h.exec.sent i t ht).mpr ⟨_, hst⟩)
        · -- another reconcile past its `Get` would be a second one of the key
          rw [hw] at ht'
          by_cases hj : j = i
          · subst hj; simp at ht'
          · rw [Function.update_of_ne hj] at ht'
            cases hst' : t'.stage with
            | get => rfl
            | notify o' =>
                have hr := (h.reading j t' o' ht' (by rw [hst']; rfl)).2
                exact absurd (h.single j i t' t ht' ht (hr.trans hreq.symm)) hj
            | patch o' =>
                have hr := (h.reading j t' o' ht' (by rw [hst']; rfl)).2
                exact absurd (h.single j i t' t ht' ht (hr.trans hreq.symm)) hj

/-- **The invariant is preserved by every step of the controller.** -/
theorem accountInv_step {wf : Workflow} (h : AccountInv wf w) (hok : AccountAssumed w a)
    (hs : Step w a w') : AccountInv wf w' where
  exec := execInv_step h.exec hs
  single := single_step h.single hok.2.1 hs
  reading := by
    intro i t' o ht' hr'
    cases worker_step hs ht' with
    | same ht => exact h.reading i t' o ht hr'
    | started _ _ _ he => subst he; cases hr'
    | read ha _ _ hr hd he =>
        subst ha; subst he
        obtain rfl := Option.some.inj hr'
        exact ⟨(h.read_blank hok hr hd).1, (h.read_blank hok hr hd).2.1⟩
    | @sent t _ _ ht hst he =>
        subst he
        exact h.reading i t o ht (by rw [hst]; exact hr')
  record := record_step h hok hs

/-- Once a delivery is recorded a step delivers nothing. -/
theorem delivered_noted {wf : Workflow} (h : AccountInv wf w) (hp : w.patched ≠ [])
    (hs : Step w a w') : w'.delivered = w.delivered := by
  rcases delivered_step hs with he | ⟨i, t, o, _, ht, hst, _⟩
  · exact he
  · cases h.record with
    | blank _ hp₀ => exact absurd hp₀ hp
    | noted _ _ _ hget => rw [hget i t ht] at hst; cases hst

theorem patched_noted (hp : w.patched ≠ [])
    (hok : AccountAssumed w a) (hs : Step w a w') : w'.patched ≠ [] := by
  rcases own_step hs hok.1 with ⟨_, he⟩ | ⟨_, _, _, _, _, _, _, _, he, _⟩
  · rw [he]; exact hp
  · rw [he]; exact List.cons_ne_nil _ _

/-- The states of a cluster that holds `wf` in runs of the controller alone. -/
abbrev World.ReachableHolding (wf : Workflow) (w : World n) : Prop :=
  Transition.Reachable World.act (· = World.holding wf) AccountAssumed w

theorem accountInv_reachable {wf : Workflow} (h : World.ReachableHolding wf w) :
    AccountInv wf w :=
  Transition.Reachable.invariant h (fun _ hw => hw ▸ accountInv_holding wf)
    fun _ _ _ _ ih hok hs => accountInv_step ih hok (step_of_act hs)

/-- **Once a delivery is recorded no run delivers anything.** -/
theorem delivered_final {wf : Workflow} (h : AccountInv wf w) (hp : w.patched ≠ [])
    (hr : Transition.Reachable World.act (· = w) AccountAssumed w') :
    w'.delivered = w.delivered := by
  have hinv : AccountInv wf w' ∧ w'.patched ≠ [] ∧ w'.delivered = w.delivered :=
    Transition.Reachable.invariant
      (I := fun v => AccountInv wf v ∧ v.patched ≠ [] ∧ v.delivered = w.delivered) hr
      (by rintro _ rfl; exact ⟨h, hp, rfl⟩)
      fun _ _ _ _ ih hok hs =>
        ⟨accountInv_step ih.1 hok (step_of_act hs),
          patched_noted ih.2.1 hok (step_of_act hs),
          (delivered_noted ih.1 ih.2.1 (step_of_act hs)).trans ih.2.2⟩
  exact hinv.2.2

/--
**The account of deliveries.** After any run of the controller the deliveries are
those of the executions whose patch was not applied, and one more if the phase is
recorded. The annotation is absent or the phase, and once it is the phase no
continuation of the run delivers anything.
-/
theorem delivery_account (wf : Workflow) (hnew : wf.recordedPhase = none)
    (h : World.ReachableHolding wf w) :
    ∃ o, w.store wf.key = some o
      ∧ (o.recordedPhase = none ∨ o.recordedPhase = some wf.status.phase.str)
      ∧ w.delivered.length
          = w.unrecorded.card + (if o.recordedPhase = some wf.status.phase.str then 1 else 0)
      ∧ (o.recordedPhase = some wf.status.phase.str →
          ∀ w' : World n, Transition.Reachable World.act (· = w) AccountAssumed w' →
            w'.delivered = w.delivered) := by
  have hinv := accountInv_reachable h
  have hlen : w.delivered.length = w.senders.toFinset.card := by
    rw [List.toFinset_card_of_nodup hinv.exec.nodup, World.senders, List.length_map]
  cases hinv.record with
  | blank hs hp =>
      refine ⟨wf, by rw [hs, Function.update_self], .inl hnew, ?_, ?_⟩
      · simp [World.unrecorded, hp, hlen, hnew]
      · rw [hnew]; nofun
  | @noted e hs he hp _ =>
      have hann := Workflow.recordedPhase_annotate wf wf.status.phase
      refine ⟨_, by rw [hs, Function.update_self], .inr hann, ?_, fun _ w' hr => ?_⟩
      · have hmem : e ∈ w.senders.toFinset := List.mem_toFinset.mpr he
        rw [if_pos hann, hlen, World.unrecorded, hp, List.toFinset_cons, List.toFinset_nil,
          LawfulSingleton.insert_empty_eq, Finset.card_sdiff_of_subset
            (Finset.singleton_subset_iff.mpr hmem), Finset.card_singleton]
        have := Finset.card_pos.mpr ⟨e, hmem⟩
        omega
      · exact delivered_final hinv (by rw [hp]; exact List.cons_ne_nil _ _) hr

/--
Two deliveries whose patch is lost, one to an error and one to a restart, and one
whose patch is applied though the answer is an error. The last reconcile skips.
-/
def faultyRun : List (Action 1) :=
  [.observe exampleKey, .start w0 exampleKey, .getFails w0 "timeout", .enqueue exampleKey,
    .start w0 exampleKey, .get w0 .live, .notify w0 (some "refused"), .start w0 exampleKey,
    .get w0 .live, .notify w0 none, .patchFails w0 "conflict", .start w0 exampleKey, .get w0 .live,
    .notify w0 none, .restart, .observe exampleKey, .start w0 exampleKey, .get w0 .live,
    .notify w0 none, .patch w0 (some "timeout"), .start w0 exampleKey, .get w0 .live]

theorem delivery_account_faultyRun :
    ∃ w : World 1, w.delivered.length = 3 ∧ w.unrecorded.card = 2
      ∧ ∃ o, w.store exampleKey = some o ∧ o.recordedPhase = some "Succeeded"
        ∧ w.delivered.length
            = w.unrecorded.card + (if o.recordedPhase = some "Succeeded" then 1 else 0) := by
  have hok : Transition.RunOk World.act AccountAssumed
      (World.holding (exampleWorkflow "uid-1" workflowSucceeded)) faultyRun := by decide
  have hend : ∃ w ∈ Transition.run World.act
      (World.holding (exampleWorkflow "uid-1" workflowSucceeded)) faultyRun,
        w.delivered.length = 3 ∧ w.unrecorded.card = 2
          ∧ w.store exampleKey
              = some ((exampleWorkflow "uid-1" workflowSucceeded).annotate workflowSucceeded) := by
    decide
  obtain ⟨w, hrun, hlen, hcard, hs⟩ := hend
  have hr : World.ReachableHolding (exampleWorkflow "uid-1" workflowSucceeded) w :=
    Transition.Reachable.run (.init rfl) hok hrun
  obtain ⟨o, ho, _, haccount, _⟩ :=
    delivery_account (exampleWorkflow "uid-1" workflowSucceeded) (by decide) hr
  have ho' : w.store exampleKey = some o := ho
  have hann : o.recordedPhase = some "Succeeded" := by
    rw [← Option.some.inj (hs.symm.trans ho')]
    exact Workflow.recordedPhase_annotate _ _
  exact ⟨w, hlen, hcard, o, ho', hann, haccount⟩

end MigrationPlatform.Controller
