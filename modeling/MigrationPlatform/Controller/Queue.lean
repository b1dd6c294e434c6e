import MigrationPlatform.Controller.Seen

/-!
# The informer, the filter and the queue

The reconciler only runs for keys that an event has queued, and the filter lets
an update through only when the phase differs from that of the last object seen.
So whether a completion is noticed depends on how the informer's object, the
queue and the reconcile in flight move together.

`Abreast` is what a reconcile in flight can rely on: until it returns, either its
key is queued again or the informer still holds the object and the phase it has
read. `rest_step` lists the ways in which a key can come to rest, with nothing
queued and nothing in flight.
-/

namespace MigrationPlatform.Controller

variable {n : Nat} {w w' : World n} {a : Action n} {k : NamespacedName}

/-! ## Guards -/

/-- A reconcile of the key is in flight. -/
def World.Running (w : World n) (k : NamespacedName) : Prop := ∃ i, ∃ t ∈ w.workers i, t.req = k

instance (w : World n) (k : NamespacedName) : Decidable (w.Running k) :=
  inferInstanceAs (Decidable (∃ i, ∃ t ∈ w.workers i, t.req = k))

/-- The key that an action starts to reconcile. -/
def Action.started : Action n → Option NamespacedName
  | .start _ k => some k
  | _ => none

/-- The work queue hands a key to one worker at a time. -/
def Exclusive (w : World n) (a : Action n) : Prop := ∀ k ∈ a.started, ¬ w.Running k

instance (w : World n) (a : Action n) : Decidable (Exclusive w a) :=
  inferInstanceAs (Decidable (∀ k ∈ a.started, ¬ w.Running k))

/-- Where an action reads from. -/
def Action.source : Action n → Option Source
  | .get _ src => some src
  | _ => none

/-- Every read is answered from the informer's cache, which may lag. -/
def CachedReads (_ : World n) (a : Action n) : Prop := ∀ src ∈ a.source, src = .cache

instance (w : World n) (a : Action n) : Decidable (CachedReads w a) :=
  inferInstanceAs (Decidable (∀ src ∈ a.source, src = .cache))

/-- The old and the new object of an update that reaches the filter. -/
def World.updateSeen (w : World n) : Action n → Option (Workflow × Workflow)
  | .observe k =>
      match w.cache k, w.watch k with
      | some old, some new :: _ => some (old, new)
      | _, _ => none
  | _ => none

/-- No update that reaches the filter joins two objects in the same terminal phase. -/
def SeparatesObjects (w : World n) (a : Action n) : Prop :=
  ∀ p ∈ w.updateSeen a, p.1.status.phase = p.2.status.phase →
    p.2.status.phase.completed = true → p.1.uid = p.2.uid

instance (w : World n) (a : Action n) : Decidable (SeparatesObjects w a) :=
  inferInstanceAs (Decidable (∀ p ∈ w.updateSeen a, p.1.status.phase = p.2.status.phase →
    p.2.status.phase.completed = true → p.1.uid = p.2.uid))

/-- The completed workflow that `Get` returns with its phase on record, and its key. -/
def World.skipped (w : World n) : Action n → Option (NamespacedName × Workflow)
  | .get i src =>
      match w.workers i with
      | some ⟨_, req, .get⟩ =>
          match w.read src req with
          | .found wf =>
              if wf.status.phase.completed = true ∧ wf.notifiedPhase = wf.status.phase.str then
                some (req, wf)
              else none
          | _ => none
      | _ => none
  | _ => none

theorem mem_skipped {i : Fin n} {src : Source} {t : Task} {wf : Workflow}
    (ht : w.workers i = some t) (hst : t.stage = .get) (hr : w.read src t.req = .found wf)
    (hc : wf.status.phase.completed = true) (hn : wf.notifiedPhase = wf.status.phase.str) :
    (t.req, wf) ∈ w.skipped (.get i src) := by
  obtain ⟨id, req, stage⟩ := t
  subst hst
  simp only at hr
  simp [World.skipped, ht, hr, hc, hn]

/-- A reconcile that skips is not behind a patch: the annotation that it has read is the one
that is stored, unless its object is gone. -/
def RecordCurrent (w : World n) (a : Action n) : Prop :=
  ∀ p ∈ w.skipped a, ∀ s ∈ w.store p.1, s.uid = p.2.uid → s.recordedPhase = p.2.recordedPhase

instance (w : World n) (a : Action n) : Decidable (RecordCurrent w a) :=
  inferInstanceAs (Decidable (∀ p ∈ w.skipped a, ∀ s ∈ w.store p.1, s.uid = p.2.uid →
    s.recordedPhase = p.2.recordedPhase))

/-- So a completion that is skipped is on record in the store. -/
theorem RecordCurrent.recorded (h : RecordCurrent w a) {p : NamespacedName × Workflow}
    (hp : p ∈ w.skipped a) {s : Workflow} (hs : w.store p.1 = some s) (hu : s.uid = p.2.uid) :
    s.recordedPhase = some p.2.status.phase.str := by
  rw [h p hp s hs hu]
  cases a with
  | get i src =>
      simp only [World.skipped] at hp
      split at hp
      · split at hp
        · split at hp
          · rename_i hskip
            obtain rfl := Option.some.inj hp
            exact Workflow.recordedPhase_of_notified hskip.1 hskip.2
          · cases hp
        · cases hp
      · cases hp
  | _ => cases hp

/-! ## The filter -/

theorem queues_create (new : Workflow) : queues none (some new) = true := rfl

/-- An unqueued change of a seen object keeps its phase. -/
theorem phase_of_not_queues {old new : Workflow} (h : queues (some old) (some new) = false) :
    old.status.phase = new.status.phase := by
  simpa [queues, watchEvent, phaseChanged] using h

/-- **What a step does to the informer and the queue of a key.** -/
inductive KeyStep (w : World n) (a : Action n) (w' : World n) (k : NamespacedName) : Prop where
  /-- The informer's object stays, and a queued key stays queued. -/
  | kept : w'.cache k = w.cache k → (w.queue k = true → w'.queue k = true) → KeyStep w a w' k
  /-- The informer sees the next change. -/
  | seen {v : Option Workflow} {rest : List (Option Workflow)} : a = .observe k →
      w.watch k = v :: rest → w'.cache k = v →
      w'.queue k = (w.queue k || queues (w.cache k) v) → KeyStep w a w' k
  /-- A worker takes the key off the queue. -/
  | taken {i : Fin n} : a = .start i k → w'.cache k = w.cache k → KeyStep w a w' k
  | restarted : a = .restart → KeyStep w a w' k

theorem finish_queue {i : Fin n} {t : Task} {r : Except String Unit} (h : w.queue k = true) :
    (w.finish i t r).queue k = true := by
  by_cases hk : k = t.req
  · subst hk; simp [World.finish, h]
  · simpa [World.finish, Function.update_of_ne hk] using h

theorem key_step (hs : Step w a w') (k : NamespacedName) : KeyStep w a w' k := by
  cases hs with
  | @observe k' v rest hw =>
      by_cases hk : k = k'
      · subst hk
        exact .seen rfl hw (by simp [World.see]) (by simp [World.see])
      · exact .kept (by simp [World.see, Function.update_of_ne hk])
          (fun h => by simpa [World.see, Function.update_of_ne hk] using h)
  | restart => exact .restarted rfl
  | @enqueue k' =>
      refine .kept rfl fun h => ?_
      by_cases hk : k = k'
      · subst hk; simp
      · simpa [Function.update_of_ne hk] using h
  | @start i k' hi hq =>
      by_cases hk : k = k'
      · subst hk; exact .taken rfl rfl
      · exact .kept rfl (fun h => by simpa [World.call, Function.update_of_ne hk] using h)
  | get ht hst =>
      rw [World.afterGet]
      split
      · exact .kept rfl fun h => finish_queue h
      · exact .kept rfl fun h => h
  | getFails ht hst => exact .kept rfl fun h => finish_queue (w := { w with reads := _ }) h
  | @notify i err t wf ht hst =>
      cases err with
      | some err => exact .kept rfl fun h => finish_queue h
      | none => exact .kept rfl fun h => h
  | @patch i err t wf o ht hst ho =>
      exact .kept rfl fun h => finish_queue (w := { w.write _ _ with patched := _ }) h
  | patchFails ht hst => exact .kept rfl fun h => finish_queue h
  | patchNotFound ht hst hk => exact .kept rfl fun h => finish_queue h
  | _ => exact .kept rfl fun h => h

/-! ## Reconciles in flight -/

/-- The key is queued, or the informer has not left the object and phase that were read. -/
def World.Abreast (w : World n) (k : NamespacedName) (wf : Workflow) : Prop :=
  w.queue k = true ∨ w.cache k = none
    ∨ ∃ c, w.cache k = some c ∧ c.uid = wf.uid ∧ c.status.phase = wf.status.phase

/-- What the informer shows next of a completed workflow keeps a reconcile of it abreast. -/
theorem abreast_seen {wf : Workflow} (hc : wf.status.phase.completed = true)
    (h : w.Abreast k wf) {v : Option Workflow} {rest : List (Option Workflow)}
    (hsep : SeparatesObjects w (.observe k)) (hw : w.watch k = v :: rest)
    (hv : w'.cache k = v) (hq : w'.queue k = (w.queue k || queues (w.cache k) v)) :
    w'.Abreast k wf := by
  rcases h with h | h | ⟨c, hcache, hu, hp⟩
  · exact .inl (by rw [hq, h]; rfl)
  · cases v with
    | none => exact .inr (.inl hv)
    | some new => exact .inl (by rw [hq, h, queues_create, Bool.or_true])
  · cases v with
    | none => exact .inr (.inl hv)
    | some new =>
        cases hne : queues (w.cache k) (some new) with
        | true => exact .inl (by rw [hq, hne, Bool.or_true])
        | false =>
            -- filtered: the phase is the same, so by the guard the object is too
            rw [hcache] at hne
            have hphase := phase_of_not_queues hne
            have huid : c.uid = new.uid := by
              refine hsep (c, new) ?_ hphase (by rw [← hphase, hp]; exact hc)
              simp [World.updateSeen, hcache, hw]
            exact .inr (.inr ⟨new, hv, huid ▸ hu, hphase ▸ hp⟩)

/-- The invariants of the queue. -/
structure QueueInv (w : World n) : Prop where
  /-- The watch leads from the informer's object to the stored one. -/
  follows : ∀ k, (w.watch k).getLast?.getD (w.cache k) = w.store k
  /-- At most one reconcile of a key is in flight. -/
  single : ∀ i j t t', w.workers i = some t → w.workers j = some t' → t.req = t'.req → i = j
  /-- Reconciles in flight are abreast of the informer. -/
  abreast : ∀ i t wf, w.workers i = some t → t.stage.read = some wf → w.Abreast t.req wf

theorem queueInv_init : QueueInv (World.init : World n) where
  follows := fun _ => rfl
  single := by intro i j t t' h; simp [World.init] at h
  abreast := by intro i t wf h; simp [World.init] at h

theorem follows_write {k' : NamespacedName} {v : Option Workflow}
    (h : ∀ k, (w.watch k).getLast?.getD (w.cache k) = w.store k) :
    ((w.write k' v).watch k).getLast?.getD ((w.write k' v).cache k) = (w.write k' v).store k := by
  by_cases hk : k = k'
  · subst hk; simp [World.write]
  · simpa [World.write, Function.update_of_ne hk] using h k

theorem follows_step (h : ∀ k, (w.watch k).getLast?.getD (w.cache k) = w.store k)
    (hs : Step w a w') (k : NamespacedName) :
    (w'.watch k).getLast?.getD (w'.cache k) = w'.store k := by
  cases hs with
  | create _ _ => exact follows_write h
  | update _ => exact follows_write h
  | delete _ => exact follows_write h
  | @disconnect k' m hm =>
      by_cases hk : k = k'
      · subst hk
        simp only [Function.update_self, List.getLast?_drop, if_neg (Nat.not_le.mpr hm)]
        exact h k
      · simpa [Function.update_of_ne hk] using h k
  | @observe k' v rest hw =>
      by_cases hk : k = k'
      · subst hk
        have hlast := h k
        rw [hw] at hlast
        cases rest with
        | nil => simpa [World.see] using hlast
        | cons x rest =>
            simpa [World.see, List.getLast?_cons] using hlast
      · simpa [World.see, Function.update_of_ne hk] using h k
  | restart => cases hst : w.store k <;> simp [World.relist, hst]
  | get _ _ => rw [World.afterGet]; split <;> exact h k
  | @notify _ err _ _ _ _ => cases err <;> exact h k
  | @patch i err t wf o ht hst ho => exact follows_write (w := w) h
  | _ => exact h k

/-- **Exclusive keys keep one reconcile of a key in flight.** -/
theorem single_step
    (h : ∀ i j t t', w.workers i = some t → w.workers j = some t' → t.req = t'.req → i = j)
    (hex : Exclusive w a) (hs : Step w a w') (i j : Fin n) (t t' : Task)
    (ht : w'.workers i = some t) (ht' : w'.workers j = some t') (he : t.req = t'.req) : i = j := by
  have old : ∀ i t, w'.workers i = some t →
      (∃ t₀, w.workers i = some t₀ ∧ t₀.req = t.req) ∨ a = .start i t.req := by
    intro i t ht
    cases worker_step hs ht with
    | same h' => exact .inl ⟨t, h', rfl⟩
    | started ha _ _ he => subst he; exact .inr ha
    | read _ h' _ _ _ he => subst he; exact .inl ⟨_, h', rfl⟩
    | sent _ h' _ he => subst he; exact .inl ⟨_, h', rfl⟩
  have fresh : ∀ (i j : Fin n) (t t₀ : Task), a = .start i t.req → w.workers j = some t₀ →
      t₀.req ≠ t.req :=
    fun i j t t₀ ha hj he => hex t.req (by rw [ha]; rfl) ⟨j, t₀, hj, he⟩
  rcases old i t ht with ⟨t₀, h₀, hr⟩ | ha <;> rcases old j t' ht' with ⟨t₁, h₁, hr'⟩ | ha'
  · exact h i j t₀ t₁ h₀ h₁ (by rw [hr, hr', he])
  · exact absurd (hr.trans he) (fresh j i t' t₀ ha' h₀)
  · exact absurd (hr'.trans he.symm) (fresh i j t t₁ ha h₁)
  · rw [ha] at ha'; exact (Action.start.inj ha').1

/-- **The invariants of the queue are preserved by every step.** -/
theorem queueInv_step (hv : VersionInv w) (h : QueueInv w) (hex : Exclusive w a)
    (hcr : CachedReads w a) (hsep : SeparatesObjects w a) (hs : Step w a w') : QueueInv w' where
  follows := follows_step h.follows hs
  single := single_step h.single hex hs
  abreast := by
    -- a reconcile that was in flight before the step stays abreast
    have keep : ∀ i t wf, w.workers i = some t → t.stage.read = some wf →
        (∃ t', w'.workers i = some t') → w'.Abreast t.req wf := by
      intro i t wf ht hr hrun
      have hab := h.abreast i t wf ht hr
      cases key_step hs t.req with
      | kept hc hq =>
          rcases hab with h | h | ⟨c, hcache, hu, hp⟩
          · exact .inl (hq h)
          · exact .inr (.inl (hc.trans h))
          · exact .inr (.inr ⟨c, hc.trans hcache, hu, hp⟩)
      | seen ha hw hcv hq => subst ha; exact abreast_seen (hv.due i t wf ht hr).1 hab hsep hw hcv hq
      | taken ha _ => exact absurd ⟨i, t, ht, rfl⟩ (hex t.req (by rw [ha]; rfl))
      | restarted ha =>
          obtain ⟨t', ht'⟩ := hrun
          subst ha
          cases hs with
          | restart => cases ht'
    intro i t' wf ht' hr'
    cases worker_step hs ht' with
    | same ht => exact keep i t' wf ht hr' ⟨t', ht'⟩
    | started _ _ _ he => subst he; cases hr'
    | @read src t wf' ha ht hst hrd hd he =>
        subst ha; subst he
        obtain rfl := Option.some.inj hr'
        obtain rfl := hcr src rfl
        -- just read from the cache
        have hcache : w.cache t.req = some wf' := by
          cases hc : w.cache t.req with
          | none => simp [World.read, hc] at hrd
          | some c => simp only [World.read, hc, Option.elim] at hrd; cases hrd; rfl
        refine .inr (.inr ⟨wf', ?_, rfl, rfl⟩)
        cases key_step hs t.req with
        | kept hc _ => exact hc.trans hcache
        | seen ha => cases ha
        | taken ha => cases ha
        | restarted ha => cases ha
    | @sent t wf' ha ht hst he =>
        subst he
        obtain rfl := Option.some.inj hr'
        exact keep i t wf' ht (by rw [hst]; rfl) ⟨_, ht'⟩

/-! ## Keys at rest -/

/-- Nothing queued, nothing in flight. -/
def World.Idle (w : World n) (k : NamespacedName) : Prop :=
  w.queue k = false ∧ ∀ i t, w.workers i = some t → t.req ≠ k

/-- How a key can be idle after a step. -/
inductive Rest (w : World n) (a : Action n) (w' : World n) (k : NamespacedName) : Prop where
  /-- It was idle, and the informer saw nothing. -/
  | still : w.Idle k → w'.cache k = w.cache k → Rest w a w' k
  /-- It was idle, and the filter stopped what the informer saw. -/
  | filtered {v : Option Workflow} {rest : List (Option Workflow)} : w.Idle k → a = .observe k →
      w.watch k = v :: rest → queues (w.cache k) v = false → w'.cache k = v →
      w'.store k = w.store k → w'.delivered = w.delivered → Rest w a w' k
  /-- `Get` found nothing to deliver. -/
  | read {i : Fin n} {src : Source} {t : Task} : a = .get i src → w.workers i = some t →
      t.stage = .get → t.req = k → (∀ wf, w.read src k = .found wf → ¬ wf.Due) →
      w'.cache k = w.cache k → w'.store k = w.store k → w'.delivered = w.delivered →
      Rest w a w' k
  /-- The patch was applied and answered. -/
  | patched {i : Fin n} {t : Task} {wf o : Workflow} : a = .patch i none →
      w.workers i = some t → t.stage = .patch wf → t.req = k → w.queue k = false →
      w.store wf.key = some o → w'.cache k = w.cache k →
      w'.store = Function.update w.store wf.key (some (o.annotate wf.status.phase)) →
      w'.delivered = w.delivered → Rest w a w' k
  /-- There was nothing to patch. -/
  | gone {i : Fin n} {t : Task} {wf : Workflow} : a = .patchNotFound i →
      w.workers i = some t → t.stage = .patch wf → t.req = k → w.queue k = false →
      w.store wf.key = none → w'.cache k = w.cache k → w'.store = w.store →
      w'.delivered = w.delivered → Rest w a w' k
  | restarted : w'.cache k = none → Rest w a w' k

/-- A key that is idle once an execution has returned was idle before, or is the
key of that execution, which then returned no error. -/
theorem idle_finish {i : Fin n} {t : Task} {r : Except String Unit} (ht : w.workers i = some t)
    (h : (w.finish i t r).Idle k) :
    t.req ≠ k ∧ w.Idle k ∨ t.req = k ∧ w.queue k = false ∧ r.isOk = true := by
  obtain ⟨hq, hw⟩ := h
  by_cases hk : k = t.req
  · subst hk
    right
    simpa [World.finish] using hq
  · left
    refine ⟨Ne.symm hk, by simpa [World.finish, Function.update_of_ne hk] using hq, ?_⟩
    intro j t' ht'
    by_cases hj : j = i
    · subst hj
      obtain rfl := Option.some.inj (ht.symm.trans ht')
      exact Ne.symm hk
    · exact hw j t' (by simpa [World.finish, Function.update_of_ne hj] using ht')

/-- The same when the execution goes on instead. -/
theorem idle_await {i : Fin n} {t : Task} {s : Stage} (ht : w.workers i = some t)
    (h : (w.await i t s).Idle k) : w.Idle k := by
  refine ⟨h.1, fun j t' ht' => ?_⟩
  by_cases hj : j = i
  · subst hj
    obtain rfl := Option.some.inj (ht.symm.trans ht')
    exact h.2 j { t with stage := s } (by simp [World.await])
  · exact h.2 j t' (by simpa [World.await, Function.update_of_ne hj] using ht')

/-- **How a key comes to rest.** -/
theorem rest_step (hs : Step w a w') (h : w'.Idle k) : Rest w a w' k := by
  cases hs with
  | @observe k' v rest hw =>
      by_cases hk : k = k'
      · subst hk
        -- the event is not queued, so the filter has dropped it
        have hq : (w.queue k || queues (w.cache k) v) = false := by
          simpa [World.see] using h.1
        rw [Bool.or_eq_false_iff] at hq
        exact .filtered ⟨hq.1, h.2⟩ rfl hw hq.2 (by simp [World.see]) rfl rfl
      · exact .still ⟨by simpa [World.see, Function.update_of_ne hk] using h.1, h.2⟩
          (by simp [World.see, Function.update_of_ne hk])
  | restart => exact .restarted rfl
  | @enqueue k' =>
      have hk : k ≠ k' := by
        rintro rfl
        have := h.1
        simp at this
      exact .still ⟨by simpa [Function.update_of_ne hk] using h.1, h.2⟩ rfl
  | @start i k' hi hq =>
      -- the key that is taken off the queue is now held by its worker
      have hk : k ≠ k' := by
        rintro rfl
        exact h.2 i ⟨w.nextId, k, .get⟩ (by simp [World.call]) rfl
      refine .still ⟨by simpa [World.call, Function.update_of_ne hk] using h.1, ?_⟩ rfl
      intro j t ht
      have hj : j ≠ i := by
        rintro rfl
        rw [hi] at ht
        cases ht
      exact h.2 j t (by simpa [World.call, Function.update_of_ne hj] using ht)
  | @get i src t ht hst =>
      rw [World.afterGet] at h ⊢
      split at h
      · rename_i r hret
        -- the reconcile ends at the read: gone, or not due
        rcases idle_finish (w := { w with reads := _ }) ht h with ⟨_, hi⟩ | ⟨hk, _, hok⟩
        · exact .still hi rfl
        · subst hk
          refine .read rfl ht hst rfl (fun wf hr hd => ?_) rfl rfl rfl
          rw [onGet_go.mpr ⟨hr, hd⟩] at hret
          cases hret
      · exact .still (idle_await (w := { w with reads := _ }) ht h) rfl
  | @getFails i err t ht hst =>
      -- an error requeues its key
      rcases idle_finish (w := { w with reads := _ }) ht h with ⟨_, hi⟩ | ⟨_, _, hok⟩
      · exact .still hi rfl
      · cases hok
  | @notify i err t wf ht hst =>
      cases err with
      | some err =>
          rcases idle_finish ht h with ⟨_, hi⟩ | ⟨_, _, hok⟩
          · exact .still hi rfl
          · cases hok
      | none => exact .still (idle_await (w := { w with delivered := _ }) ht h) rfl
  | @patch i err t wf o ht hst ho =>
      rcases idle_finish (w := { w.write _ _ with patched := _ }) ht h with
        ⟨_, hi⟩ | ⟨hk, hq, hok⟩
      · exact .still hi rfl
      · cases err with
        | some err => cases hok
        | none => exact .patched rfl ht hst hk hq ho rfl rfl rfl
  | @patchFails i err t wf ht hst =>
      rcases idle_finish ht h with ⟨_, hi⟩ | ⟨_, _, hok⟩
      · exact .still hi rfl
      · cases hok
  | @patchNotFound i t wf ht hst hno =>
      rcases idle_finish ht h with ⟨_, hi⟩ | ⟨hk, hq, _⟩
      · exact .still hi rfl
      · exact .gone rfl ht hst hk hq hno rfl rfl rfl
  | _ => exact .still h rfl

end MigrationPlatform.Controller
