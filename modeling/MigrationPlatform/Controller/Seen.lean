import Mathlib.Data.List.Nodup
import MigrationPlatform.Controller.Cluster

/-!
# The versions of a workflow

At any moment a workflow exists in several versions: the one the API server
stores, the one the informer holds, those still in the watch, and the one a
reconcile in flight has read. This module says once where the versions of a
state come from (`sees_step`), and derives what holds of all of them in every
run: a version is kept under its own key, its UID is on record for that key,
and no two objects ever share a UID.
-/

namespace MigrationPlatform.Controller

variable {n : Nat} {w w' : World n} {a : Action n}

/-- The value of the annotation, if there is one. -/
def Workflow.recordedPhase (wf : Workflow) : Option String :=
  wf.annotations.lookup notifiedPhaseAnnotation

theorem Workflow.notifiedPhase_eq (wf : Workflow) :
    wf.notifiedPhase = wf.recordedPhase.getD "" := rfl

@[simp] theorem Workflow.recordedPhase_annotate (wf : Workflow) (p : WorkflowPhase) :
    (wf.annotate p).recordedPhase = some p.str := by
  simp [Workflow.recordedPhase, Workflow.annotate, StrMap.insert]

@[simp] theorem Workflow.notifiedPhase_annotate (wf : Workflow) (p : WorkflowPhase) :
    (wf.annotate p).notifiedPhase = p.str := by
  rw [Workflow.notifiedPhase_eq, Workflow.recordedPhase_annotate]; rfl

@[simp] theorem Workflow.annotate_uid (wf : Workflow) (p : WorkflowPhase) :
    (wf.annotate p).uid = wf.uid := rfl
@[simp] theorem Workflow.annotate_key (wf : Workflow) (p : WorkflowPhase) :
    (wf.annotate p).key = wf.key := rfl
@[simp] theorem Workflow.annotate_status (wf : Workflow) (p : WorkflowPhase) :
    (wf.annotate p).status = wf.status := rfl

/-- A terminal phase that matches the annotation value is really annotated. -/
theorem Workflow.recordedPhase_of_notified {wf : Workflow} (hc : wf.status.phase.completed = true)
    (h : wf.notifiedPhase = wf.status.phase.str) : wf.recordedPhase = some wf.status.phase.str := by
  rw [Workflow.notifiedPhase_eq] at h
  cases ha : wf.recordedPhase with
  | none => rw [ha] at h; exact absurd h.symm (WorkflowPhase.str_ne_empty hc)
  | some p => rw [ha] at h; exact congrArg some h

/-- The version that a reconcile at this stage has read. -/
def Stage.read : Stage → Option Workflow
  | .get => none
  | .notify wf => some wf
  | .patch wf => some wf

/-- `o` is a version of the object under `k` that somebody holds. -/
def World.Sees (w : World n) (k : NamespacedName) (o : Workflow) : Prop :=
  w.store k = some o ∨ w.cache k = some o ∨ some o ∈ w.watch k
    ∨ ∃ i t, w.workers i = some t ∧ t.req = k ∧ t.stage.read = some o

theorem World.Sees.of_store {k : NamespacedName} {o : Workflow} (h : w.store k = some o) :
    w.Sees k o := .inl h

theorem World.Sees.of_cache {k : NamespacedName} {o : Workflow} (h : w.cache k = some o) :
    w.Sees k o := .inr (.inl h)

theorem World.Sees.of_watch {k : NamespacedName} {o : Workflow} (h : some o ∈ w.watch k) :
    w.Sees k o := .inr (.inr (.inl h))

theorem World.Sees.of_worker {i : Fin n} {t : Task} {o : Workflow} (ht : w.workers i = some t)
    (h : t.stage.read = some o) : w.Sees t.req o := .inr (.inr (.inr ⟨i, t, ht, rfl, h⟩))

/-- A read returns a version of the key. -/
theorem World.Sees.of_read {src : Source} {k : NamespacedName} {o : Workflow}
    (h : w.read src k = .found o) : w.Sees k o := by
  cases src with
  | cache =>
      cases hc : w.cache k with
      | none => simp [World.read, hc] at h
      | some c => simp only [World.read, hc, Option.elim] at h; cases h; exact .of_cache hc
  | live =>
      cases hs : w.store k with
      | none => simp [World.read, hs] at h
      | some s => simp only [World.read, hs, Option.elim] at h; cases h; exact .of_store hs

/-! ## Where versions come from -/

theorem World.Sees.of_write {k k' : NamespacedName} {v : Option Workflow} {o : Workflow}
    (h : (w.write k' v).Sees k o) : w.Sees k o ∨ k = k' ∧ v = some o := by
  by_cases hk : k = k'
  · subst hk
    rcases h with h | h | h | h
    · exact .inr ⟨rfl, by simpa [World.write] using h⟩
    · exact .inl (.of_cache h)
    · have h' : some o ∈ w.watch k ∨ some o = v := by simpa [World.write] using h
      rcases h' with h | h
      · exact .inl (.of_watch h)
      · exact .inr ⟨rfl, h.symm⟩
    · exact .inl (.inr (.inr (.inr h)))
  · left
    rcases h with h | h | h | h
    · exact .of_store (by simpa [World.write, Function.update_of_ne hk] using h)
    · exact .of_cache h
    · exact .of_watch (by simpa [World.write, Function.update_of_ne hk] using h)
    · exact .inr (.inr (.inr h))

theorem World.Sees.of_see {k k' : NamespacedName} {v : Option Workflow}
    {rest : List (Option Workflow)} (hw : w.watch k' = v :: rest) {o : Workflow}
    (h : (w.see k' v rest).Sees k o) : w.Sees k o := by
  by_cases hk : k = k'
  · subst hk
    rcases h with h | h | h | h
    · exact .of_store h
    · refine .of_watch ?_
      rw [hw, ← show v = some o by simpa [World.see] using h]
      exact List.mem_cons_self
    · refine .of_watch ?_
      rw [hw]
      exact List.mem_cons_of_mem _ (by simpa [World.see] using h)
    · exact .inr (.inr (.inr h))
  · rcases h with h | h | h | h
    · exact .of_store h
    · exact .of_cache (by simpa [World.see, Function.update_of_ne hk] using h)
    · exact .of_watch (by simpa [World.see, Function.update_of_ne hk] using h)
    · exact .inr (.inr (.inr h))

theorem World.Sees.of_relist {k : NamespacedName} {o : Workflow} (h : w.relist.Sees k o) :
    w.Sees k o := by
  rcases h with h | h | h | ⟨i, t, h, _⟩
  · exact .of_store h
  · simp [World.relist] at h
  · exact .of_store (by simpa [World.relist] using h)
  · simp [World.relist] at h

/-- Handing a worker to a stage adds at most the version that the stage has read. -/
theorem World.Sees.of_worker_update {k : NamespacedName} {i : Fin n} {v : Option Task}
    {q : NamespacedName → Bool} {m : Nat} {rs : List (String × WorkflowPhase)} {o : Workflow}
    (h : { w with workers := Function.update w.workers i v, queue := q, nextId := m,
                  reads := rs }.Sees k o) :
    w.Sees k o ∨ ∃ t, v = some t ∧ t.req = k ∧ t.stage.read = some o := by
  rcases h with h | h | h | ⟨j, t, h, hr, ho⟩
  · exact .inl (.of_store h)
  · exact .inl (.of_cache h)
  · exact .inl (.of_watch h)
  · by_cases hj : j = i
    · subst hj
      exact .inr ⟨t, by simpa using h, hr, ho⟩
    · exact .inl (.inr (.inr (.inr ⟨j, t, by simpa [Function.update_of_ne hj] using h, hr, ho⟩)))

theorem World.Sees.of_finish {k : NamespacedName} {i : Fin n} {t : Task}
    {r : Except String Unit} {o : Workflow} (h : (w.finish i t r).Sees k o) : w.Sees k o := by
  rcases World.Sees.of_worker_update (v := none) h with h | ⟨_, h, _⟩
  · exact h
  · cases h

/-- How a version of key `k` came about in a step. -/
inductive Origin (w : World n) (a : Action n) (k : NamespacedName) (o : Workflow) : Prop where
  /-- It was there before, up to its status. -/
  | kept {o₀ : Workflow} : w.Sees k o₀ → o.uid = o₀.uid → o.key = o₀.key →
      o.recordedPhase = o₀.recordedPhase → Origin w a k o
  /-- The object was created. -/
  | created : a = .create o → k = o.key → Origin w a k o
  /-- A patch was applied to the stored object. -/
  | annotated {i : Fin n} {err : Option String} {t : Task} {wf o₀ : Workflow} :
      a = .patch i err → w.workers i = some t → t.stage = .patch wf → k = wf.key →
      w.store k = some o₀ → o = o₀.annotate wf.status.phase → Origin w a k o

/-- **A step makes new versions in two ways only**: a create and a patch. -/
theorem sees_step (hs : Step w a w') {k : NamespacedName} {o : Workflow} (h : w'.Sees k o) :
    Origin w a k o := by
  have same : w.Sees k o → Origin w a k o := fun h => .kept h rfl rfl rfl
  cases hs with
  | create hk hu =>
      rcases World.Sees.of_write h with h | ⟨rfl, hv⟩
      · exact same h
      · obtain rfl := Option.some.inj hv
        exact .created rfl rfl
  | update hk =>
      rcases World.Sees.of_write h with h | ⟨rfl, hv⟩
      · exact same h
      · obtain rfl := Option.some.inj hv
        exact .kept (.of_store hk) rfl rfl rfl
  | delete hk =>
      rcases World.Sees.of_write h with h | ⟨_, hv⟩
      · exact same h
      · cases hv
  | @disconnect k' m hm =>
      by_cases hk : k = k'
      · subst hk
        -- what is left on the watch was on it before, or is the stored object
        rcases h with h | h | h | h
        · exact same (.of_store h)
        · exact same (.of_cache h)
        · exact same (.of_watch (List.mem_of_mem_drop (by simpa using h)))
        · exact same (.inr (.inr (.inr h)))
      · exact same (by simpa [World.Sees, Function.update_of_ne hk] using h)
  | observe hw => exact same (.of_see hw h)
  | restart => exact same (.of_relist h)
  | enqueue => exact same h
  | start hi hq =>
      -- a worker that has just started has read nothing
      rcases World.Sees.of_worker_update h with h | ⟨t, ht, _, hr⟩
      · exact same h
      · cases ht; cases hr
  | @get i src t ht hstage =>
      rw [World.afterGet] at h
      split at h
      · rcases World.Sees.of_worker_update (v := none) h with h | ⟨_, h, _⟩
        · exact same h
        · cases h
      · rename_i wf hgo
        rcases World.Sees.of_worker_update h with h | ⟨t', ht', rfl, hr⟩
        · exact same h
        · cases ht'; cases hr
          exact same (.of_read (onGet_go.mp hgo).1)
  | getFails ht hstage => exact same (.of_finish (w := w) h)
  | @notify i err t wf ht hstage =>
      cases err with
      | some err => exact same (.of_finish h)
      | none =>
          rcases World.Sees.of_worker_update (w := { w with delivered := _ }) h
            with h | ⟨t', ht', rfl, hr⟩
          · exact same h
          · obtain rfl := Option.some.inj ht'
            obtain rfl := Option.some.inj hr
            exact same (.of_worker (t := t) ht (by rw [hstage]; rfl))
  | @patch i err t wf o' ht hstage ho =>
      have h' : (w.write wf.key (some (o'.annotate wf.status.phase))).Sees k o :=
        .of_finish (t := t) (r := onPatch (err.elim .ok .failed)) h
      rcases World.Sees.of_write h' with h | ⟨rfl, hv⟩
      · exact same h
      · obtain rfl := Option.some.inj hv
        exact .annotated rfl ht hstage rfl ho rfl
  | patchFails ht hstage => exact same (.of_finish h)
  | patchNotFound ht hstage hk => exact same (.of_finish h)

/-- How the stored object of key `k` came about in a step. -/
inductive Stored (w : World n) (a : Action n) (w' : World n) (k : NamespacedName) : Prop where
  | same : w'.store k = w.store k → Stored w a w' k
  | created {wf : Workflow} : a = .create wf → k = wf.key → wf.uid ∉ w.born.map Prod.fst →
      w'.store k = some wf → Stored w a w' k
  | updated {wf : Workflow} {st : WorkflowStatus} : a = .update k st → w.store k = some wf →
      w'.store k = some { wf with status := st } → Stored w a w' k
  | deleted : w'.store k = none → Stored w a w' k
  | annotated {i : Fin n} {err : Option String} {t : Task} {wf o : Workflow} :
      a = .patch i err → w.workers i = some t → t.stage = .patch wf → k = wf.key →
      w.store k = some o → w'.store k = some (o.annotate wf.status.phase) → Stored w a w' k

/-- **What a step does to the store.** -/
theorem stored_step (hs : Step w a w') (k : NamespacedName) : Stored w a w' k := by
  have written : ∀ (k' : NamespacedName) (v : Option Workflow),
      (w.write k' v).store k = w.store k ∨ k = k' ∧ (w.write k' v).store k = v := by
    intro k' v
    by_cases hk : k = k'
    · subst hk; exact .inr ⟨rfl, by simp [World.write]⟩
    · exact .inl (by simp [World.write, Function.update_of_ne hk])
  cases hs with
  | @create wf hk hu =>
      rcases written wf.key (some wf) with h | ⟨rfl, h⟩
      · exact .same h
      · exact .created rfl rfl hu h
  | @update k' wf st hk =>
      rcases written k' (some { wf with status := st }) with h | ⟨rfl, h⟩
      · exact .same h
      · exact .updated rfl hk h
  | @delete k' wf hk =>
      rcases written k' none with h | ⟨rfl, h⟩
      · exact .same h
      · exact .deleted h
  | get _ _ => rw [World.afterGet]; split <;> exact .same rfl
  | @notify _ err _ _ _ _ => cases err <;> exact .same rfl
  | @patch i err t wf o ht hst ho =>
      rcases written wf.key (some (o.annotate wf.status.phase)) with h | ⟨rfl, h⟩
      · exact .same h
      · exact .annotated rfl ht hst rfl ho h
  | _ => exact .same rfl

/-! ## Where reconciles and deliveries come from -/

/-- How worker `j` came to run the execution `t'` after a step. -/
inductive Advance (w : World n) (a : Action n) (j : Fin n) (t' : Task) : Prop where
  /-- It ran it before, at the same stage. -/
  | same : w.workers j = some t' → Advance w a j t'
  /-- It took a key off the queue. -/
  | started {k : NamespacedName} : a = .start j k → w.workers j = none → w.queue k = true →
      t' = ⟨w.nextId, k, .get⟩ → Advance w a j t'
  /-- `Get` answered with a workflow that is due. -/
  | read {src : Source} {t : Task} {wf : Workflow} : a = .get j src → w.workers j = some t →
      t.stage = .get → w.read src t.req = .found wf → wf.Due →
      t' = { t with stage := .notify wf } → Advance w a j t'
  /-- `Notify` succeeded. -/
  | sent {t : Task} {wf : Workflow} : a = .notify j none → w.workers j = some t →
      t.stage = .notify wf → t' = { t with stage := .patch wf } → Advance w a j t'

private theorem worker_update {f : Fin n → Option Task} {i j : Fin n} {v : Option Task} {t' : Task}
    (h : Function.update f i v j = some t') : j = i ∧ v = some t' ∨ f j = some t' := by
  by_cases hj : j = i
  · subst hj; exact .inl ⟨rfl, by simpa using h⟩
  · exact .inr (by simpa [Function.update_of_ne hj] using h)

/-- **What a step makes of the workers.** -/
theorem worker_step (hs : Step w a w') {j : Fin n} {t' : Task} (h : w'.workers j = some t') :
    Advance w a j t' := by
  have finished : ∀ {i : Fin n} {t : Task} {r : Except String Unit},
      (w.finish i t r).workers j = some t' → Advance w a j t' := by
    intro i t r h
    rcases worker_update h with ⟨_, h⟩ | h
    · cases h
    · exact .same h
  cases hs with
  | start hi hq =>
      -- the worker that acts advances, the others stay
      rcases worker_update h with ⟨rfl, hv⟩ | h
      · exact .started rfl hi hq (Option.some.inj hv).symm
      · exact .same h
  | @get i src t ht hstage =>
      rw [World.afterGet] at h
      split at h
      · exact finished (t := t) (r := .ok ()) h
      · rename_i wf hgo
        obtain ⟨hr, hd⟩ := onGet_go.mp hgo
        rcases worker_update h with ⟨rfl, hv⟩ | h
        · exact .read rfl ht hstage hr hd (Option.some.inj hv).symm
        · exact .same h
  | @getFails i err t ht hstage => exact finished (t := t) (r := .ok ()) h
  | @notify i err t wf ht hstage =>
      cases err with
      | some err => exact finished (t := t) (r := .ok ()) h
      | none =>
          rcases worker_update h with ⟨rfl, hv⟩ | h
          · exact .sent rfl ht hstage (Option.some.inj hv).symm
          · exact .same h
  | @patch i err t wf o ht hstage ho => exact finished (t := t) (r := .ok ()) h
  | patchFails ht hstage => exact finished h
  | patchNotFound ht hstage hk => exact finished h
  | restart => cases h
  | _ => exact .same h

/-- The worker that an action belongs to. -/
def Action.worker : Action n → Option (Fin n)
  | .start i _ | .get i _ | .getFails i _ | .notify i _ | .patch i _ | .patchFails i _
  | .patchNotFound i => some i
  | _ => none

/-- A worker is left alone by everything but its own actions and a restart. -/
theorem workers_of_ne (hs : Step w a w') {j : Fin n} (hj : a.worker ≠ some j)
    (hr : a ≠ .restart) : w'.workers j = w.workers j := by
  have update : ∀ {i : Fin n} {v : Option Task}, some i ≠ some j →
      Function.update w.workers i v j = w.workers j :=
    fun h => Function.update_of_ne (fun he => h (congrArg some he.symm)) _ _
  cases hs with
  | start _ _ => exact update hj
  | get _ _ => rw [World.afterGet]; split <;> exact update hj
  | getFails _ _ => exact update hj
  | @notify _ err _ _ _ _ => cases err <;> exact update hj
  | patch _ _ _ => exact update hj
  | patchFails _ _ => exact update hj
  | patchNotFound _ _ _ => exact update hj
  | restart => exact absurd rfl hr
  | _ => rfl

/-- A delivery hands the worker on to its patch. -/
theorem sent_worker {i : Fin n} {t : Task} {wf : Workflow} (hs : Step w (.notify i none) w')
    (ht : w.workers i = some t) (hst : t.stage = .notify wf) :
    w'.workers i = some { t with stage := .patch wf } := by
  cases hs with
  | notify ht₂ hst₂ =>
      obtain rfl := Option.some.inj (ht.symm.trans ht₂)
      obtain rfl := Stage.notify.inj (hst.symm.trans hst₂)
      exact Function.update_self ..

/-- Whether an action takes its patch from a worker: it fails without being applied, or the
controller stops before it. -/
def Action.dropsPatch : Action n → Fin n → Bool
  | .patchFails i _, j => i == j
  | .restart, _ => true
  | _, _ => false

/-- **How a reconcile stops waiting for its patch.** -/
theorem patch_ends (hs : Step w a w') {i : Fin n} {t : Task} {wf : Workflow}
    (ht : w.workers i = some t) (hst : t.stage = .patch wf) :
    w'.workers i = some t ∨ w.store wf.key = none
      ∨ (∃ o, w.store wf.key = some o ∧ w'.store wf.key = some (o.annotate wf.status.phase))
      ∨ a.dropsPatch i = true := by
  have mine : ∀ {t₂ : Task}, w.workers i = some t₂ → t₂ = t :=
    fun h => Option.some.inj (h.symm.trans ht)
  by_cases hw : a.worker = some i
  · cases hs with
    | start hi _ => cases hw; rw [ht] at hi; cases hi
    | get ht₂ hst₂ => cases hw; rw [mine ht₂, hst] at hst₂; cases hst₂
    | getFails ht₂ hst₂ => cases hw; rw [mine ht₂, hst] at hst₂; cases hst₂
    | notify ht₂ hst₂ => cases hw; rw [mine ht₂, hst] at hst₂; cases hst₂
    | patchFails _ _ => cases hw; exact .inr (.inr (.inr (beq_self_eq_true i)))
    | patch ht₂ hst₂ ho =>
        cases hw
        rw [mine ht₂, hst] at hst₂
        obtain rfl := Stage.patch.inj hst₂
        exact .inr (.inr (.inl ⟨_, ho, by simp [World.afterPatch, World.finish, World.write]⟩))
    | patchNotFound ht₂ hst₂ hk =>
        cases hw
        rw [mine ht₂, hst] at hst₂
        obtain rfl := Stage.patch.inj hst₂
        exact .inr (.inl hk)
    | _ => cases hw
  · by_cases hr : a = .restart
    · exact .inr (.inr (.inr (hr ▸ rfl)))
    · exact .inl ((workers_of_ne hs hw hr).trans ht)

/-- **What a step delivers**: nothing, or the event of a reconcile whose `Notify` succeeds. -/
theorem delivered_step (hs : Step w a w') :
    w'.delivered = w.delivered ∨ ∃ i t wf, a = .notify i none ∧ w.workers i = some t
      ∧ t.stage = .notify wf ∧ w'.delivered = ⟨t.id, eventFor wf⟩ :: w.delivered := by
  cases hs with
  | get _ _ => left; rw [World.afterGet]; split <;> rfl
  | @notify i err t wf ht hstage =>
      cases err with
      | some err => exact .inl rfl
      | none => exact .inr ⟨i, t, wf, rfl, ht, hstage, rfl⟩
  | _ => exact .inl rfl

theorem delivered_mono (hs : Step w a w') {d : Delivery} (h : d ∈ w.delivered) :
    d ∈ w'.delivered := by
  rcases delivered_step hs with he | ⟨_, _, _, _, _, _, he⟩
  · exact he ▸ h
  · exact he ▸ List.mem_cons_of_mem _ h

/-! ## What holds of all versions -/

/-- The record of created objects only grows, and by the object of a create. -/
theorem born_step (hs : Step w a w') :
    w'.born = w.born ∨ ∃ wf, a = .create wf ∧ wf.uid ∉ w.born.map Prod.fst
      ∧ w'.born = (wf.uid, wf.key) :: w.born := by
  cases hs with
  | @create wf _ hu => exact .inr ⟨wf, rfl, hu, rfl⟩
  | get _ _ => left; rw [World.afterGet]; split <;> rfl
  | @notify _ err _ _ _ _ => cases err <;> exact .inl rfl
  | _ => exact .inl rfl

theorem born_mono (hs : Step w a w') {b : String × NamespacedName} (h : b ∈ w.born) :
    b ∈ w'.born := by
  rcases born_step hs with he | ⟨_, _, _, he⟩
  · exact he ▸ h
  · exact he ▸ List.mem_cons_of_mem _ h

/-- The bookkeeping of versions. -/
structure VersionInv (w : World n) : Prop where
  /-- Every version is kept under its own key. -/
  keyed : ∀ k o, w.Sees k o → o.key = k
  /-- Every version belongs to an object created under that key. -/
  born : ∀ k o, w.Sees k o → (o.uid, k) ∈ w.born
  /-- No two objects share a UID. -/
  uids : (w.born.map Prod.fst).Nodup
  /-- A reconcile past its `Get` has read a workflow that was due. -/
  due : ∀ i t wf, w.workers i = some t → t.stage.read = some wf → wf.Due

theorem versionInv_init : VersionInv (World.init : World n) where
  keyed := by intro k o h; simp [World.Sees, World.init] at h
  born := by intro k o h; simp [World.Sees, World.init] at h
  uids := List.nodup_nil
  due := by intro i t wf h; simp [World.init] at h

/-- **The bookkeeping is preserved by every step.** -/
theorem versionInv_step (h : VersionInv w) (hs : Step w a w') : VersionInv w' where
  keyed := by
    intro k o ho
    cases sees_step hs ho with
    | kept hk _ hkey _ => rw [hkey]; exact h.keyed k _ hk
    | created _ hk => exact hk.symm
    | annotated _ _ _ _ hst he =>
        have hkey := h.keyed k _ (.of_store hst)
        exact he ▸ hkey
  born := by
    intro k o ho
    cases sees_step hs ho with
    | kept hk hu _ _ => rw [hu]; exact born_mono hs (h.born k _ hk)
    | created ha hk =>
        subst ha; subst hk
        cases hs with
        | create _ _ => exact List.mem_cons_self
    | annotated _ _ _ _ hst he =>
        have hborn := born_mono hs (h.born k _ (.of_store hst))
        exact he ▸ hborn
  uids := by
    rcases born_step hs with he | ⟨wf, _, hu, he⟩
    · exact he ▸ h.uids
    · rw [he]; exact List.nodup_cons.mpr ⟨hu, h.uids⟩
  due := by
    intro i t wf ht hr
    cases worker_step hs ht with
    | same h' => exact h.due i t wf h' hr
    | started _ _ _ he => subst he; cases hr
    | read _ _ _ _ hd he => subst he; obtain rfl := Option.some.inj hr; exact hd
    | sent _ h' hst he =>
        subst he
        exact h.due i _ wf h' (by rw [hst]; exact hr)

/-- A UID belongs to one key. -/
theorem VersionInv.same_key (h : VersionInv w) {k k' : NamespacedName} {o o' : Workflow}
    (ho : w.Sees k o) (ho' : w.Sees k' o') (hu : o.uid = o'.uid) : k = k' :=
  congrArg Prod.snd (List.inj_on_of_nodup_map h.uids (h.born k o ho) (h.born k' o' ho') hu)

/-- Two reconciles that have read the same UID are one, if a key has one at a time. -/
theorem VersionInv.same_worker (h : VersionInv w)
    (hsingle : ∀ i j t t', w.workers i = some t → w.workers j = some t' → t.req = t'.req → i = j)
    {i j : Fin n} {t t' : Task} {o o' : Workflow} (ht : w.workers i = some t)
    (ht' : w.workers j = some t') (ho : w.Sees t.req o) (ho' : w.Sees t'.req o')
    (hu : o.uid = o'.uid) : i = j ∧ t = t' := by
  obtain rfl := hsingle i j t t' ht ht' (h.same_key ho ho' hu)
  exact ⟨rfl, Option.some.inj (ht.symm.trans ht')⟩

end MigrationPlatform.Controller
