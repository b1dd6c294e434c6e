import MigrationPlatform.Controller.Outcome

/-!
# Once per terminal phase

With current reads and patches that succeed, the annotation of a workflow is the
phase delivered last, so a phase is delivered again only after another terminal
phase has been delivered in between. One annotation cannot remember more than
that: a workflow that is retried from Succeeded to Failed and back to Succeeded
is reported as succeeded twice.

It is reported at most once in each phase as long as no reconcile reads a
terminal phase again after it has read a different one.
-/

namespace MigrationPlatform.Controller

variable {n : Nat} {w w' : World n} {a : Action n}

/-- The phases of the events delivered for a UID, newest first. -/
def World.deliveredOf (w : World n) (uid : String) : List String :=
  (w.delivered.filter (·.event.uid == uid)).map (·.event.phase)

/-- The terminal phases that `Get` has returned for a UID, newest first. -/
def World.readsOf (w : World n) (uid : String) : List WorkflowPhase :=
  (w.reads.filter (·.1 == uid)).map (·.2)

/-- No workflow is reported twice in the same terminal phase. -/
def OncePerPhase (w : World n) : Prop :=
  ∀ uid (p : WorkflowPhase), p.completed = true → (w.deliveredOf uid).count p.str ≤ 1

/-- A step delivers for a UID at most one event, that of a reconcile at `Notify`. -/
theorem deliveredOf_step (hs : Step w a w') (uid : String) :
    w'.deliveredOf uid = w.deliveredOf uid ∨ ∃ i t wf, a = .notify i none
      ∧ w.workers i = some t ∧ t.stage = .notify wf ∧ wf.uid = uid
      ∧ w'.deliveredOf uid = wf.status.phase.str :: w.deliveredOf uid := by
  rcases delivered_step hs with he | ⟨i, t, wf, ha, ht, hst, he⟩
  · exact .inl (by rw [World.deliveredOf, he]; rfl)
  · by_cases hu : wf.uid = uid
    · exact .inr ⟨i, t, wf, ha, ht, hst, hu, by simp [World.deliveredOf, he, hu]⟩
    · exact .inl (by simp [World.deliveredOf, he, hu])

theorem reads_afterGet (i : Fin n) (t : Task) (res : GetResult) :
    (w.afterGet i t res).reads = World.terminalRead res ++ w.reads := by
  rw [World.afterGet]; split <;> rfl

/-- A step reads for a UID at most one terminal phase, that of a reconcile at `Get`. -/
theorem readsOf_step (hs : Step w a w') (uid : String) :
    w'.readsOf uid = w.readsOf uid ∨ ∃ i src t wf, a = .get i src ∧ w.workers i = some t
      ∧ t.stage = .get ∧ w.read src t.req = .found wf ∧ wf.status.phase.completed = true
      ∧ wf.uid = uid ∧ w'.readsOf uid = wf.status.phase :: w.readsOf uid := by
  cases hs with
  | @get i src t ht hst =>
      cases hr : w.read src t.req with
      | found wf =>
          rw [World.readsOf, reads_afterGet, World.terminalRead]
          split
          · rename_i hc
            by_cases hu : wf.uid = uid
            · exact .inr ⟨i, src, t, wf, rfl, ht, hst, hr, hc, hu, by simp [World.readsOf, hu]⟩
            · exact .inl (by simp [World.readsOf, hu])
          · exact .inl rfl
      | notFound => exact .inl (by rw [World.readsOf, reads_afterGet]; rfl)
      | failed err => exact .inl (by rw [World.readsOf, reads_afterGet]; rfl)
  | @notify _ err _ _ _ _ => cases err <;> exact .inl rfl
  | _ => exact .inl rfl

/-! ## The guards -/

/-- Every read is answered with the stored object. -/
def LiveReads (_ : World n) (a : Action n) : Prop := ∀ src ∈ a.source, src = .live

instance (w : World n) (a : Action n) : Decidable (LiveReads w a) :=
  inferInstanceAs (Decidable (∀ src ∈ a.source, src = .live))

/-- Whether an action loses the patch of a reconcile that has delivered. -/
def World.losesPatch (w : World n) : Action n → Bool
  | .patchFails _ _ => true
  | .restart => decide (∃ i, ∃ t ∈ w.workers i, ∃ wf ∈ t.stage.read, t.stage = .patch wf)
  | _ => false

/-- What is assumed: fresh names, exclusive keys, current reads, and no patch is lost. -/
def OnceAssumed (w : World n) (a : Action n) : Prop :=
  FreshNames w a ∧ Exclusive w a ∧ LiveReads w a ∧ w.losesPatch a = false

instance (w : World n) (a : Action n) : Decidable (OnceAssumed w a) :=
  inferInstanceAs (Decidable (_ ∧ _ ∧ _ ∧ _))

/-- The completed workflow that `Get` returns. -/
def World.completedRead (w : World n) : Action n → Option Workflow
  | .get i src =>
      match w.workers i with
      | some ⟨_, req, .get⟩ =>
          match w.read src req with
          | .found wf => if wf.status.phase.completed then some wf else none
          | _ => none
      | _ => none
  | _ => none

theorem mem_completedRead {i : Fin n} {src : Source} {t : Task} {wf : Workflow}
    (ht : w.workers i = some t) (hst : t.stage = .get) (hr : w.read src t.req = .found wf)
    (hc : wf.status.phase.completed = true) : wf ∈ w.completedRead (.get i src) := by
  obtain ⟨id, req, stage⟩ := t
  subst hst
  simp only at hr
  simp [World.completedRead, ht, hr, hc]

/-- A terminal phase that was read before is the last terminal phase read. -/
def NoPhaseReturns (w : World n) (a : Action n) : Prop :=
  ∀ wf ∈ w.completedRead a, wf.status.phase ∈ w.readsOf wf.uid →
    (w.readsOf wf.uid).head? = some wf.status.phase

instance (w : World n) (a : Action n) : Decidable (NoPhaseReturns w a) :=
  inferInstanceAs (Decidable (∀ wf ∈ w.completedRead a, wf.status.phase ∈ w.readsOf wf.uid →
    (w.readsOf wf.uid).head? = some wf.status.phase))

/-! ## The invariant -/

/-- The summary of the delivery history by reads and annotations. -/
structure OnceInv (w : World n) : Prop where
  version : VersionInv w
  oneUid : OneUid w
  /-- At most one reconcile of a key is in flight. -/
  single : ∀ i j t t', w.workers i = some t → w.workers j = some t' → t.req = t'.req → i = j
  /-- No phase is delivered twice. -/
  nodup : ∀ u, (w.deliveredOf u).Nodup
  /-- Only what exists is reported, and only in phases that were read. -/
  known : ∀ u p, p ∈ w.deliveredOf u → u ∈ w.born.map Prod.fst ∧ p ∈ (w.readsOf u).map (·.str)
  /-- If the phase read last was delivered, it was delivered last. -/
  lastRead : ∀ u (p : WorkflowPhase), (w.readsOf u).head? = some p → p.str ∈ w.deliveredOf u →
    (w.deliveredOf u).head? = some p.str
  /-- The annotation is the phase delivered last, unless its patch is on the way. -/
  recorded : ∀ k s p, w.store k = some s → (w.deliveredOf s.uid).head? = some p →
    s.recordedPhase = some p ∨ ∃ i t wf, w.workers i = some t ∧ t.stage = .patch wf ∧ wf.uid = s.uid
  /-- A reconcile before its delivery is about to report a new phase. -/
  notifying : ∀ i t wf, w.workers i = some t → t.stage = .notify wf →
    wf.status.phase.str ∉ w.deliveredOf wf.uid ∧ (w.readsOf wf.uid).head? = some wf.status.phase
  /-- A reconcile after its delivery has reported the last one. -/
  patching : ∀ i t wf, w.workers i = some t → t.stage = .patch wf →
    (w.deliveredOf wf.uid).head? = some wf.status.phase.str

theorem onceInv_init : OnceInv (World.init : World n) where
  version := versionInv_init
  oneUid := oneUid_init
  single := by intro i j t t' h; simp [World.init] at h
  nodup := fun _ => List.nodup_nil
  known := by intro u p h; simp [World.deliveredOf, World.init] at h
  lastRead := by intro u p h; simp [World.readsOf, World.init] at h
  recorded := by intro k s p h; simp [World.init] at h
  notifying := by intro i t wf h; simp [World.init] at h
  patching := by intro i t wf h; simp [World.init] at h

section Step

variable {i : Fin n} {t : Task} {wf : Workflow}

/-- A delivery is the newest of its UID. -/
theorem deliveredOf_sent (hs : Step w (.notify i none) w') (ht : w.workers i = some t)
    (hst : t.stage = .notify wf) :
    w'.deliveredOf wf.uid = wf.status.phase.str :: w.deliveredOf wf.uid := by
  cases hs with
  | notify ht₂ hst₂ =>
      obtain rfl := Option.some.inj (ht.symm.trans ht₂)
      obtain rfl := Stage.notify.inj (hst.symm.trans hst₂)
      simp [World.deliveredOf, World.afterNotify, World.await, onNotify]

/-- A terminal phase that is read is the newest of its UID. -/
theorem readsOf_read {src : Source} (hs : Step w (.get i src) w') (ht : w.workers i = some t)
    (hr : w.read src t.req = .found wf) (hc : wf.status.phase.completed = true) :
    w'.readsOf wf.uid = wf.status.phase :: w.readsOf wf.uid := by
  cases hs with
  | get ht₂ _ =>
      obtain rfl := Option.some.inj (ht.symm.trans ht₂)
      rw [World.readsOf, reads_afterGet, hr, World.terminalRead, if_pos hc]
      simp [World.readsOf]

theorem readsOf_mono (hs : Step w a w') {u : String} {p : WorkflowPhase} (h : p ∈ w.readsOf u) :
    p ∈ w'.readsOf u := by
  rcases readsOf_step hs u with he | ⟨_, _, _, _, _, _, _, _, _, _, he⟩
  · exact he ▸ h
  · exact he ▸ List.mem_cons_of_mem _ h

/-- A current read returns the stored object. -/
theorem store_of_live {k : NamespacedName} (hr : w.read .live k = .found wf) :
    w.store k = some wf := by
  cases hs : w.store k with
  | none => simp [World.read, hs] at hr
  | some s => simp only [World.read, hs, Option.elim] at hr; cases hr; rfl

/-- How a reconcile stops waiting for its patch when no patch is lost. -/
theorem patch_leaves (hs : Step w a w') (hl : w.losesPatch a = false) (ht : w.workers i = some t)
    (hst : t.stage = .patch wf) :
    w'.workers i = some t ∨ w.store wf.key = none
      ∨ ∃ o, w.store wf.key = some o ∧ w'.store wf.key = some (o.annotate wf.status.phase) := by
  rcases patch_ends hs ht hst with h | h | h | hdrops
  · exact .inl h
  · exact .inr (.inl h)
  · exact .inr (.inr h)
  · -- a patch that is dropped is lost
    have hlost : w.losesPatch a = true := by
      cases a with
      | patchFails _ _ => rfl
      | restart => exact decide_eq_true ⟨i, t, ht, wf, by rw [hst]; rfl, hst⟩
      | _ => cases hdrops
    rw [hl] at hlost
    cases hlost

end Step

/-- Two reconciles that have read the same UID are one. -/
theorem OnceInv.same_worker (h : OnceInv w) {i j : Fin n} {t t' : Task} {o o' : Workflow}
    (ht : w.workers i = some t) (ht' : w.workers j = some t') (ho : w.Sees t.req o)
    (ho' : w.Sees t'.req o') (hu : o.uid = o'.uid) : i = j ∧ t = t' :=
  h.version.same_worker h.single ht ht' ho ho' hu

/-- **A reconcile that goes on to `Notify` has a phase that was not delivered.** -/
theorem OnceInv.new_phase (h : OnceInv w) {i : Fin n} {t : Task} {wf : Workflow}
    (hnr : NoPhaseReturns w (.get i .live)) (ht : w.workers i = some t) (hst : t.stage = .get)
    (hr : w.read .live t.req = .found wf) (hd : wf.Due) :
    wf.status.phase.str ∉ w.deliveredOf wf.uid := by
  intro hmem
  -- it was delivered, so it was read, so it was read last, so it was delivered last
  have hread : wf.status.phase ∈ w.readsOf wf.uid := by
    obtain ⟨⟨str⟩, hq, he⟩ := List.mem_map.mp (h.known _ _ hmem).2
    subst he
    exact hq
  have hlast := h.lastRead _ _ (hnr wf (mem_completedRead ht hst hr hd.1) hread) hmem
  rcases h.recorded _ _ _ (store_of_live hr) hlast with hann | ⟨j, t', wf', ht', hst', hu⟩
  · exact hd.2 (by rw [Workflow.notifiedPhase_eq, hann]; rfl)
  · have hread' : t'.stage.read = some wf' := by rw [hst']; rfl
    obtain ⟨_, rfl⟩ := h.same_worker ht ht' (.of_read hr) (.of_worker ht' hread') hu.symm
    rw [hst] at hst'
    cases hst'

/-- A worker at `Notify` has not been passed by a delivery or a read of the same UID. -/
theorem notifying_step (h : OnceInv w) (hok : OnceAssumed w a) (hnr : NoPhaseReturns w a)
    (hs : Step w a w') (i : Fin n) (t' : Task) (wf : Workflow) (ht' : w'.workers i = some t')
    (hst' : t'.stage = .notify wf) :
    wf.status.phase.str ∉ w'.deliveredOf wf.uid
      ∧ (w'.readsOf wf.uid).head? = some wf.status.phase := by
  have hread' : t'.stage.read = some wf := by rw [hst']; rfl
  cases worker_step hs ht' with
  | same ht =>
      have hsees : w.Sees t'.req wf := .of_worker ht hread'
      constructor
      · rcases deliveredOf_step hs wf.uid with he | ⟨j, t, wf₀, ha, hj, hstj, hu, _⟩
        · rw [he]; exact (h.notifying i t' wf ht hst').1
        · -- only this reconcile could deliver, and then it would be past `Notify`
          subst ha
          obtain ⟨rfl, rfl⟩ := h.same_worker hj ht (.of_worker hj (by rw [hstj]; rfl)) hsees hu
          rw [sent_worker hs hj hstj] at ht'
          rw [← Option.some.inj ht'] at hst'
          cases hst'
      · rcases readsOf_step hs wf.uid with he | ⟨j, src, t, wf₀, _, hj, hstj, hr, _, hu, _⟩
        · rw [he]; exact (h.notifying i t' wf ht hst').2
        · obtain ⟨_, rfl⟩ := h.same_worker hj ht (.of_read hr) hsees hu
          rw [hstj] at hst'
          cases hst'
  | started _ _ _ he => subst he; cases hst'
  | @read src t wf' ha ht hst hr hd he =>
      subst ha; subst he
      obtain rfl := Stage.notify.inj hst'
      obtain rfl := hok.2.2.1 src rfl
      constructor
      · rcases deliveredOf_step hs wf'.uid with he | ⟨_, _, _, ha, _⟩
        · rw [he]; exact h.new_phase hnr ht hst hr hd
        · cases ha
      · rw [readsOf_read hs ht hr hd.1]; rfl
  | sent _ _ _ he => subst he; cases hst'

/-- **The annotation keeps naming the last delivery**, or a patch on the way will. -/
theorem recorded_step (h : OnceInv w) (hok : OnceAssumed w a) (hs : Step w a w')
    (k : NamespacedName) (s : Workflow) (p : String) (hstore : w'.store k = some s)
    (hlast : (w'.deliveredOf s.uid).head? = some p) :
    s.recordedPhase = some p
      ∨ ∃ i t wf, w'.workers i = some t ∧ t.stage = .patch wf ∧ wf.uid = s.uid := by
  -- an object that was there before, up to its status
  have kept : ∀ s₀, w.store k = some s₀ → s.uid = s₀.uid → s.recordedPhase = s₀.recordedPhase →
      s.recordedPhase = some p
        ∨ ∃ i t wf, w'.workers i = some t ∧ t.stage = .patch wf ∧ wf.uid = s.uid := by
    intro s₀ hs₀ hu hann
    rcases deliveredOf_step hs s.uid with he | ⟨i, t, wf, ha, ht, hst, hu', _⟩
    · rw [he, hu] at hlast
      rcases h.recorded k s₀ p hs₀ hlast with hp | ⟨i, t, wf, ht, hst, hu'⟩
      · exact .inl (hann.trans hp)
      · have hread : t.stage.read = some wf := by rw [hst]; rfl
        have hsees : w.Sees t.req wf := .of_worker ht hread
        have hkey : wf.key = k :=
          (h.version.keyed _ _ hsees).trans (h.version.same_key hsees (.of_store hs₀) hu')
        rcases patch_leaves hs hok.2.2.2 ht hst with hstays | hnone | ⟨o, ho, ho'⟩
        · exact .inr ⟨i, t, wf, hstays, hst, hu'.trans hu.symm⟩
        · rw [hkey, hs₀] at hnone; cases hnone
        · rw [hkey, hstore] at ho'
          have hp := h.patching i t wf ht hst
          rw [hu', hlast] at hp
          rw [Option.some.inj ho', Workflow.recordedPhase_annotate, ← hp]
          exact .inl rfl
    · subst ha
      exact .inr ⟨i, _, wf, sent_worker hs ht hst, rfl, hu'⟩
  cases stored_step hs k with
  | same he => exact kept s (he.symm.trans hstore) rfl rfl
  | updated _ ho he =>
      obtain rfl := Option.some.inj (hstore.symm.trans he)
      exact kept _ ho rfl rfl
  | deleted he => rw [hstore] at he; cases he
  | created ha _ hu he =>
      -- nothing was ever delivered for a new UID
      obtain rfl := Option.some.inj (hstore.symm.trans he)
      subst ha
      rcases deliveredOf_step hs s.uid with hd | ⟨_, _, _, ha, _⟩
      · rw [hd] at hlast
        exact absurd (h.known _ _ (List.mem_of_mem_head? hlast)).1 hu
      · cases ha
  | @annotated i err t wf o ha ht hst hk ho he =>
      -- the patch writes the phase that its own reconcile has delivered
      obtain rfl := Option.some.inj (hstore.symm.trans he)
      subst ha; subst hk
      have hread : t.stage.read = some wf := by rw [hst]; rfl
      have hsees : w.Sees t.req wf := .of_worker ht hread
      rw [h.version.keyed _ _ hsees] at ho
      have hu : o.uid = wf.uid := h.oneUid.same_uid h.version (.of_store ho) hsees
      rcases deliveredOf_step hs o.uid with hd | ⟨_, _, _, ha, _⟩
      · rw [Workflow.annotate_uid, hd, hu, h.patching i t wf ht hst] at hlast
        rw [Workflow.recordedPhase_annotate]
        exact .inl hlast
      · cases ha

/-- **The summary is preserved by every step in which no phase returns.** -/
theorem onceInv_step (h : OnceInv w) (hok : OnceAssumed w a) (hnr : NoPhaseReturns w a)
    (hs : Step w a w') : OnceInv w' where
  version := versionInv_step h.version hs
  oneUid := oneUid_step h.oneUid hok.1 hs
  single := single_step h.single hok.2.1 hs
  nodup := by
    intro u
    rcases deliveredOf_step hs u with he | ⟨i, t, wf, _, ht, hst, rfl, he⟩
    · rw [he]; exact h.nodup u
    · rw [he]; exact List.nodup_cons.mpr ⟨(h.notifying i t wf ht hst).1, h.nodup _⟩
  known := by
    intro u p hp
    have old : u ∈ w.born.map Prod.fst ∧ p ∈ (w.readsOf u).map (·.str) := by
      rcases deliveredOf_step hs u with he | ⟨i, t, wf, _, ht, hst, rfl, he⟩
      · exact h.known u p (he ▸ hp)
      · rw [he] at hp
        rcases List.mem_cons.mp hp with rfl | hp
        · -- what is delivered has been read
          have hread : t.stage.read = some wf := by rw [hst]; rfl
          exact ⟨List.mem_map_of_mem (h.version.born _ _ (.of_worker ht hread)),
            List.mem_map_of_mem (List.mem_of_mem_head? (h.notifying i t wf ht hst).2)⟩
        · exact h.known _ p hp
    obtain ⟨⟨u', k⟩, hb, rfl⟩ := List.mem_map.mp old.1
    obtain ⟨q, hq, rfl⟩ := List.mem_map.mp old.2
    exact ⟨List.mem_map_of_mem (born_mono hs hb), List.mem_map_of_mem (readsOf_mono hs hq)⟩
  lastRead := by
    intro u p hhead hmem
    rcases readsOf_step hs u with he | ⟨i, src, t, wf, ha, ht, hst, hr, hc, rfl, he⟩
    · rw [he] at hhead
      rcases deliveredOf_step hs u with hd | ⟨i, t, wf, _, ht, hst, rfl, hd⟩
      · rw [hd] at hmem ⊢
        exact h.lastRead u p hhead hmem
      · -- what is delivered is the phase read last
        rw [(h.notifying i t wf ht hst).2] at hhead
        obtain rfl := Option.some.inj hhead
        rw [hd]; rfl
    · subst ha
      rw [he] at hhead
      obtain rfl := Option.some.inj hhead
      rcases deliveredOf_step hs wf.uid with hd | ⟨_, _, _, ha, _⟩
      · rw [hd] at hmem ⊢
        have hread : wf.status.phase ∈ w.readsOf wf.uid := by
          obtain ⟨⟨str⟩, hq, hstr⟩ := List.mem_map.mp (h.known _ _ hmem).2
          subst hstr
          exact hq
        exact h.lastRead _ _ (hnr wf (mem_completedRead ht hst hr hc) hread) hmem
      · cases ha
  recorded := recorded_step h hok hs
  notifying := notifying_step h hok hnr hs
  patching := by
    intro i t' wf ht' hst'
    cases worker_step hs ht' with
    | same ht =>
        rcases deliveredOf_step hs wf.uid with he | ⟨j, t, wf₀, _, hj, hstj, hu, _⟩
        · rw [he]; exact h.patching i t' wf ht hst'
        · have hread : t.stage.read = some wf₀ := by rw [hstj]; rfl
          have hread' : t'.stage.read = some wf := by rw [hst']; rfl
          obtain ⟨_, rfl⟩ := h.same_worker hj ht (.of_worker hj hread) (.of_worker ht hread') hu
          rw [hstj] at hst'
          cases hst'
    | started _ _ _ he => subst he; cases hst'
    | read _ _ _ _ _ he => subst he; cases hst'
    | sent ha ht hst he =>
        subst ha; subst he
        obtain rfl := Stage.patch.inj hst'
        rw [deliveredOf_sent hs ht hst]; rfl

/--
**Once per terminal phase in every run in which no phase returns.** Any number of
keys and workers, any phases in between, and any failures of `Get` and `Notify`.
-/
theorem once_per_phase
    (h : World.Reachable (fun w a => OnceAssumed w a ∧ NoPhaseReturns w a) w) :
    OncePerPhase w := by
  have hinv : OnceInv w :=
    h.invariant onceInv_init fun _ _ _ _ ih hok hs => onceInv_step ih hok.1 hok.2 hs
  exact fun u p _ => List.nodup_iff_count_le_one.mp (hinv.nodup u) p.str

/-- What Argo and the controller do when a workflow ends in `p` and the event arrives. -/
def completes (p : WorkflowPhase) : List (Action 1) :=
  [.update exampleKey { phase := p }, .enqueue exampleKey, .start w0 exampleKey, .get w0 .live,
    .notify w0 none, .patch w0 none]

/-- The workflow fails and then succeeds in a retry. -/
def secondPhaseRun : List (Action 1) :=
  .create (exampleWorkflow "uid-1" workflowRunning) :: completes workflowFailed
    ++ .update exampleKey { phase := workflowRunning } :: completes workflowSucceeded

theorem once_per_phase_secondPhaseRun :
    ∃ w : World 1, w.deliveredOf "uid-1" = ["Succeeded", "Failed"] ∧ OncePerPhase w := by
  have hend : ∃ w : World 1,
      World.Reachable (fun w a => OnceAssumed w a ∧ NoPhaseReturns w a) w
        ∧ w.deliveredOf "uid-1" = ["Succeeded", "Failed"] :=
    World.exists_reachable secondPhaseRun (by decide) (by decide)
  obtain ⟨w, hr, hd⟩ := hend
  exact ⟨w, hd, once_per_phase hr⟩

/-! ## A phase that returns -/

/-- The workflow succeeds, fails in a retry, and succeeds in the next one. -/
def returningRun : List (Action 1) :=
  .create (exampleWorkflow "uid-1" workflowRunning) :: completes workflowSucceeded
    ++ .update exampleKey { phase := workflowRunning } :: completes workflowFailed
    ++ .update exampleKey { phase := workflowRunning } :: completes workflowSucceeded

theorem not_once_per_phase :
    ∃ w : World 1, World.Reachable OnceAssumed w ∧ ¬ OncePerPhase w := by
  have hend : ∃ w : World 1, World.Reachable OnceAssumed w
      ∧ w.deliveredOf "uid-1" = ["Succeeded", "Failed", "Succeeded"] :=
    World.exists_reachable returningRun (by decide) (by decide)
  obtain ⟨w, hr, hd⟩ := hend
  refine ⟨w, hr, fun hall => ?_⟩
  have hcount := hall "uid-1" workflowSucceeded (by decide)
  rw [hd] at hcount
  exact absurd hcount (by decide)

end MigrationPlatform.Controller
