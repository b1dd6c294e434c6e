import MigrationPlatform.Controller.Annotation
import MigrationPlatform.Controller.Queue

/-!
# The last event is the final outcome

A listener acts on the last event it has received, so when everything has come
to rest that event should carry the phase the workflow ended in. Argo may retry a
workflow out of a terminal phase any number of times, and each new phase queues
the key; what can go wrong is the skip. It compares the phase and the annotation
of one snapshot, and neither a snapshot older than the controller's own patch nor
an annotation that a failed patch left behind says what was delivered last.

Where no older phase is left behind, the annotation in the store is the phase
delivered last, but for the time between a delivery and its patch. A key is only
skipped outside that time, so a skip on a current snapshot is of the phase delivered
last, and an idle key's last delivery is the phase the informer shows.
-/

namespace MigrationPlatform.Controller

variable {n : Nat} {w w' : World n} {a : Action n} {k : NamespacedName}

/-- The phase of the last event delivered for a UID. -/
def World.lastPhase (w : World n) (uid : String) : Option String :=
  (w.delivered.find? (·.event.uid == uid)).map (·.event.phase)

/-- A step changes the last phase of a UID only by a delivery for it. -/
theorem lastPhase_step (hs : Step w a w') (uid : String) :
    w'.lastPhase uid = w.lastPhase uid ∨ ∃ i t wf, a = .notify i none ∧ w.workers i = some t
      ∧ t.stage = .notify wf ∧ wf.uid = uid ∧ w'.lastPhase uid = some wf.status.phase.str := by
  rcases delivered_step hs with he | ⟨i, t, wf, ha, ht, hst, he⟩
  · exact .inl (by rw [World.lastPhase, he]; rfl)
  · by_cases hu : wf.uid = uid
    · exact .inr ⟨i, t, wf, ha, ht, hst, hu, by simp [World.lastPhase, he, hu]⟩
    · exact .inl (by simp [World.lastPhase, he, hu])

/-- The key is quiescent: the informer shows the stored object and nothing is left to do. -/
def World.Quiescent (w : World n) (k : NamespacedName) : Prop := w.cache k = w.store k ∧ w.Idle k

/-- The last event of a completed workflow at rest carries its phase. -/
def OutcomeDelivered (w : World n) : Prop :=
  ∀ k wf, w.Quiescent k → w.store k = some wf → wf.status.phase.completed = true →
    w.lastPhase wf.uid = some wf.status.phase.str

/-! ## The guards -/

/-- A name is used for one workflow only. -/
def FreshNames (w : World n) (a : Action n) : Prop :=
  ∀ wf ∈ a.created, wf.key ∉ w.born.map Prod.snd

instance (w : World n) (a : Action n) : Decidable (FreshNames w a) :=
  inferInstanceAs (Decidable (∀ wf ∈ a.created, wf.key ∉ w.born.map Prod.snd))

/-- The workflow that a worker is about to patch. -/
def World.patching (w : World n) (i : Fin n) : Option Workflow :=
  match w.workers i with
  | some ⟨_, _, .patch wf⟩ => some wf
  | _ => none

/-- A patch is dropped only where no older phase is on record. -/
def NoOlderRecord (w : World n) (a : Action n) : Prop :=
  ∀ i, a.dropsPatch i = true → ∀ wf ∈ w.patching i, ∀ s ∈ w.store wf.key,
    s.recordedPhase = none ∨ s.recordedPhase = some wf.status.phase.str

instance (w : World n) (a : Action n) : Decidable (NoOlderRecord w a) :=
  inferInstanceAs (Decidable (∀ i, a.dropsPatch i = true → ∀ wf ∈ w.patching i,
    ∀ s ∈ w.store wf.key, s.recordedPhase = none ∨ s.recordedPhase = some wf.status.phase.str))

/-- The record can be relied on: workflows start without one, a patch that is dropped leaves
no older one behind, and no reconcile skips behind a patch. -/
def RecordKept (w : World n) (a : Action n) : Prop :=
  CreatesUnannotated w a ∧ NoOlderRecord w a ∧ RecordCurrent w a

instance (w : World n) (a : Action n) : Decidable (RecordKept w a) :=
  inferInstanceAs (Decidable (_ ∧ _ ∧ _))

/-- What is assumed: names are not reused, keys are exclusive, reads come from the cache. -/
def OutcomeAssumed (w : World n) (a : Action n) : Prop :=
  FreshNames w a ∧ Exclusive w a ∧ CachedReads w a

instance (w : World n) (a : Action n) : Decidable (OutcomeAssumed w a) :=
  inferInstanceAs (Decidable (_ ∧ _ ∧ _))

/-! ## One name, one workflow -/

/-- Without reuse of names a key stands for one UID. -/
def OneUid (w : World n) : Prop := ∀ k u u', (u, k) ∈ w.born → (u', k) ∈ w.born → u = u'

theorem oneUid_init : OneUid (World.init : World n) := by
  intro k u u' h; simp [World.init] at h

theorem oneUid_step (h : OneUid w) (hf : FreshNames w a) (hs : Step w a w') : OneUid w' := by
  rcases born_step hs with he | ⟨wf, ha, _, he⟩
  · rw [OneUid, he]; exact h
  · have hnew : ∀ u, (u, wf.key) ∉ w.born := fun u hu =>
      hf wf (by rw [ha]; rfl) (List.mem_map_of_mem hu)
    intro k u u' hu hu'
    rw [he] at hu hu'
    rcases List.mem_cons.mp hu with hu | hu <;> rcases List.mem_cons.mp hu' with hu' | hu'
    · cases hu; cases hu'; rfl
    · cases hu; exact absurd hu' (hnew u')
    · cases hu'; exact absurd hu (hnew u)
    · exact h k u u' hu hu'

/-- What is seen under a key is of one object. -/
theorem OneUid.same_uid (h : OneUid w) (hv : VersionInv w) {o o' : Workflow} (ho : w.Sees k o)
    (ho' : w.Sees k o') : o.uid = o'.uid :=
  h k _ _ (hv.born k o ho) (hv.born k o' ho')

/-- So an update that the informer sees never joins two objects. -/
theorem separates_of_oneUid (hv : VersionInv w) (h : OneUid w) : SeparatesObjects w a := by
  intro p hp _ _
  cases a with
  | observe k =>
      simp only [World.updateSeen] at hp
      split at hp
      · rename_i old new rest hold hnew
        obtain rfl := Option.some.inj hp
        refine h.same_uid hv (.of_cache hold) (.of_watch ?_)
        rw [hnew]
        exact List.mem_cons_self
      · cases hp
  | _ => cases hp

/-! ## The invariant -/

/-- The invariant of deliveries. -/
structure OutcomeInv (w : World n) : Prop where
  version : VersionInv w
  queue : QueueInv w
  oneUid : OneUid w
  /-- Between its delivery and its patch, a reconcile's event is the last one. -/
  sent : ∀ i t wf, w.workers i = some t → t.stage = .patch wf →
    w.lastPhase wf.uid = some wf.status.phase.str
  /-- What is on record was delivered last, unless a later patch is on the way. -/
  record : ∀ k s p, w.store k = some s → s.recordedPhase = some p → w.lastPhase s.uid = some p
    ∨ ∃ i t wf, w.workers i = some t ∧ t.stage = .patch wf ∧ wf.uid = s.uid
  /-- At rest, the last event carries the phase that the informer shows. -/
  settled : ∀ k c, w.Idle k → w.cache k = some c → c.status.phase.completed = true →
    w.store k ≠ none → w.lastPhase c.uid = some c.status.phase.str

theorem outcomeInv_init : OutcomeInv (World.init : World n) where
  version := versionInv_init
  queue := queueInv_init
  oneUid := oneUid_init
  sent := by intro i t wf h; simp [World.init] at h
  record := by intro k s p h; simp [World.init] at h
  settled := by intro k c _ h; simp [World.init] at h

/-- A delivery for the UID of a version comes from a reconcile of that version's key. -/
theorem OutcomeInv.req_eq (h : OutcomeInv w) {i : Fin n} {t : Task} {wf c : Workflow}
    (ht : w.workers i = some t) (hst : t.stage = .notify wf) (hc : w.Sees k c)
    (hu : wf.uid = c.uid) : t.req = k := by
  have hread : t.stage.read = some wf := by rw [hst]; rfl
  exact h.version.same_key (.of_worker ht hread) hc hu

/-- **The last event stays the one of the reconcile that is about to patch.** -/
theorem sent_step (h : OutcomeInv w) (hs : Step w a w') {i : Fin n} {t' : Task} {wf : Workflow}
    (ht' : w'.workers i = some t') (hst' : t'.stage = .patch wf) :
    w'.lastPhase wf.uid = some wf.status.phase.str := by
  cases worker_step hs ht' with
  | same ht =>
      rcases lastPhase_step hs wf.uid with he | ⟨j, t, wf₀, _, hj, hstj, hu, _⟩
      · rw [he]; exact h.sent i t' wf ht hst'
      · -- another delivery for this UID would be a second reconcile of the key
        have hread : t.stage.read = some wf₀ := by rw [hstj]; rfl
        have hread' : t'.stage.read = some wf := by rw [hst']; rfl
        obtain ⟨_, rfl⟩ := h.version.same_worker h.queue.single hj ht (.of_worker hj hread)
          (.of_worker ht hread') hu
        rw [hstj] at hst'
        cases hst'
  | started _ _ _ he => subst he; cases hst'
  | read _ _ _ _ _ he => subst he; cases hst'
  | @sent t wf₀ ha ht hst he =>
      subst ha; subst he
      obtain rfl : wf₀ = wf := Stage.patch.inj hst'
      cases hs with
      | notify ht₂ hst₂ =>
          obtain rfl := Option.some.inj (ht.symm.trans ht₂)
          obtain rfl := Stage.notify.inj (hst.symm.trans hst₂)
          simp [World.lastPhase, World.afterNotify, World.await, onNotify]

/-- **The record stays that of the last delivery**, or a patch on the way will make it so. -/
theorem lastRecord_step (h : OutcomeInv w) (hkept : RecordKept w a) (hs : Step w a w')
    {s : Workflow} {p : String} (hstore : w'.store k = some s)
    (hrecord : s.recordedPhase = some p) :
    w'.lastPhase s.uid = some p
      ∨ ∃ i t wf, w'.workers i = some t ∧ t.stage = .patch wf ∧ wf.uid = s.uid := by
  -- an object that was there before, up to its status
  have kept : ∀ s₀, w.store k = some s₀ → s.uid = s₀.uid → s.recordedPhase = s₀.recordedPhase →
      w'.lastPhase s.uid = some p
        ∨ ∃ i t wf, w'.workers i = some t ∧ t.stage = .patch wf ∧ wf.uid = s.uid := by
    intro s₀ hs₀ hu hann
    rcases lastPhase_step hs s.uid with he | ⟨i, t, wf, ha, ht, hst, hu', _⟩
    · rw [he]
      rcases h.record k s₀ p hs₀ (hann ▸ hrecord) with hp | ⟨i, t, wf, ht, hst, hu'⟩
      · exact .inl (hu ▸ hp)
      · have hread : t.stage.read = some wf := by rw [hst]; rfl
        have hsees : w.Sees t.req wf := .of_worker ht hread
        have hkey : wf.key = k :=
          (h.version.keyed _ _ hsees).trans (h.version.same_key hsees (.of_store hs₀) hu')
        have hlast : w.lastPhase s.uid = some wf.status.phase.str := by
          rw [hu, ← hu']
          exact h.sent i t wf ht hst
        rcases patch_ends hs ht hst with hstays | hnone | ⟨o, _, ho'⟩ | hdrops
        · exact .inr ⟨i, t, wf, hstays, hst, hu'.trans hu.symm⟩
        · rw [hkey, hs₀] at hnone; cases hnone
        · rw [hkey, hstore] at ho'
          rw [Option.some.inj ho', Workflow.recordedPhase_annotate] at hrecord
          exact .inl (hlast.trans hrecord)
        · -- the patch is dropped, and what is on record is not older
          have hpatching : wf ∈ w.patching i := by
            obtain ⟨id, req, stage⟩ := t
            subst hst
            simp [World.patching, ht]
          rcases hkept.2.1 i hdrops wf hpatching s₀ (hkey ▸ hs₀) with hold | hold
          · rw [hann, hold] at hrecord; cases hrecord
          · rw [hann, hold] at hrecord
            exact .inl (hlast.trans hrecord)
    · subst ha
      exact .inr ⟨i, _, wf, sent_worker hs ht hst, rfl, hu'⟩
  cases stored_step hs k with
  | same he => exact kept s (he.symm.trans hstore) rfl rfl
  | updated _ ho he =>
      obtain rfl := Option.some.inj (hstore.symm.trans he)
      exact kept _ ho rfl rfl
  | deleted he => rw [hstore] at he; cases he
  | created ha _ _ he =>
      obtain rfl := Option.some.inj (hstore.symm.trans he)
      rw [hkept.1 s (ha ▸ rfl)] at hrecord
      cases hrecord
  | @annotated i err t wf o ha ht hst hk ho he =>
      -- the patch writes the phase that its own reconcile has delivered
      obtain rfl := Option.some.inj (hstore.symm.trans he)
      subst ha; subst hk
      have hread : t.stage.read = some wf := by rw [hst]; rfl
      have hsees : w.Sees t.req wf := .of_worker ht hread
      rw [h.version.keyed _ _ hsees] at ho
      have hu : o.uid = wf.uid := h.oneUid.same_uid h.version (.of_store ho) hsees
      rcases lastPhase_step hs o.uid with hd | ⟨_, _, _, ha, _⟩
      · rw [Workflow.recordedPhase_annotate] at hrecord
        rw [Workflow.annotate_uid, hd, hu, h.sent i t wf ht hst]
        exact .inl hrecord
      · cases ha

/-- **A skip on a current snapshot is of the phase delivered last.** -/
theorem lastPhase_of_skipped (h : OutcomeInv w) {i : Fin n}
    (hcurrent : RecordCurrent w (.get i .cache)) {t : Task} {c : Workflow}
    (ht : w.workers i = some t) (hst : t.stage = .get)
    (hread : w.read .cache t.req = .found c) (hdone : c.status.phase.completed = true)
    (hn : c.notifiedPhase = c.status.phase.str) (hstore : w.store t.req ≠ none) :
    w.lastPhase c.uid = some c.status.phase.str := by
  obtain ⟨s, hs⟩ := Option.ne_none_iff_exists'.mp hstore
  have hu : s.uid = c.uid := h.oneUid.same_uid h.version (.of_store hs) (.of_read hread)
  have hrecord := hcurrent.recorded (mem_skipped ht hst hread hdone hn) hs hu
  rcases h.record _ s _ hs hrecord with hlast | ⟨j, t', wf, ht', hst', hu'⟩
  · exact hu ▸ hlast
  · -- a patch on the way would be that of a second reconcile of the key
    have hread' : t'.stage.read = some wf := by rw [hst']; rfl
    obtain ⟨_, rfl⟩ := h.version.same_worker h.queue.single ht' ht (.of_worker ht' hread')
      (.of_store hs) hu'
    rw [hst] at hst'
    cases hst'

/-- With nothing queued the informer shows what the returning reconcile has delivered. -/
theorem outcome_of_abreast (h : OutcomeInv w) {i : Fin n} {t : Task} {wf c : Workflow}
    (ht : w.workers i = some t) (hst : t.stage = .patch wf) (hk : t.req = k)
    (hq : w.queue k = false) (hcache : w.cache k = some c) :
    w.lastPhase c.uid = some c.status.phase.str := by
  have hread : t.stage.read = some wf := by rw [hst]; rfl
  rcases h.queue.abreast i t wf ht hread with h' | h' | ⟨c', h', hu, hp⟩ <;> rw [hk] at h'
  · rw [hq] at h'; cases h'
  · rw [h'] at hcache; cases hcache
  · obtain rfl := Option.some.inj (h'.symm.trans hcache)
    rw [hu, hp]
    exact h.sent i t wf ht hst

/-- Where names are not reused, an object that the informer shows is not stored again. -/
theorem stored_of_cached (h : OutcomeInv w) (hf : FreshNames w a) (hs : Step w a w')
    {c : Workflow} (hcache : w.cache k = some c) (hstore : w'.store k ≠ none) :
    w.store k ≠ none := by
  intro hnone
  cases stored_step hs k with
  | same he => exact hstore (he.trans hnone)
  | created ha hk _ _ =>
      have hborn := List.mem_map_of_mem (f := Prod.snd) (h.version.born k c (.of_cache hcache))
      exact hf _ (ha ▸ rfl) (hk ▸ hborn)
  | updated _ ho _ => rw [hnone] at ho; cases ho
  | deleted he => exact hstore he
  | annotated _ _ _ _ ho _ => rw [hnone] at ho; cases ho

/-- **Idle keys keep the outcome that was delivered last.** -/
theorem outcome_settled_step (h : OutcomeInv w) (hok : OutcomeAssumed w a)
    (hcurrent : RecordCurrent w a) (hs : Step w a w') {c : Workflow} (hi : w'.Idle k)
    (hcache : w'.cache k = some c) (hdone : c.status.phase.completed = true)
    (hstore : w'.store k ≠ none) : w'.lastPhase c.uid = some c.status.phase.str := by
  cases rest_step hs hi with
  | still hw hc =>
      -- a delivery would come from a reconcile of this key, and the key is idle
      rw [hc] at hcache
      rcases lastPhase_step hs c.uid with he | ⟨i, t, wf, _, ht, hst, hu, _⟩
      · rw [he]
        exact h.settled k c hw hcache hdone (stored_of_cached h hok.1 hs hcache hstore)
      · exact absurd (h.req_eq ht hst (.of_cache hcache) hu) (hw.2 i t ht)
  | @filtered v rest hw ha hwatch hq hc hstr hd =>
      obtain rfl : v = some c := hc.symm.trans hcache
      cases hold : w.cache k with
      | none => rw [hold] at hq; cases hq
      | some old =>
          rw [hold] at hq
          -- the update is filtered, so the phase is the one that was settled before
          have hphase := phase_of_not_queues hq
          have hu : old.uid = c.uid := by
            refine h.oneUid.same_uid h.version (.of_cache hold) (.of_watch ?_)
            rw [hwatch]
            exact List.mem_cons_self
          rw [World.lastPhase, hd, ← hu, ← hphase]
          exact h.settled k old hw hold (hphase ▸ hdone) (hstr ▸ hstore)
  | @read i src t ha ht hst hk hr hc hstr hd =>
      subst ha; subst hk
      obtain rfl := hok.2.2 src rfl
      rw [hc] at hcache
      have hread : w.read .cache t.req = .found c := by rw [World.read, hcache]; rfl
      -- the reconcile ends without a delivery, so it skips
      have hn : c.notifiedPhase = c.status.phase.str := by
        by_contra hne
        exact hr c hread ⟨hdone, hne⟩
      rw [World.lastPhase, hd]
      exact lastPhase_of_skipped h hcurrent ht hst hread hdone hn (hstr ▸ hstore)
  | @patched i t wf o ha ht hst hk hq _ hc _ hd =>
      rw [World.lastPhase, hd]
      exact outcome_of_abreast h ht hst hk hq (hc ▸ hcache)
  | @gone i t wf ha ht hst hk hq _ hc _ hd =>
      rw [World.lastPhase, hd]
      exact outcome_of_abreast h ht hst hk hq (hc ▸ hcache)
  | restarted hc => rw [hc] at hcache; cases hcache

/--
**The last event is the final outcome in every run whose record can be relied on.**
Deliveries may fail, and patches where they leave nothing older behind; the cache may
lag behind the store, and behind the controller's own patches where it makes no reconcile
skip; and the controller may restart.
-/
theorem outcome_delivered
    (h : World.Reachable (fun w a => OutcomeAssumed w a ∧ RecordKept w a) w) :
    OutcomeDelivered w := by
  have hinv : OutcomeInv w := h.invariant outcomeInv_init fun w a w' _ ih hok hs => {
    version := versionInv_step ih.version hs
    queue := queueInv_step ih.version ih.queue hok.1.2.1 hok.1.2.2
      (separates_of_oneUid ih.version ih.oneUid) hs
    oneUid := oneUid_step ih.oneUid hok.1.1 hs
    sent := fun i t wf => sent_step ih hs
    record := fun k s p => lastRecord_step ih hok.2 hs
    settled := fun k c hi => outcome_settled_step ih hok.1 hok.2.2.2 hs hi }
  intro k wf hquiet hstore hdone
  refine hinv.settled k wf hquiet.2 (hquiet.1.trans hstore) hdone ?_
  rw [hstore]
  exact Option.some_ne_none wf

/--
Failed is delivered on the second attempt, and once more since its patch fails. A
reconcile behind the next patch delivers it again. A retry succeeds, and that is delivered
and recorded as well.
-/
def secondAttemptRun : List (Action 1) :=
  [.create (exampleWorkflow "uid-1" workflowFailed), .observe exampleKey, .start w0 exampleKey,
    .get w0 .cache, .notify w0 (some "refused"), .start w0 exampleKey, .get w0 .cache,
    .notify w0 none, .patchFails w0 "timeout", .start w0 exampleKey, .get w0 .cache,
    .notify w0 none, .patch w0 none, .enqueue exampleKey, .start w0 exampleKey, .get w0 .cache,
    .notify w0 none, .patch w0 none, .observe exampleKey, .observe exampleKey,
    .update exampleKey { phase := workflowRunning },
    .update exampleKey { phase := workflowSucceeded }, .observe exampleKey, .observe exampleKey,
    .start w0 exampleKey, .get w0 .cache, .notify w0 none, .patch w0 none, .observe exampleKey]

theorem outcome_delivered_secondAttemptRun :
    ∃ w : World 1, w.store exampleKey
        = some ((exampleWorkflow "uid-1" workflowSucceeded).annotate workflowSucceeded)
      ∧ w.lastPhase "uid-1" = some "Succeeded" := by
  have hend : ∃ w : World 1, World.Reachable (fun w a => OutcomeAssumed w a ∧ RecordKept w a) w
      ∧ w.store exampleKey
          = some ((exampleWorkflow "uid-1" workflowSucceeded).annotate workflowSucceeded)
      ∧ w.cache exampleKey = w.store exampleKey ∧ w.queue exampleKey = false
      ∧ w.workers 0 = none :=
    World.exists_reachable secondAttemptRun (by decide) (by decide)
  obtain ⟨w, hr, hs, hc, hq, hidle⟩ := hend
  refine ⟨w, hs, outcome_delivered hr exampleKey _ ⟨hc, hq, fun i t ht => ?_⟩ hs (by decide)⟩
  rw [Subsingleton.elim i 0, hidle] at ht
  cases ht

/-! ## A skip behind the controller's own patch -/

/--
Succeeded is delivered and recorded, a retry fails and Failed is delivered, and
before that is recorded a second retry succeeds. The next reconcile reads a
snapshot from before the patch of Failed, in which Succeeded is still on record.
-/
def staleRun : List (Action 1) :=
  [.create (exampleWorkflow "uid-1" workflowSucceeded), .observe exampleKey, .start w0 exampleKey,
    .get w0 .cache, .notify w0 none, .patch w0 none, .observe exampleKey,
    .update exampleKey { phase := workflowRunning },
    .update exampleKey { phase := workflowFailed }, .observe exampleKey, .observe exampleKey,
    .start w0 exampleKey, .get w0 .cache, .notify w0 none,
    .update exampleKey { phase := workflowRunning },
    .update exampleKey { phase := workflowSucceeded }, .patch w0 none,
    .observe exampleKey, .observe exampleKey, .start w0 exampleKey, .get w0 .cache,
    .observe exampleKey]

theorem outcome_not_delivered :
    ∃ w : World 1, World.Reachable OutcomeAssumed w ∧ ¬ OutcomeDelivered w := by
  have hend : ∃ w : World 1, World.Reachable OutcomeAssumed w
      ∧ w.store exampleKey
          = some ((exampleWorkflow "uid-1" workflowSucceeded).annotate workflowFailed)
      ∧ w.cache exampleKey = w.store exampleKey ∧ w.queue exampleKey = false
      ∧ w.workers 0 = none ∧ w.lastPhase "uid-1" = some "Failed" :=
    World.exists_reachable staleRun (by decide) (by decide)
  obtain ⟨w, hr, hs, hc, hq, hidle, hlast⟩ := hend
  refine ⟨w, hr, fun hall => ?_⟩
  have hquiet : w.Quiescent exampleKey := by
    refine ⟨hc, hq, fun i t ht => ?_⟩
    rw [Subsingleton.elim i 0, hidle] at ht
    cases ht
  have hphase := hall exampleKey _ hquiet hs (by decide)
  exact absurd (hlast.symm.trans hphase) (by decide)

end MigrationPlatform.Controller
