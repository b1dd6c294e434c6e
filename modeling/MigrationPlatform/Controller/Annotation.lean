import MigrationPlatform.Controller.Seen

/-!
# What the annotation says

The annotation "records the phase that has already been delivered to the
webhook". It is written by name, after a delivery that took its time: whatever
is stored under the name by then receives it. As long as that is the workflow
the reconcile has read, an annotation always names a delivery of its own object,
and a skipped completion is one that was delivered. A workflow that was deleted
and created again in between inherits the record of its predecessor.
-/

namespace MigrationPlatform.Controller

variable {n : Nat} {w w' : World n} {a : Action n}

/-- An event with this UID and phase has been delivered. -/
def World.Delivered (w : World n) (uid phase : String) : Prop :=
  ∃ d ∈ w.delivered, d.event.uid = uid ∧ d.event.phase = phase

theorem World.Delivered.mono (hs : Step w a w') {uid phase : String}
    (h : w.Delivered uid phase) : w'.Delivered uid phase := by
  obtain ⟨d, hd, hu, hp⟩ := h
  exact ⟨d, delivered_mono hs hd, hu, hp⟩

/-- A stored annotation names a delivery of the object that carries it. -/
def AnnotationSound (w : World n) : Prop :=
  ∀ k o p, w.store k = some o → o.recordedPhase = some p → w.Delivered o.uid p

/-- A completed workflow that `Get` returns with its phase on record has been delivered. -/
def SkipSound (w : World n) : Prop :=
  ∀ i t src wf, w.workers i = some t → t.stage = .get → w.read src t.req = .found wf →
    wf.status.phase.completed = true → wf.notifiedPhase = wf.status.phase.str →
    w.Delivered wf.uid wf.status.phase.str

/-! ## The guards -/

/-- The workflow that an action creates. -/
def Action.created : Action n → Option Workflow
  | .create wf => some wf
  | _ => none

/-- Workflows are created without the annotation. -/
def CreatesUnannotated (_ : World n) (a : Action n) : Prop :=
  ∀ wf ∈ a.created, wf.recordedPhase = none

instance (w : World n) (a : Action n) : Decidable (CreatesUnannotated w a) :=
  inferInstanceAs (Decidable (∀ wf ∈ a.created, wf.recordedPhase = none))

/-- The workflow that an applied patch was meant for, and the one that receives it. -/
def World.patchTarget (w : World n) : Action n → Option (Workflow × Workflow)
  | .patch i _ =>
      match w.workers i with
      | some ⟨_, _, .patch wf⟩ => (w.store wf.key).map fun o => (wf, o)
      | _ => none
  | _ => none

/-- A patch reaches the workflow that its reconcile has read. -/
def PatchesWhatItRead (w : World n) (a : Action n) : Prop :=
  ∀ p ∈ w.patchTarget a, p.2.uid = p.1.uid

instance (w : World n) (a : Action n) : Decidable (PatchesWhatItRead w a) :=
  inferInstanceAs (Decidable (∀ p ∈ w.patchTarget a, p.2.uid = p.1.uid))

/-! ## The invariant -/

/-- Every version's annotation names a delivery, and a reconcile patches only after one. -/
structure AnnotationInv (w : World n) : Prop where
  /-- Annotations of any version, stored or in flight, name deliveries. -/
  sound : ∀ k o p, w.Sees k o → o.recordedPhase = some p → w.Delivered o.uid p
  /-- A reconcile that is about to patch has delivered. -/
  sent : ∀ i t wf, w.workers i = some t → t.stage = .patch wf →
    w.Delivered wf.uid wf.status.phase.str

theorem annotationInv_init : AnnotationInv (World.init : World n) where
  sound := by intro k o p h; simp [World.Sees, World.init] at h
  sent := by intro i t wf h; simp [World.init] at h

/-- **The invariant is preserved by every step that patches what it has read.** -/
theorem annotationInv_step (h : AnnotationInv w) (hc : CreatesUnannotated w a)
    (hp : PatchesWhatItRead w a) (hs : Step w a w') : AnnotationInv w' where
  sound := by
    intro k o p ho hann
    cases sees_step hs ho with
    | kept hk hu _ he => rw [hu]; exact (h.sound k _ p hk (he ▸ hann)).mono hs
    | created ha _ =>
        subst ha
        rw [hc o rfl] at hann
        cases hann
    | @annotated i err t wf o₀ ha ht hst hk ho₀ he =>
        subst ha; subst he; subst hk
        -- the patch reached the workflow that was read, and that one was delivered
        have huid : o₀.uid = wf.uid := by
          refine hp (wf, o₀) ?_
          obtain ⟨id, req, stage⟩ := t
          subst hst
          simp [World.patchTarget, ht, ho₀]
        rw [Workflow.recordedPhase_annotate] at hann
        rw [Workflow.annotate_uid, huid, ← Option.some.inj hann]
        exact (h.sent i t wf ht hst).mono hs
  sent := by
    intro i t' wf ht' hst'
    cases worker_step hs ht' with
    | same ht => exact (h.sent i t' wf ht hst').mono hs
    | started _ _ _ he => subst he; cases hst'
    | read _ _ _ _ _ he => subst he; cases hst'
    | @sent t wf' ha ht hst he =>
        subst ha; subst he
        obtain rfl : wf' = wf := Stage.patch.inj hst'
        cases hs with
        | notify ht₂ hst₂ =>
            obtain rfl := Option.some.inj (ht.symm.trans ht₂)
            obtain rfl := Stage.notify.inj (hst.symm.trans hst₂)
            exact ⟨_, List.mem_cons_self, rfl, rfl⟩

/--
**The annotation is sound in every run in which each patch reaches the workflow
that its reconcile has read.** A stored annotation names a delivery of its own
object, and a completion that is skipped has been delivered. Reads may come from
the cache or from the API server, and any number of reconciles may overlap.
-/
theorem annotation_sound
    (h : World.Reachable (fun w a => CreatesUnannotated w a ∧ PatchesWhatItRead w a) w) :
    AnnotationSound w ∧ SkipSound w := by
  have hinv : AnnotationInv w :=
    h.invariant annotationInv_init fun _ _ _ _ ih hok hs => annotationInv_step ih hok.1 hok.2 hs
  refine ⟨fun k o p ho => hinv.sound k o p (.of_store ho), ?_⟩
  intro i t src wf _ _ hread hc hn
  exact hinv.sound _ wf _ (.of_read hread) (Workflow.recordedPhase_of_notified hc hn)

/-! ## A name that is used again -/

/-- The workflow of the concrete runs. -/
def exampleWorkflow (uid : String) (phase : WorkflowPhase) : Workflow :=
  { name := "build-x", ns := "ci", uid := uid, status := { phase := phase } }

/-- The key of the concrete runs. -/
def exampleKey : NamespacedName := ⟨"ci", "build-x"⟩

/-- The worker of the concrete runs. -/
abbrev w0 : Fin 1 := 0

/-- One reconcile that delivers and records a completion. -/
def deliveryRun : List (Action 1) :=
  [.create (exampleWorkflow "uid-1" workflowSucceeded), .observe exampleKey, .start w0 exampleKey,
    .get w0 .live, .notify w0 none, .patch w0 none]

theorem annotation_sound_deliveryRun :
    ∃ w : World 1, (w.store exampleKey).bind Workflow.recordedPhase = some "Succeeded"
      ∧ AnnotationSound w ∧ SkipSound w := by
  have hend : ∃ w : World 1,
      World.Reachable (fun w a => CreatesUnannotated w a ∧ PatchesWhatItRead w a) w
        ∧ (w.store exampleKey).bind Workflow.recordedPhase = some "Succeeded" :=
    World.exists_reachable deliveryRun (by decide) (by decide)
  obtain ⟨w, hr, hann⟩ := hend
  exact ⟨w, hann, annotation_sound hr⟩

/--
The workflow is deleted and created again between `Notify` and `Patch`. The new
one carries the old one's phase before it has run, and is skipped when it
completes in that phase.
-/
def reuseRun : List (Action 1) :=
  [.create (exampleWorkflow "uid-1" workflowSucceeded), .observe exampleKey, .start w0 exampleKey,
    .get w0 .live, .notify w0 none, .delete exampleKey,
    .create (exampleWorkflow "uid-2" workflowRunning), .patch w0 none,
    .update exampleKey { phase := workflowSucceeded }, .enqueue exampleKey, .start w0 exampleKey]

theorem annotation_not_sound :
    ∃ w : World 1, World.Reachable CreatesUnannotated w
      ∧ ¬ AnnotationSound w ∧ ¬ SkipSound w := by
  have hend : ∃ w : World 1, World.Reachable CreatesUnannotated w
      ∧ w.store exampleKey
          = some ((exampleWorkflow "uid-2" workflowSucceeded).annotate workflowSucceeded)
      ∧ w.workers 0 = some ⟨1, exampleKey, .get⟩
      ∧ w.delivered.map (·.event.uid) = ["uid-1"] :=
    World.exists_reachable reuseRun (by decide) (by decide)
  obtain ⟨w, hr, hs, ht, hd⟩ := hend
  have hno : ¬ w.Delivered "uid-2" "Succeeded" := by
    rintro ⟨d, hd', hu, _⟩
    have hmem := List.mem_map_of_mem (f := (·.event.uid)) hd'
    rw [hd, List.mem_singleton, hu] at hmem
    exact absurd hmem (by decide)
  refine ⟨w, hr, fun hsound => hno ?_, fun hskip => hno ?_⟩
  · exact hsound _ _ _ hs (Workflow.recordedPhase_annotate _ _)
  · exact hskip 0 _ .live _ ht rfl (by rw [World.read, hs]; rfl) (by decide) (by decide)

end MigrationPlatform.Controller
