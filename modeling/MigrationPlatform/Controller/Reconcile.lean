import MigrationPlatform.Controller.Workflow

/-!
# The reconciler

`reconcile` is `WorkflowReconciler.Reconcile` over any monad `m` in which the
API server and the notifier answer. A controller is interrupted between these
calls, so the proofs about runs need the code in pieces: `onGet`, `onNotify`
and `onPatch` are its stretches from one call to the next, and
`reconcile_stages` says that the function is these three in sequence, in every
monad.

Log lines and metrics are left out: nothing in the controller reads them.
-/

namespace MigrationPlatform.Controller

/-- The phase that has already been delivered to the webhook. -/
def notifiedPhaseAnnotation : String := "migration-platform.io/notified-phase"

/-- The recorded phase; empty when there is no annotation. -/
def Workflow.notifiedPhase (wf : Workflow) : String := wf.annotations.get notifiedPhaseAnnotation

/-- The merge patch that records a phase. -/
def notifiedPhasePatch (phase : WorkflowPhase) : Json :=
  .single "metadata" (.single "annotations" (.single notifiedPhaseAnnotation (.str phase.str)))

/-- What that patch does to a workflow. -/
def Workflow.annotate (wf : Workflow) (phase : WorkflowPhase) : Workflow :=
  { wf with annotations := wf.annotations.insert notifiedPhaseAnnotation phase.str }

/-- What `Get` answers. -/
inductive GetResult where
  | found (wf : Workflow)
  | notFound
  | failed (err : String)

/-- What `Patch` answers. -/
inductive PatchResult where
  | ok
  | notFound
  | failed (err : String)

/-- The client and the notifier that a reconciler is built from. -/
structure WorkflowReconciler (m : Type → Type) where
  get : NamespacedName → m GetResult
  notify : Event → m (Option String)
  patch : NamespacedName → Json → m PatchResult

/-- Handle one workflow. The `ctrl.Result` is empty on every path, so only the error is returned. -/
def reconcile {m : Type → Type} [Monad m] (r : WorkflowReconciler m) (req : NamespacedName) :
    m (Except String Unit) := do
  match ← r.get req with
  | .notFound => return .ok ()
  | .failed err => return .error ("get workflow: " ++ err)
  | .found wf =>
    let phase := wf.status.phase
    if !phase.completed then
      return .ok ()
    else if wf.annotations.get notifiedPhaseAnnotation = phase.str then
      return .ok ()
    else
      match ← r.notify (eventFor wf) with
      | some err => return .error ("notify: " ++ err)
      | none =>
        match ← r.patch wf.key (notifiedPhasePatch phase) with
        | .notFound => return .ok ()
        | .failed err => return .error ("record notified phase: " ++ err)
        | .ok => return .ok ()

/-! ## The code between two calls -/

/-- The call a running `Reconcile` waits for, with what it has read by then. -/
inductive Stage where
  | get
  | notify (wf : Workflow)
  | patch (wf : Workflow)
  deriving DecidableEq

/-- How a stretch of the code ends: in a return, or in the next call with what it needs. -/
inductive Next (α : Type) where
  | ret (r : Except String Unit)
  | go (a : α)

/-- From the answer of `Get` on; it goes on to `Notify` with the workflow it read. -/
def onGet : GetResult → Next Workflow
  | .notFound => .ret (.ok ())
  | .failed err => .ret (.error ("get workflow: " ++ err))
  | .found wf =>
    if !wf.status.phase.completed then .ret (.ok ())
    else if wf.notifiedPhase = wf.status.phase.str then .ret (.ok ())
    else .go wf

/-- From the answer of `Notify` on; it goes on to `Patch`. -/
def onNotify : Option String → Next Unit
  | some err => .ret (.error ("notify: " ++ err))
  | none => .go ()

/-- From the answer of `Patch` on. -/
def onPatch : PatchResult → Except String Unit
  | .notFound => .ok ()
  | .failed err => .error ("record notified phase: " ++ err)
  | .ok => .ok ()

/-- **`reconcile` is its three stretches in sequence**, whatever answers the calls. -/
theorem reconcile_stages {m : Type → Type} [Monad m] [LawfulMonad m] (r : WorkflowReconciler m)
    (req : NamespacedName) :
    reconcile r req = (do
      match onGet (← r.get req) with
      | .ret e => return e
      | .go wf =>
        match onNotify (← r.notify (eventFor wf)) with
        | .ret e => return e
        | .go () => return onPatch (← r.patch wf.key (notifiedPhasePatch wf.status.phase))) := by
  unfold reconcile
  refine bind_congr fun res => ?_
  cases res with
  | notFound => rfl
  | failed err => rfl
  | found wf =>
      by_cases hc : wf.status.phase.completed = true
      · by_cases hn : wf.notifiedPhase = wf.status.phase.str
        · have hn' : wf.annotations.get notifiedPhaseAnnotation = wf.status.phase.str := hn
          simp [onGet, hc, hn, hn']
        · have hn' : ¬ wf.annotations.get notifiedPhaseAnnotation = wf.status.phase.str := hn
          simp only [onGet, hc, hn, hn', Bool.not_true, Bool.false_eq_true, if_false]
          refine bind_congr fun err => ?_
          cases err with
          | some err => rfl
          | none => exact bind_congr fun res => by cases res <;> rfl
      · simp [onGet, hc]

/-! ## What the decisions are -/

/-- A workflow whose completion is not on record. -/
def Workflow.Due (wf : Workflow) : Prop :=
  wf.status.phase.completed = true ∧ wf.notifiedPhase ≠ wf.status.phase.str

instance (wf : Workflow) : Decidable wf.Due := inferInstanceAs (Decidable (_ ∧ _))

theorem onGet_found (wf : Workflow) :
    onGet (.found wf) = if wf.Due then .go wf else .ret (.ok ()) := by
  by_cases hc : wf.status.phase.completed = true <;>
    by_cases hn : wf.notifiedPhase = wf.status.phase.str <;>
    simp [onGet, Workflow.Due, hc, hn]

/-- `Get` leads to a delivery exactly when it finds a workflow that is due. -/
theorem onGet_go {res : GetResult} {wf : Workflow} :
    onGet res = .go wf ↔ res = .found wf ∧ wf.Due := by
  cases res with
  | notFound => simp [onGet]
  | failed err => simp [onGet]
  | found wf' =>
      rw [onGet_found]
      by_cases hd : wf'.Due
      · rw [if_pos hd]
        constructor
        · rintro ⟨⟩; exact ⟨rfl, hd⟩
        · rintro ⟨⟨⟩, _⟩; rfl
      · rw [if_neg hd]
        constructor
        · nofun
        · rintro ⟨⟨⟩, hd'⟩; exact absurd hd' hd

end MigrationPlatform.Controller
