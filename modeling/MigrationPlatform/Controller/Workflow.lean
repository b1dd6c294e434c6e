import Mathlib.Algebra.Group.Int.Defs
import MigrationPlatform.Lib.Json

/-!
# Workflows and completion events

The part of an Argo `Workflow` that the controller holds in memory
(`api/v1alpha1/types.go`), and the event it posts when one completes
(`internal/notify/notify.go`, built by `eventFor` in `workflow_controller.go`).

A Go `map[string]string` is a list of bindings read by first match; a missing
key reads as the empty string, as in Go. A `metav1.Time` is a number of
nanoseconds since the Unix epoch, with `none` for the zero time.
-/

namespace MigrationPlatform.Controller

/-- Go's `map[string]string`. -/
abbrev StrMap := List (String × String)

/-- `m[k]`: the empty string when `k` is not in the map. -/
def StrMap.get (m : StrMap) (k : String) : String := (m.lookup k).getD ""

/-- `m[k] = v`. -/
def StrMap.insert (m : StrMap) (k v : String) : StrMap := (k, v) :: m.filter (·.1 != k)

theorem StrMap.lookup_insert_ne (m : StrMap) {k k' : String} (v : String) (h : k' ≠ k) :
    (m.insert k v).lookup k' = m.lookup k' := by
  have hk : (k' == k) = false := beq_eq_false_iff_ne.mpr h
  rw [StrMap.insert, List.lookup_cons, hk]
  induction m with
  | nil => rfl
  | cons b m ih =>
      obtain ⟨kb, vb⟩ := b
      by_cases hb : kb = k
      · subst hb
        simpa [List.lookup_cons, hk] using ih
      · simp only [List.filter_cons, bne_iff_ne, ne_eq, hb, not_false_eq_true, if_true,
          List.lookup_cons]
        split
        · rfl
        · exact ih

/-- The phase of a workflow. Values match upstream Argo exactly. -/
structure WorkflowPhase where
  str : String
  deriving DecidableEq, Repr

def workflowUnknown : WorkflowPhase := ⟨""⟩
def workflowPending : WorkflowPhase := ⟨"Pending"⟩
def workflowRunning : WorkflowPhase := ⟨"Running"⟩
def workflowSucceeded : WorkflowPhase := ⟨"Succeeded"⟩
def workflowFailed : WorkflowPhase := ⟨"Failed"⟩
def workflowError : WorkflowPhase := ⟨"Error"⟩

/-- Whether the phase is terminal. -/
def WorkflowPhase.completed (p : WorkflowPhase) : Bool :=
  p = workflowSucceeded || p = workflowFailed || p = workflowError

/-- A terminal phase is never the empty string a missing annotation reads as. -/
theorem WorkflowPhase.str_ne_empty {p : WorkflowPhase} (h : p.completed) : p.str ≠ "" := by
  simp only [WorkflowPhase.completed, Bool.or_eq_true, decide_eq_true_eq] at h
  rcases h with (rfl | rfl) | rfl <;> decide

/-- Nanoseconds since the Unix epoch; `none` is the zero time. -/
abbrev Time := Option Int

/-- The subset of Argo's `WorkflowStatus` that the controller reads. -/
structure WorkflowStatus where
  phase : WorkflowPhase := workflowUnknown
  startedAt : Time := none
  finishedAt : Time := none
  message : String := ""
  progress : String := ""
  deriving DecidableEq, Repr

/-- The name under which the API server stores a workflow. -/
structure NamespacedName where
  ns : String
  name : String
  deriving DecidableEq, Repr

/-- An Argo `Workflow` with its spec left opaque. -/
structure Workflow where
  name : String
  ns : String
  uid : String
  labels : StrMap := []
  annotations : StrMap := []
  status : WorkflowStatus := {}
  deriving DecidableEq, Repr

/-- The key that addresses a workflow. -/
def Workflow.key (wf : Workflow) : NamespacedName := ⟨wf.ns, wf.name⟩

/-! ## Events -/

/-- The bounds of a Go `time.Duration`. -/
def maxDuration : Int := 2 ^ 63 - 1
def minDuration : Int := -2 ^ 63

/-- `Time.Sub`, which saturates. -/
def sub (t u : Int) : Int := max minDuration (min maxDuration (t - u))

/-- `Duration.Round(time.Millisecond)`: to the nearest millisecond, halves away from zero. -/
def roundMillis (d : Int) : Int :=
  let m := 1000000
  let r := d.tmod m
  if d < 0 then
    if -r + -r < m then d + -r else max minDuration (d - m + -r)
  else if r + r < m then d - r
  else min maxDuration (d + m - r)

/-- The JSON body posted to the webhook. -/
structure Event where
  name : String
  ns : String
  uid : String
  phase : String
  message : String
  startedAt : Time
  finishedAt : Time
  durationSeconds : Rat
  labels : StrMap
  deriving DecidableEq

/-- The event for a workflow. The duration is exact where the code's `float64` rounds. -/
def eventFor (wf : Workflow) : Event where
  name := wf.name
  ns := wf.ns
  uid := wf.uid
  phase := wf.status.phase.str
  message := wf.status.message
  labels := wf.labels
  startedAt := wf.status.startedAt
  finishedAt := wf.status.finishedAt
  durationSeconds :=
    match wf.status.startedAt, wf.status.finishedAt with
    | some started, some finished => (roundMillis (sub finished started) : Rat) / 1000000000
    | _, _ => 0

@[simp] theorem eventFor_uid (wf : Workflow) : (eventFor wf).uid = wf.uid := rfl
@[simp] theorem eventFor_phase (wf : Workflow) : (eventFor wf).phase = wf.status.phase.str := rfl

end MigrationPlatform.Controller
