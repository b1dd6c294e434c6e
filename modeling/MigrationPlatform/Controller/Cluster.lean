import Mathlib.Data.Fin.Basic
import MigrationPlatform.Controller.Reconcile
import MigrationPlatform.Lib.Transition

/-!
# The controller in its cluster

The API server, the informer, the work queue and the workers that run
`Reconcile`, as one transition function. An action is one atomic event of one
of them, so a run is an interleaving of the environment's actions with the
calls of the reconciles in flight.

What is assumed of the code around the controller:

* the **API server** applies each write to the object stored under its key and
  gives every created object a UID that was never used before;
* the **watch** reports the changes of a key in order, or skips some of them
  after a disconnect, and a restart lists every object as created;
* the **informer** keeps the last object it has seen, and an event that passes
  `phaseChanged` puts its key on the queue;
* a `Reconcile` that returns an error is queued again.

How many reconciles run at once, whether a read comes from the informer's cache
or from the API server, and which names and phases the environment picks is left
open here. What a result assumes about them is the guard on its runs.
-/

namespace MigrationPlatform.Controller

/-! ## Watch events and the filter -/

/-- An event of the informer. An object that is no workflow is `none`. -/
inductive WatchEvent where
  | create (obj : Option Workflow)
  | update (old new : Option Workflow)
  | delete (obj : Option Workflow)
  | generic (obj : Option Workflow)

/-- `PhaseChanged`: lets creates through, and updates that change `status.phase`. -/
def phaseChanged : WatchEvent → Bool
  | .create _ => true
  | .delete _ => false
  | .generic _ => false
  | .update (some oldWf) (some newWf) => oldWf.status.phase != newWf.status.phase
  | .update _ _ => false

/-- The event of a key whose last seen object is `old` and whose next one is `new`. -/
def watchEvent : Option Workflow → Option Workflow → Option WatchEvent
  | none, none => none
  | none, some new => some (.create (some new))
  | some old, none => some (.delete (some old))
  | some old, some new => some (.update (some old) (some new))

/-- Whether seeing `new` after `old` queues the key. -/
def queues (old new : Option Workflow) : Bool := (watchEvent old new).any phaseChanged

/-! ## The state -/

/-- One execution of `Reconcile`. -/
structure Task where
  /-- The number of the execution. -/
  id : Nat
  /-- The key it was called for. -/
  req : NamespacedName
  /-- The call it waits for. -/
  stage : Stage
  deriving DecidableEq

/-- A successful delivery: an event the webhook accepted. -/
structure Delivery where
  /-- The execution that sent it. -/
  exec : Nat
  event : Event
  deriving DecidableEq

/-- A cluster with `n` workers that run `Reconcile`. -/
structure World (n : Nat) where
  /-- The objects of the API server. -/
  store : NamespacedName → Option Workflow
  /-- The changes of each key that the informer has not seen, oldest first. -/
  watch : NamespacedName → List (Option Workflow)
  /-- The last object of each key that the informer has seen. -/
  cache : NamespacedName → Option Workflow
  /-- The keys that are queued or wait for a retry. -/
  queue : NamespacedName → Bool
  /-- The reconciles in flight. -/
  workers : Fin n → Option Task
  /-- Ghost: every object ever created, by UID and key. -/
  born : List (String × NamespacedName)
  /-- Ghost: the successful deliveries, newest first. -/
  delivered : List Delivery
  /-- Ghost: the executions whose patch was applied. -/
  patched : List Nat
  /-- Ghost: the terminal phases that `Get` has returned, by UID, newest first. -/
  reads : List (String × WorkflowPhase)
  /-- The number of the next execution. -/
  nextId : Nat

/-- Where the client answers a `Get` from. -/
inductive Source where
  | cache
  | live
  deriving DecidableEq

/-- What can happen next. -/
inductive Action (n : Nat) where
  /-- Somebody creates a workflow. -/
  | create (wf : Workflow)
  /-- Argo writes the status. -/
  | update (k : NamespacedName) (st : WorkflowStatus)
  /-- Somebody deletes the workflow. -/
  | delete (k : NamespacedName)
  /-- The watch is interrupted and loses the next `m` changes. -/
  | disconnect (k : NamespacedName) (m : Nat)
  /-- The informer sees the next change. -/
  | observe (k : NamespacedName)
  /-- The controller stops at any point and starts again. -/
  | restart
  /-- The key is queued for a reason outside the watch. -/
  | enqueue (k : NamespacedName)
  /-- A worker takes a key off the queue and calls `Reconcile`. -/
  | start (i : Fin n) (k : NamespacedName)
  /-- `Get` answers. -/
  | get (i : Fin n) (src : Source)
  /-- `Get` fails. -/
  | getFails (i : Fin n) (err : String)
  /-- `Notify` answers: `none` is a delivery. -/
  | notify (i : Fin n) (err : Option String)
  /-- The patch is applied; the answer may be an error all the same. -/
  | patch (i : Fin n) (err : Option String)
  /-- The patch is not applied. -/
  | patchFails (i : Fin n) (err : String)
  /-- There is no object to patch. -/
  | patchNotFound (i : Fin n)

variable {n : Nat}

namespace World

/-- Nothing stored, nothing running. -/
def init : World n where
  store := fun _ => none
  watch := fun _ => []
  cache := fun _ => none
  queue := fun _ => false
  workers := fun _ => none
  born := []
  delivered := []
  patched := []
  reads := []
  nextId := 0

/-- The API server stores a new version of a key, or deletes it. -/
def write (w : World n) (k : NamespacedName) (v : Option Workflow) : World n :=
  { w with
    store := Function.update w.store k v
    watch := Function.update w.watch k (w.watch k ++ [v]) }

/-- The informer takes the next change of a key. -/
def see (w : World n) (k : NamespacedName) (v : Option Workflow) (rest : List (Option Workflow)) :
    World n :=
  { w with
    watch := Function.update w.watch k rest
    cache := Function.update w.cache k v
    queue := Function.update w.queue k (w.queue k || queues (w.cache k) v) }

/-- The controller starts anew: everything stored is listed. -/
def relist (w : World n) : World n :=
  { w with
    watch := fun k => ((w.store k).map some).toList
    cache := fun _ => none
    queue := fun _ => false
    workers := fun _ => none }

/-- A worker calls `Reconcile`. -/
def call (w : World n) (i : Fin n) (k : NamespacedName) : World n :=
  { w with
    queue := Function.update w.queue k false
    workers := Function.update w.workers i (some ⟨w.nextId, k, .get⟩)
    nextId := w.nextId + 1 }

/-- The execution goes on to its next call. -/
def await (w : World n) (i : Fin n) (t : Task) (s : Stage) : World n :=
  { w with workers := Function.update w.workers i (some { t with stage := s }) }

/-- The execution returns, and is queued again if it returns an error. -/
def finish (w : World n) (i : Fin n) (t : Task) (r : Except String Unit) : World n :=
  { w with
    workers := Function.update w.workers i none
    queue := Function.update w.queue t.req (w.queue t.req || !r.isOk) }

/-- What `Get` answers from either source. -/
def read (w : World n) (src : Source) (k : NamespacedName) : GetResult :=
  match src with
  | .cache => (w.cache k).elim .notFound .found
  | .live => (w.store k).elim .notFound .found

/-- The terminal phase in an answer of `Get`. -/
def terminalRead : GetResult → List (String × WorkflowPhase)
  | .found wf => if wf.status.phase.completed then [(wf.uid, wf.status.phase)] else []
  | _ => []

/-- `Reconcile` with the answer of `Get`. -/
def afterGet (w : World n) (i : Fin n) (t : Task) (res : GetResult) : World n :=
  let w := { w with reads := terminalRead res ++ w.reads }
  match onGet res with
  | .ret r => w.finish i t r
  | .go wf => w.await i t (.notify wf)

/-- `Reconcile` with the answer of `Notify`. -/
def afterNotify (w : World n) (i : Fin n) (t : Task) (wf : Workflow) (err : Option String) :
    World n :=
  let w := if err.isNone then { w with delivered := ⟨t.id, eventFor wf⟩ :: w.delivered } else w
  match onNotify err with
  | .ret r => w.finish i t r
  | .go () => w.await i t (.patch wf)

/-- `Reconcile` with the answer of `Patch`, after the API server applied it to `o`. -/
def afterPatch (w : World n) (i : Fin n) (t : Task) (wf o : Workflow) (err : Option String) :
    World n :=
  let w := w.write wf.key (some (o.annotate wf.status.phase))
  let w := { w with patched := t.id :: w.patched }
  w.finish i t (onPatch (err.elim .ok .failed))

/-- One action, if it can happen. -/
def act (w : World n) : Action n → Option (World n)
  | .create wf =>
      if w.store wf.key = none ∧ wf.uid ∉ w.born.map Prod.fst then
        some { w.write wf.key (some wf) with born := (wf.uid, wf.key) :: w.born }
      else none
  | .update k st =>
      match w.store k with
      | some wf => some (w.write k (some { wf with status := st }))
      | none => none
  | .delete k => if w.store k = none then none else some (w.write k none)
  | .disconnect k m =>
      if m < (w.watch k).length then
        some { w with watch := Function.update w.watch k ((w.watch k).drop m) }
      else none
  | .observe k =>
      match w.watch k with
      | [] => none
      | v :: rest => some (w.see k v rest)
  | .restart => some w.relist
  | .enqueue k => some { w with queue := Function.update w.queue k true }
  | .start i k => if w.workers i = none ∧ w.queue k = true then some (w.call i k) else none
  | .get i src =>
      match w.workers i with
      | some ⟨id, req, .get⟩ => some (w.afterGet i ⟨id, req, .get⟩ (w.read src req))
      | _ => none
  | .getFails i err =>
      match w.workers i with
      | some ⟨id, req, .get⟩ => some (w.afterGet i ⟨id, req, .get⟩ (.failed err))
      | _ => none
  | .notify i err =>
      match w.workers i with
      | some ⟨id, req, .notify wf⟩ => some (w.afterNotify i ⟨id, req, .notify wf⟩ wf err)
      | _ => none
  | .patch i err =>
      match w.workers i with
      | some ⟨id, req, .patch wf⟩ =>
          (w.store wf.key).map fun o => w.afterPatch i ⟨id, req, .patch wf⟩ wf o err
      | _ => none
  | .patchFails i err =>
      match w.workers i with
      | some ⟨id, req, .patch wf⟩ =>
          some (w.finish i ⟨id, req, .patch wf⟩ (onPatch (.failed err)))
      | _ => none
  | .patchNotFound i =>
      match w.workers i with
      | some ⟨id, req, .patch wf⟩ =>
          if w.store wf.key = none then
            some (w.finish i ⟨id, req, .patch wf⟩ (onPatch .notFound))
          else none
      | _ => none

end World

/-! ## What a step can do -/

/-- The steps of a cluster, with what each of them found. -/
inductive Step (w : World n) : Action n → World n → Prop where
  | create {wf : Workflow} : w.store wf.key = none → wf.uid ∉ w.born.map Prod.fst →
      Step w (.create wf) { w.write wf.key (some wf) with born := (wf.uid, wf.key) :: w.born }
  | update {k : NamespacedName} {wf : Workflow} {st : WorkflowStatus} : w.store k = some wf →
      Step w (.update k st) (w.write k (some { wf with status := st }))
  | delete {k : NamespacedName} {wf : Workflow} : w.store k = some wf →
      Step w (.delete k) (w.write k none)
  | disconnect {k : NamespacedName} {m : Nat} : m < (w.watch k).length →
      Step w (.disconnect k m)
        { w with watch := Function.update w.watch k ((w.watch k).drop m) }
  | observe {k : NamespacedName} {v : Option Workflow} {rest : List (Option Workflow)} :
      w.watch k = v :: rest → Step w (.observe k) (w.see k v rest)
  | restart : Step w .restart w.relist
  | enqueue {k : NamespacedName} :
      Step w (.enqueue k) { w with queue := Function.update w.queue k true }
  | start {i : Fin n} {k : NamespacedName} : w.workers i = none → w.queue k = true →
      Step w (.start i k) (w.call i k)
  | get {i : Fin n} {src : Source} {t : Task} : w.workers i = some t → t.stage = .get →
      Step w (.get i src) (w.afterGet i t (w.read src t.req))
  | getFails {i : Fin n} {err : String} {t : Task} : w.workers i = some t → t.stage = .get →
      Step w (.getFails i err) (w.afterGet i t (.failed err))
  | notify {i : Fin n} {err : Option String} {t : Task} {wf : Workflow} :
      w.workers i = some t → t.stage = .notify wf →
      Step w (.notify i err) (w.afterNotify i t wf err)
  | patch {i : Fin n} {err : Option String} {t : Task} {wf o : Workflow} :
      w.workers i = some t → t.stage = .patch wf → w.store wf.key = some o →
      Step w (.patch i err) (w.afterPatch i t wf o err)
  | patchFails {i : Fin n} {err : String} {t : Task} {wf : Workflow} :
      w.workers i = some t → t.stage = .patch wf →
      Step w (.patchFails i err) (w.finish i t (onPatch (.failed err)))
  | patchNotFound {i : Fin n} {t : Task} {wf : Workflow} :
      w.workers i = some t → t.stage = .patch wf → w.store wf.key = none →
      Step w (.patchNotFound i) (w.finish i t (onPatch .notFound))

/-- **The inversion of `act`**: an action that happens is one of the steps. -/
theorem step_of_act {w w' : World n} {a : Action n} (h : w.act a = some w') : Step w a w' := by
  cases a with
  | create wf =>
      simp only [World.act] at h
      split at h
      · rename_i hc
        exact Option.some.inj h ▸ .create hc.1 hc.2
      · cases h
  | update k st =>
      simp only [World.act] at h
      split at h
      · exact Option.some.inj h ▸ .update ‹_›
      · cases h
  | delete k =>
      simp only [World.act] at h
      split at h
      · cases h
      · obtain ⟨wf, hwf⟩ := Option.ne_none_iff_exists'.mp ‹_›
        exact Option.some.inj h ▸ .delete hwf
  | disconnect k m =>
      simp only [World.act] at h
      split at h
      · exact Option.some.inj h ▸ .disconnect ‹_›
      · cases h
  | observe k =>
      simp only [World.act] at h
      split at h
      · cases h
      · exact Option.some.inj h ▸ .observe ‹_›
  | restart => exact Option.some.inj h ▸ .restart
  | enqueue k => exact Option.some.inj h ▸ .enqueue
  | start i k =>
      simp only [World.act] at h
      split at h
      · rename_i hc
        exact Option.some.inj h ▸ .start hc.1 hc.2
      · cases h
  | get i src =>
      simp only [World.act] at h
      split at h
      · exact Option.some.inj h ▸ .get (t := ⟨_, _, .get⟩) ‹_› rfl
      · cases h
  | getFails i err =>
      simp only [World.act] at h
      split at h
      · exact Option.some.inj h ▸ .getFails (t := ⟨_, _, .get⟩) ‹_› rfl
      · cases h
  | notify i err =>
      simp only [World.act] at h
      split at h
      · exact Option.some.inj h ▸ .notify (t := ⟨_, _, .notify _⟩) ‹_› rfl
      · cases h
  | patch i err =>
      simp only [World.act] at h
      split at h
      · obtain ⟨o, ho, rfl⟩ := Option.map_eq_some_iff.mp h
        exact .patch (t := ⟨_, _, .patch _⟩) ‹_› rfl ho
      · cases h
  | patchFails i err =>
      simp only [World.act] at h
      split at h
      · exact Option.some.inj h ▸ .patchFails (t := ⟨_, _, .patch _⟩) ‹_› rfl
      · cases h
  | patchNotFound i =>
      simp only [World.act] at h
      split at h
      · split at h
        · exact Option.some.inj h ▸ .patchNotFound (t := ⟨_, _, .patch _⟩) ‹_› rfl ‹_›
        · cases h
      · cases h

/-! ## Runs -/

/-- The states of a cluster in its runs from the empty one that keep to a guard. -/
abbrev World.Reachable (ok : World n → Action n → Prop) (w : World n) : Prop :=
  Transition.Reachable World.act (· = World.init) ok w

/-- Invariants of runs, with the step already inverted. -/
theorem World.Reachable.invariant {ok : World n → Action n → Prop} {I : World n → Prop}
    {w : World n} (h : World.Reachable ok w) (h0 : I World.init)
    (hstep : ∀ w a w', World.Reachable ok w → I w → ok w a → Step w a w' → I w') : I w :=
  Transition.Reachable.invariant h (fun _ hw => hw ▸ h0)
    fun w a w' hr hi hok hs => hstep w a w' hr hi hok (step_of_act hs)

/-- What evaluation shows of the end of a guarded run, some reachable state has. -/
theorem World.exists_reachable {ok : World n → Action n → Prop} {p : World n → Prop}
    (as : List (Action n)) (hok : Transition.RunOk World.act ok World.init as)
    (hp : ∃ w ∈ Transition.run World.act World.init as, p w) :
    ∃ w, World.Reachable ok w ∧ p w := by
  obtain ⟨w, hrun, hp⟩ := hp
  exact ⟨w, Transition.Reachable.run (.init rfl) hok hrun, hp⟩

end MigrationPlatform.Controller
