import Mathlib.Logic.Function.Basic
import MigrationPlatform.Lib.Transition

/-!
# Runs of a job graph

A graph says of every job what it waits for and, once that is settled, what becomes of
it: it runs, or it is settled at once. The engine enters the jobs that are ready, in
any order, and running jobs end in any order; the run may be stopped on the way.

Every job is entered on results that do not change any more, so what it was entered on
is still there later on (`Sound`). When a run that was not stopped is over, every job has
what entering it on the results comes to (`Over.equation`), whatever the order was.
-/

namespace Dag

variable {J R : Type}

/-- A job graph. -/
structure Graph (J R : Type) where
  needs : J → List J
  /-- The result of a job that does not run, from whether the run is stopped and the results. -/
  enter : J → Bool → (J → Option R) → Option R
  /-- A job only looks at what it waits for. -/
  enter_congr : ∀ j stopped f g, (∀ k ∈ needs j, f k = g k) → enter j stopped f = enter j stopped g

/-- Where a job stands. -/
inductive Phase (R : Type) where
  | idle
  | running
  | ended (r : R)
  /-- Settled without running. -/
  | passed (r : R)

namespace Phase

def result : Phase R → Option R
  | .ended r | .passed r => some r
  | _ => none

/-- The job runs, or has. -/
def started : Phase R → Bool
  | .running | .ended _ => true
  | _ => false

def isIdle : Phase R → Bool
  | .idle => true
  | _ => false

/-- What entering the job has come to. -/
def entered : Phase R → Option R
  | .passed r => some r
  | _ => none

end Phase

structure State (J R : Type) where
  phase : J → Phase R
  stopped : Bool

def State.result (s : State J R) (j : J) : Option R := (s.phase j).result

/-- What happens in a run. -/
inductive Event (J R : Type) where
  | enter (j : J)
  | finish (j : J) (r : R)
  | stop

def init : State J R where
  phase := fun _ => .idle
  stopped := false

/-- The job can be entered. -/
def Graph.ready (g : Graph J R) (s : State J R) (j : J) : Bool :=
  (s.phase j).isIdle && (g.needs j).all fun k => (s.result k).isSome

/-! ## What a job was entered on -/

section Entry

variable {g : Graph J R} {s : State J R}

theorem ready_iff {j : J} :
    g.ready s j = true ↔ s.phase j = .idle ∧ ∀ k ∈ g.needs j, (s.result k).isSome = true := by
  unfold Graph.ready
  rw [Bool.and_eq_true, List.all_eq_true]
  cases s.phase j <;> simp [Phase.isIdle]

/-- Entering the job comes to `r`, perhaps but for a stop that has come since. -/
def State.Enters (g : Graph J R) (s : State J R) (j : J) (r : Option R) : Prop :=
  ∃ b, (b = true → s.stopped = true) ∧ g.enter j b s.result = r

/--
Every job that has left its idle phase did so on results that are still there: what it
waits for is settled, and entering it now would come to the same.
-/
def Sound (g : Graph J R) (s : State J R) : Prop :=
  ∀ j, s.phase j ≠ .idle →
    (∀ k ∈ g.needs j, (s.result k).isSome = true) ∧ s.Enters g j (s.phase j).entered

theorem Sound.of_started (hs : Sound g s) {j : J} (hj : (s.phase j).started = true) :
    (∀ k ∈ g.needs j, (s.result k).isSome = true) ∧ s.Enters g j none := by
  have hentered : (s.phase j).entered = none ∧ s.phase j ≠ .idle := by
    cases hphase : s.phase j with
    | running => exact ⟨rfl, fun he => by cases he⟩
    | ended r => exact ⟨rfl, fun he => by cases he⟩
    | idle => rw [hphase] at hj; cases hj
    | passed r => rw [hphase] at hj; cases hj
  exact hentered.1 ▸ hs j hentered.2

theorem Sound.of_passed (hs : Sound g s) {j : J} {r : R} (hj : s.phase j = .passed r) :
    (∀ k ∈ g.needs j, (s.result k).isSome = true) ∧ s.Enters g j (some r) := by
  have h := hs j (by rw [hj]; exact fun he => by cases he)
  rwa [hj] at h

/-- A result is that of a job that has run, or of one that was passed. -/
theorem result_eq_some {j : J} {r : R} :
    s.result j = some r ↔ s.phase j = .ended r ∨ s.phase j = .passed r := by
  unfold State.result
  cases s.phase j <;> simp [Phase.result]

/-- The jobs can be put in an order in which nothing waits for what comes later. -/
def Graph.Ranked (g : Graph J R) (rank : J → Nat) : Prop := ∀ j, ∀ k ∈ g.needs j, rank k < rank j

/-- Nothing runs, and no job can be entered. -/
def Over (g : Graph J R) (s : State J R) : Prop :=
  ∀ j, g.ready s j = false ∧ s.phase j ≠ .running

/-- **No job is left waiting** when a run is over. -/
theorem Over.settled {rank : J → Nat} (hrank : g.Ranked rank) (h : Over g s) (j : J) :
    ∃ r, s.result j = some r := by
  induction hn : rank j using Nat.strongRecOn generalizing j with
  | ind n ih =>
      have hneeds : ∀ k ∈ g.needs j, (s.result k).isSome = true := fun k hk =>
        Option.isSome_iff_exists.mpr (ih (rank k) (hn ▸ hrank j k hk) k rfl)
      cases hphase : s.phase j with
      | idle =>
          have hready := ready_iff.mpr ⟨hphase, hneeds⟩
          exact absurd (h j).1 (by rw [hready]; exact Bool.noConfusion)
      | running => exact absurd hphase (h j).2
      | ended r => exact ⟨r, result_eq_some.mpr (.inl hphase)⟩
      | passed r => exact ⟨r, result_eq_some.mpr (.inr hphase)⟩

end Entry

/-! ## Steps -/

variable [DecidableEq J]

def State.set (s : State J R) (j : J) (p : Phase R) : State J R :=
  { s with phase := Function.update s.phase j p }

def Graph.step (g : Graph J R) (s : State J R) : Event J R → Option (State J R)
  | .enter j =>
      if g.ready s j then
        some (s.set j ((g.enter j s.stopped s.result).elim .running .passed))
      else none
  | .finish j r =>
      match s.phase j with
      | .running => some (s.set j (.ended r))
      | _ => none
  | .stop => some { s with stopped := true }

/-- The states of the runs whose events meet the guard. -/
def Graph.Reachable (g : Graph J R) (ok : State J R → Event J R → Prop) : State J R → Prop :=
  Transition.Reachable g.step (· = init) ok

variable {g : Graph J R} {ok : State J R → Event J R → Prop} {s s' : State J R} {e : Event J R}

@[simp] theorem State.set_stopped (s : State J R) (j : J) (p : Phase R) :
    (s.set j p).stopped = s.stopped := rfl

@[simp] theorem State.set_phase (s : State J R) (j k : J) (p : Phase R) :
    (s.set j p).phase k = if k = j then p else s.phase k := by
  simp [State.set, Function.update_apply]

/-- What a step can do. -/
theorem step_cases (h : g.step s e = some s') :
    (∃ j, e = .enter j ∧ s.phase j = .idle ∧ (∀ k ∈ g.needs j, (s.result k).isSome = true)
      ∧ s' = s.set j ((g.enter j s.stopped s.result).elim .running .passed))
    ∨ (∃ j r, e = .finish j r ∧ s.phase j = .running ∧ s' = s.set j (.ended r))
    ∨ (e = .stop ∧ s' = { s with stopped := true }) := by
  cases e with
  | enter j =>
      rw [Graph.step] at h
      split at h
      · rename_i hready
        obtain ⟨hidle, hneeds⟩ := ready_iff.mp hready
        exact .inl ⟨j, rfl, hidle, hneeds, (Option.some.inj h).symm⟩
      · cases h
  | finish j r =>
      rw [Graph.step] at h
      split at h
      · rename_i hrunning
        exact .inr (.inl ⟨j, r, rfl, hrunning, (Option.some.inj h).symm⟩)
      · cases h
  | stop => exact .inr (.inr ⟨rfl, (Option.some.inj h).symm⟩)

/-- **A result never changes.** -/
theorem result_step (h : g.step s e = some s') {j : J} {r : R} (hj : s.result j = some r) :
    s'.result j = some r := by
  have hkeep : ∀ k p, s.phase k = .idle ∨ s.phase k = .running → (s.set k p).result j = some r := by
    intro k p hk
    by_cases hjk : j = k
    · -- the phase that is left has no result
      subst hjk
      unfold State.result at hj
      rcases hk with hk | hk
      · rw [hk] at hj
        cases hj
      · rw [hk] at hj
        cases hj
    · unfold State.result
      rw [State.set_phase, if_neg hjk]
      exact hj
  rcases step_cases h with ⟨k, -, hidle, -, rfl⟩ | ⟨k, r', -, hrunning, rfl⟩ | ⟨-, rfl⟩
  · exact hkeep k _ (.inl hidle)
  · exact hkeep k _ (.inr hrunning)
  · exact hj

/-- **A job that was started stays so.** -/
theorem started_step (h : g.step s e = some s') {j : J} (hj : (s.phase j).started = true) :
    (s'.phase j).started = true := by
  rcases step_cases h with ⟨k, -, hidle, -, rfl⟩ | ⟨k, r, -, -, rfl⟩ | ⟨-, rfl⟩
  · rw [State.set_phase]
    split
    · rename_i hjk
      rw [hjk, hidle] at hj
      cases hj
    · exact hj
  · rw [State.set_phase]
    split
    · rfl
    · exact hj
  · exact hj

theorem stopped_step (h : g.step s e = some s') (hs : s.stopped = true) : s'.stopped = true := by
  rcases step_cases h with ⟨k, -, -, -, rfl⟩ | ⟨k, r', -, -, rfl⟩ | ⟨-, rfl⟩
  · exact hs
  · exact hs
  · rfl

theorem settled_step (h : g.step s e = some s') {j : J} (hj : (s.result j).isSome = true) :
    (s'.result j).isSome = true := by
  obtain ⟨r, hr⟩ := Option.isSome_iff_exists.mp hj
  rw [result_step h hr]
  rfl

/-- A job is entered the same way on the results behind a step. -/
theorem enters_step (h : g.step s e = some s') {j : J} {r : Option R}
    (hneeds : ∀ k ∈ g.needs j, (s.result k).isSome = true) (hj : s.Enters g j r) :
    s'.Enters g j r := by
  obtain ⟨b, hb, henter⟩ := hj
  refine ⟨b, fun htrue => stopped_step h (hb htrue), henter ▸ g.enter_congr j b _ _ fun k hk => ?_⟩
  obtain ⟨r, hr⟩ := Option.isSome_iff_exists.mp (hneeds k hk)
  rw [hr, result_step h hr]

theorem Sound.step (hs : Sound g s) (h : g.step s e = some s') : Sound g s' := by
  -- a job whose entry is no newer than the state before
  have hkeep : ∀ j, (∀ k ∈ g.needs j, (s.result k).isSome = true) →
      s.Enters g j (s'.phase j).entered →
      (∀ k ∈ g.needs j, (s'.result k).isSome = true) ∧ s'.Enters g j (s'.phase j).entered :=
    fun j hneeds hj => ⟨fun k hk => settled_step h (hneeds k hk), enters_step h hneeds hj⟩
  intro j hj
  by_cases hsame : s'.phase j = s.phase j
  · rw [hsame] at hj
    obtain ⟨hneeds, henter⟩ := hs j hj
    exact hkeep j hneeds (hsame ▸ henter)
  · rcases step_cases h with ⟨i, -, hidle, hneeds, rfl⟩ | ⟨i, r, -, hrunning, rfl⟩ | ⟨-, rfl⟩
    · obtain rfl : j = i := by
        by_contra hji
        exact hsame (by rw [State.set_phase, if_neg hji])
      refine hkeep j hneeds ⟨s.stopped, id, ?_⟩
      rw [State.set_phase, if_pos rfl]
      cases g.enter j s.stopped s.result <;> rfl
    · obtain rfl : j = i := by
        by_contra hji
        exact hsame (by rw [State.set_phase, if_neg hji])
      obtain ⟨hneeds, henter⟩ := hs j (by rw [hrunning]; exact fun he => by cases he)
      rw [hrunning] at henter
      refine hkeep j hneeds ?_
      rw [State.set_phase, if_pos rfl]
      exact henter
    · exact absurd rfl hsame

theorem Graph.Reachable.mono {ok' : State J R → Event J R → Prop} (h : g.Reachable ok s)
    (hok : ∀ s e, ok s e → ok' s e) : g.Reachable ok' s := by
  refine Transition.Reachable.invariant h (fun s hs => .init hs) ?_
  intro s e s' _ ih hguard hstep
  exact .tail ih (hok s e hguard) hstep

/-- A run on whose events all meet the guard ends in a reachable state. -/
theorem Graph.reachable_of_run {events : List (Event J R)} {t : State J R}
    (ht : g.Reachable ok t) (hok : ∀ e ∈ events, ∀ s, ok s e)
    (hrun : Transition.run g.step t events = some s) : g.Reachable ok s := by
  induction events generalizing t with
  | nil => exact Option.some.inj hrun ▸ ht
  | cons e events ih =>
      obtain ⟨t', ht', hrun⟩ := Option.bind_eq_some_iff.mp hrun
      exact ih (.tail ht (hok e List.mem_cons_self t) ht')
        (fun e he => hok e (List.mem_cons_of_mem _ he)) hrun

/-- **In every state of every run** the jobs were entered on results that are still there. -/
theorem Graph.Reachable.sound (h : g.Reachable ok s) : Sound g s := by
  refine Transition.Reachable.invariant h ?_ fun _ _ _ _ hs _ hstep => hs.step hstep
  intro s hs j hj
  rw [hs] at hj
  exact absurd rfl hj

/-- What a run ends a job with is what its guard lets through. -/
theorem Graph.Reachable.ended (h : g.Reachable ok s) (allowed : J → R → Prop)
    (hok : ∀ s j r, ok s (.finish j r) → allowed j r) {j : J} {r : R}
    (hj : s.phase j = .ended r) : allowed j r := by
  have hall : ∀ j r, s.phase j = .ended r → allowed j r := by
    refine Transition.Reachable.invariant h
      (I := fun s => ∀ j r, s.phase j = .ended r → allowed j r) ?_ ?_
    · intro s hs j r hj
      rw [hs] at hj
      cases hj
    · intro s e s' _ hs hguard hstep j r hj
      rcases step_cases hstep with ⟨i, -, -, -, rfl⟩ | ⟨i, r', rfl, -, rfl⟩ | ⟨-, rfl⟩
      · rw [State.set_phase] at hj
        split at hj
        · cases hr : g.enter i s.stopped s.result with
          | none => rw [hr] at hj; cases hj
          | some r' => rw [hr] at hj; cases hj
        · exact hs j r hj
      · rw [State.set_phase] at hj
        split at hj
        · rename_i hji
          cases hj
          exact hji ▸ hok s i r hguard
        · exact hs j r hj
      · exact hs j r hj
  exact hall j r hj

/-! ## Runs that are over -/

theorem Graph.Reachable.not_stopped (h : g.Reachable ok s) (hok : ∀ s, ¬ ok s .stop) :
    s.stopped = false := by
  refine Transition.Reachable.invariant h (I := fun s => s.stopped = false) ?_ ?_
  · intro s hs
    rw [hs]
    rfl
  · intro s e s' _ hs hguard hstep
    rcases step_cases hstep with ⟨j, -, -, -, rfl⟩ | ⟨j, r, -, -, rfl⟩ | ⟨rfl, -⟩
    · exact hs
    · exact hs
    · exact absurd hguard (hok s)

omit [DecidableEq J] in
/-- In a run that is not stopped, a job is entered on the results alone. -/
theorem State.Enters.eq (hstopped : s.stopped = false) {j : J} {r : Option R}
    (h : s.Enters g j r) : g.enter j false s.result = r := by
  obtain ⟨b, hb, henter⟩ := h
  cases b with
  | false => exact henter
  | true => exact absurd (hb rfl) (by rw [hstopped]; exact Bool.false_ne_true)

/-- The run is not stopped, and a job that runs does what it does. -/
def Obeys (behave : J → R) (_ : State J R) : Event J R → Prop
  | .enter _ => True
  | .finish j r => r = behave j
  | .stop => False

/-- **When a run is over**, every job has what entering it on the results comes to. -/
theorem Over.equation {behave : J → R} {rank : J → Nat} (hrank : g.Ranked rank)
    (h : g.Reachable (Obeys behave) s) (hover : Over g s) (j : J) :
    s.result j = some ((g.enter j false s.result).getD (behave j))
      ∧ ((s.phase j).started = true ↔ g.enter j false s.result = none) := by
  have hstopped := h.not_stopped fun _ h => h
  obtain ⟨r, hr⟩ := hover.settled hrank j
  rcases result_eq_some.mp hr with hended | hpassed
  · have hstarted : (s.phase j).started = true := by rw [hended]; rfl
    have henter := (h.sound.of_started hstarted).2.eq hstopped
    have hbehave := h.ended (fun j r => r = behave j) (fun _ _ _ hok => hok) hended
    exact ⟨by rw [hr, henter, Option.getD_none, hbehave], by simp [hstarted, henter]⟩
  · have henter := (h.sound.of_passed hpassed).2.eq hstopped
    refine ⟨by rw [hr, henter, Option.getD_some], ?_⟩
    rw [henter, hpassed]
    simp [Phase.started]

end Dag
