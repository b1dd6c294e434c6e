import MigrationPlatform.Lib.Dag

/-!
# Graphs that stop at a failure

In a gated graph a job runs if all that it waits for is good and its own gate is open.
It is passed with a good result if the gate is shut, and with a bad one behind a bad
result or in a run that was stopped. An engine that stops a run does so behind a failure.

Where the run is stopped depends on the order of the jobs, and so does what is left out.
It is no more than what runs side by side with a failure (`started_or_failed`).
-/

namespace Dag

variable {J R : Type}

/-- The jobs that a job waits for, and those that these wait for, to a depth. -/
def ancestors (needs : J → List J) : Nat → J → List J
  | 0, _ => []
  | n + 1, j => (needs j).flatMap fun k => k :: ancestors needs n k

/-- What passes on to what a job waits for holds of all its ancestors. -/
theorem of_ancestor {needs : J → List J} {P : J → Prop} (hup : ∀ j, P j → ∀ k ∈ needs j, P k)
    {n : Nat} {j k : J} (hj : ∀ k ∈ needs j, P k) (hk : k ∈ ancestors needs n j) : P k := by
  induction n generalizing j with
  | zero => cases hk
  | succ n ih =>
      unfold ancestors at hk
      obtain ⟨i, hi, hk⟩ := List.mem_flatMap.mp hk
      rcases List.mem_cons.mp hk with rfl | hk
      · exact hj k hi
      · exact ih (hup i (hj i hi)) hk

/-- The jobs do not run side by side. -/
def Comparable (needs : J → List J) (n : Nat) (j k : J) : Prop :=
  k = j ∨ k ∈ ancestors needs n j ∨ j ∈ ancestors needs n k

instance [DecidableEq J] (needs : J → List J) (n : Nat) (j k : J) :
    Decidable (Comparable needs n j k) :=
  inferInstanceAs (Decidable (k = j ∨ k ∈ ancestors needs n j ∨ j ∈ ancestors needs n k))

/-- A job runs if all that it waits for is good and its gate is open. -/
structure Gated (g : Graph J R) (bad : R → Bool) (gate : J → Bool) : Prop where
  stopped : ∀ j f, ∃ r, g.enter j true f = some r ∧ bad r = true
  spreads : ∀ j f, (∃ k ∈ g.needs j, ∃ r, f k = some r ∧ bad r = true) →
    ∃ r, g.enter j false f = some r ∧ bad r = true
  runs : ∀ j f, (∀ k ∈ g.needs j, ∃ r, f k = some r ∧ bad r = false) → gate j = true →
    g.enter j false f = none
  passes : ∀ j f, (∀ k ∈ g.needs j, ∃ r, f k = some r ∧ bad r = false) → gate j = false →
    ∃ r, g.enter j false f = some r ∧ bad r = false

/-- An engine that asks three things of a job: the run goes on, nothing is in its way, its gate. -/
theorem Gated.of_enter {g : Graph J R} {bad : R → Bool} {gate : J → Bool}
    (blocked : J → (J → Option R) → Bool) {out shut : R} (hout : bad out = true)
    (hshut : bad shut = false)
    (henter : ∀ j stopped f, g.enter j stopped f =
      if stopped || blocked j f then some out else if gate j then none else some shut)
    (hbad : ∀ j f k r, k ∈ g.needs j → f k = some r → bad r = true → blocked j f = true)
    (hgood : ∀ j f, (∀ k ∈ g.needs j, ∃ r, f k = some r ∧ bad r = false) →
      blocked j f = false) : Gated g bad gate where
  stopped := fun j f => ⟨out, by rw [henter, Bool.true_or, if_pos rfl], hout⟩
  spreads := by
    intro j f ⟨k, hk, r, hr, hbadr⟩
    refine ⟨out, ?_, hout⟩
    rw [henter, hbad j f k r hk hr hbadr, Bool.or_true, if_pos rfl]
  runs := by
    intro j f hneeds hgate
    rw [henter, hgood j f hneeds, hgate]
    rfl
  passes := by
    intro j f hneeds hgate
    refine ⟨shut, ?_, hshut⟩
    rw [henter, hgood j f hneeds, hgate]
    rfl

/-- The job has a good result. -/
def State.Good (bad : R → Bool) (s : State J R) (j : J) : Prop :=
  ∃ r, s.result j = some r ∧ bad r = false

section Entry

variable {g : Graph J R} {bad : R → Bool} {gate : J → Bool} {s : State J R} {j : J}

/-- What is not passed with a bad result has been entered on good ones. -/
theorem Gated.needs_good (hg : Gated g bad gate) {o : Option R}
    (hneeds : ∀ k ∈ g.needs j, (s.result k).isSome = true) (henters : s.Enters g j o)
    (ho : ∀ r, o = some r → bad r = false) :
    (∀ k ∈ g.needs j, s.Good bad k) ∧ g.enter j false s.result = o := by
  have hgood : ∀ b, g.enter j b s.result = o →
      ¬ ∃ r, g.enter j b s.result = some r ∧ bad r = true := by
    intro b henter ⟨r, hr, hbad⟩
    rw [ho r (henter.symm.trans hr)] at hbad
    cases hbad
  obtain ⟨b, -, henter⟩ := henters
  obtain rfl : b = false := by
    cases b with
    | false => rfl
    | true => exact absurd (hg.stopped j s.result) (hgood true henter)
  refine ⟨fun k hk => ?_, henter⟩
  obtain ⟨r, hr⟩ := Option.isSome_iff_exists.mp (hneeds k hk)
  refine ⟨r, hr, ?_⟩
  cases hbad : bad r with
  | false => rfl
  | true => exact absurd (hg.spreads j s.result ⟨k, hk, r, hr, hbad⟩) (hgood false henter)

/-- **A job runs on good results only**, and through an open gate. -/
theorem Gated.of_started (hg : Gated g bad gate) (hs : Sound g s)
    (hj : (s.phase j).started = true) : (∀ k ∈ g.needs j, s.Good bad k) ∧ gate j = true := by
  obtain ⟨hneeds, henters⟩ := hs.of_started hj
  obtain ⟨hgood, henter⟩ := hg.needs_good hneeds henters fun r hr => by cases hr
  refine ⟨hgood, ?_⟩
  cases hgate : gate j with
  | true => rfl
  | false =>
      obtain ⟨r, hr, -⟩ := hg.passes j s.result hgood hgate
      rw [henter] at hr
      cases hr

/-- What is passed with a good result was so at a gate that is shut. -/
theorem Gated.of_passed (hg : Gated g bad gate) (hs : Sound g s) {r : R}
    (hj : s.phase j = .passed r) (hr : bad r = false) :
    (∀ k ∈ g.needs j, s.Good bad k) ∧ gate j = false := by
  obtain ⟨hneeds, henters⟩ := hs.of_passed hj
  obtain ⟨hgood, henter⟩ := hg.needs_good hneeds henters fun r' hr' => Option.some.inj hr' ▸ hr
  refine ⟨hgood, ?_⟩
  cases hgate : gate j with
  | false => rfl
  | true =>
      rw [hg.runs j s.result hgood hgate] at henter
      cases henter

/-- What is passed with a bad result in a run that goes on was so behind another one. -/
theorem Gated.bad_need (hg : Gated g bad gate) (hs : Sound g s) (hstopped : s.stopped = false)
    {r : R} (hj : s.phase j = .passed r) (hr : bad r = true) :
    ∃ k ∈ g.needs j, ∃ r, s.result k = some r ∧ bad r = true := by
  obtain ⟨hneeds, henters⟩ := hs.of_passed hj
  have henter := henters.eq hstopped
  by_contra hnone
  have hgood : ∀ k ∈ g.needs j, s.Good bad k := by
    intro k hk
    obtain ⟨rk, hrk⟩ := Option.isSome_iff_exists.mp (hneeds k hk)
    refine ⟨rk, hrk, ?_⟩
    cases hbad : bad rk with
    | false => rfl
    | true => exact absurd ⟨k, hk, rk, hrk, hbad⟩ hnone
  cases hgate : gate j with
  | true =>
      rw [hg.runs j s.result hgood hgate] at henter
      cases henter
  | false =>
      obtain ⟨r', hr', hgood'⟩ := hg.passes j s.result hgood hgate
      obtain rfl := Option.some.inj (henter.symm.trans hr')
      rw [hr] at hgood'
      cases hgood'

/-- All that comes before a good result is good. -/
theorem Gated.good_needs (hg : Gated g bad gate) (hs : Sound g s) (hj : s.Good bad j) :
    ∀ k ∈ g.needs j, s.Good bad k := by
  obtain ⟨r, hr, hgood⟩ := hj
  rcases result_eq_some.mp hr with hended | hpassed
  · exact (hg.of_started hs (by rw [hended]; rfl)).1
  · exact (hg.of_passed hs hpassed hgood).1

/-- All that comes before a job that runs is good. -/
theorem Gated.good_of_ancestor (hg : Gated g bad gate) (hs : Sound g s)
    (hj : (s.phase j).started = true) {n : Nat} {k : J} (hk : k ∈ ancestors g.needs n j) :
    s.Good bad k :=
  of_ancestor (fun _ hi => hg.good_needs hs hi) (hg.of_started hs hj).1 hk

/-- **What comes before a job that runs has run well**, unless its gate is shut. -/
theorem Gated.ended_of_ancestor (hg : Gated g bad gate) (hs : Sound g s)
    (hj : (s.phase j).started = true) {n : Nat} {k : J} (hk : k ∈ ancestors g.needs n j)
    (hgate : gate k = true) : ∃ r, s.phase k = .ended r ∧ bad r = false := by
  obtain ⟨r, hr, hgood⟩ := hg.good_of_ancestor hs hj hk
  rcases result_eq_some.mp hr with hended | hpassed
  · exact ⟨r, hended, hgood⟩
  · rw [(hg.of_passed hs hpassed hgood).2] at hgate
    cases hgate

end Entry

variable [DecidableEq J]

/-- A job that runs does what it does, and the run may be stopped once one has failed. -/
def ObeysFast (bad : R → Bool) (behave : J → R) (s : State J R) : Event J R → Prop
  | .enter _ => True
  | .finish j r => r = behave j
  | .stop => ∃ j r, s.phase j = .ended r ∧ bad r = true

/-- What the gates say: a job is good if all before it is, and it is shut or behaves. -/
def Graph.Decides (g : Graph J R) (bad : R → Bool) (gate : J → Bool) (behave : J → R)
    (good : J → Bool) : Prop :=
  ∀ j, good j = ((g.needs j).all good && (!gate j || !bad (behave j)))

section Runs

variable {g : Graph J R} {bad : R → Bool} {gate : J → Bool} {behave : J → R} {good : J → Bool}
  {rank : J → Nat} {s s' : State J R} {e : Event J R}

theorem ended_step (h : g.step s e = some s') {j : J} {r : R} (hj : s.phase j = .ended r) :
    s'.phase j = .ended r := by
  rcases step_cases h with ⟨i, -, hidle, -, rfl⟩ | ⟨i, r', -, hrunning, rfl⟩ | ⟨-, rfl⟩
  · have hne : j ≠ i := fun he => by rw [he, hidle] at hj; cases hj
    rw [State.set_phase, if_neg hne, hj]
  · have hne : j ≠ i := fun he => by rw [he, hrunning] at hj; cases hj
    rw [State.set_phase, if_neg hne, hj]
  · exact hj

/-- A run is only stopped behind a failure. -/
theorem failed_of_stopped (h : g.Reachable (ObeysFast bad behave) s) :
    s.stopped = true → ∃ j r, s.phase j = .ended r ∧ bad r = true := by
  refine Transition.Reachable.invariant h
    (I := fun s => s.stopped = true → ∃ j r, s.phase j = .ended r ∧ bad r = true) ?_ ?_
  · intro s hs hstopped
    rw [hs] at hstopped
    cases hstopped
  · intro s e s' _ ih hguard hstep hstopped
    have hbefore : ∃ j r, s.phase j = .ended r ∧ bad r = true := by
      rcases step_cases hstep with ⟨i, -, -, -, rfl⟩ | ⟨i, r', -, -, rfl⟩ | ⟨rfl, -⟩
      · exact ih hstopped
      · exact ih hstopped
      · exact hguard
    obtain ⟨j, r, hj, hbad⟩ := hbefore
    exact ⟨j, r, ended_step hstep hj, hbad⟩

/-- **Behind every bad result there is a failure.** -/
theorem failed_of_bad (hg : Gated g bad gate) (hrank : g.Ranked rank)
    (h : g.Reachable (ObeysFast bad behave) s) {j : J} {r : R} (hj : s.result j = some r)
    (hr : bad r = true) : ∃ m r, s.phase m = .ended r ∧ bad r = true := by
  cases hstopped : s.stopped with
  | true => exact failed_of_stopped h hstopped
  | false =>
      induction hn : rank j using Nat.strongRecOn generalizing j r with
      | ind n ih =>
          rcases result_eq_some.mp hj with hended | hpassed
          · exact ⟨j, r, hended, hr⟩
          · obtain ⟨k, hk, rk, hrk, hbad⟩ := hg.bad_need h.sound hstopped hpassed hr
            exact ih (rank k) (hn ▸ hrank j k hk) hrk hbad rfl

variable (hg : Gated g bad gate) (hdecides : g.Decides bad gate behave good)
  (h : g.Reachable (ObeysFast bad behave) s) (hrank : g.Ranked rank)

include hg hdecides h

/-- A job that has failed is not good by what the gates say. -/
theorem not_good_of_failed {j : J} {r : R} (hj : s.phase j = .ended r) (hr : bad r = true) :
    good j = false := by
  have hgate := (hg.of_started h.sound (j := j) (by rw [hj]; rfl)).2
  have hbehave := h.ended (fun j r => r = behave j) (fun _ _ _ hok => hok) hj
  rw [hdecides j, hgate, ← hbehave, hr]
  exact Bool.and_false _

include hrank

/-- **What is good in a run is so by what the gates say**, wherever the run was stopped. -/
theorem good_of_run {j : J} (hj : s.Good bad j) : good j = true := by
  induction hn : rank j using Nat.strongRecOn generalizing j with
  | ind n ih =>
      have hneeds : (g.needs j).all good = true := by
        rw [List.all_eq_true]
        intro k hk
        exact ih (rank k) (hn ▸ hrank j k hk) (hg.good_needs h.sound hj k hk) rfl
      rw [hdecides j, hneeds, Bool.true_and]
      obtain ⟨r, hr, hgood⟩ := hj
      rcases result_eq_some.mp hr with hended | hpassed
      · rw [← h.ended (fun j r => r = behave j) (fun _ _ _ hok => hok) hended, hgood]
        exact Bool.or_true _
      · rw [(hg.of_passed h.sound hpassed hgood).2]
        rfl

/-- **What runs in a run is what the gates say.** -/
theorem of_started {j : J} (hj : (s.phase j).started = true) :
    ((g.needs j).all good && gate j) = true := by
  obtain ⟨hneeds, hgate⟩ := hg.of_started h.sound hj
  rw [hgate, Bool.and_true, List.all_eq_true]
  exact fun k hk => good_of_run hg hdecides h hrank (hneeds k hk)

/-- What is bad in a run that was not stopped is so by what the gates say. -/
theorem not_good_of_run (hstopped : s.stopped = false) {j : J} {r : R} (hj : s.result j = some r)
    (hr : bad r = true) : good j = false := by
  induction hn : rank j using Nat.strongRecOn generalizing j r with
  | ind n ih =>
      rcases result_eq_some.mp hj with hended | hpassed
      · exact not_good_of_failed hg hdecides h hended hr
      · obtain ⟨k, hk, rk, hrk, hbad⟩ := hg.bad_need h.sound hstopped hpassed hr
        have hgood := ih (rank k) (hn ▸ hrank j k hk) hrk hbad rfl
        have hall : (g.needs j).all good = false := by
          rw [List.all_eq_false]
          exact ⟨k, hk, by rw [hgood]; exact Bool.false_ne_true⟩
        rw [hdecides j, hall, Bool.false_and]

/--
**A job that ought to run does**, whatever the order of the run and wherever it was
stopped, unless one that runs side by side with it has failed.
-/
theorem started_or_failed (hover : Over g s) {j : J}
    (hj : ((g.needs j).all good && gate j) = true) (n : Nat) :
    (s.phase j).started = true
      ∨ ∃ m r, s.phase m = .ended r ∧ bad r = true ∧ ¬ Comparable g.needs n j m := by
  rw [Bool.and_eq_true, List.all_eq_true] at hj
  obtain ⟨hneeds, hgate⟩ := hj
  obtain ⟨r, hr⟩ := hover.settled hrank j
  rcases result_eq_some.mp hr with hended | hpassed
  · left
    rw [hended]
    rfl
  · right
    have hbad : bad r = true := by
      cases hbad : bad r with
      | true => rfl
      | false =>
          rw [(hg.of_passed h.sound hpassed hbad).2] at hgate
          cases hgate
    have hstopped : s.stopped = true := by
      cases hstopped : s.stopped with
      | true => rfl
      | false =>
          obtain ⟨k, hk, rk, hrk, hbadk⟩ := hg.bad_need h.sound hstopped hpassed hbad
          have hgood := not_good_of_run hg hdecides h hrank hstopped hrk hbadk
          rw [hneeds k hk] at hgood
          cases hgood
    obtain ⟨m, rm, hm, hbadm⟩ := failed_of_stopped h hstopped
    refine ⟨m, rm, hm, hbadm, fun hcomparable => ?_⟩
    rcases hcomparable with rfl | hbefore | hafter
    · rw [hpassed] at hm
      cases hm
    · have hgood : good m = true := by
        refine of_ancestor (P := fun k => good k = true) ?_ hneeds hbefore
        intro k hk i hi
        rw [hdecides k, Bool.and_eq_true, List.all_eq_true] at hk
        exact hk.1 i hi
      rw [not_good_of_failed hg hdecides h hm hbadm] at hgood
      cases hgood
    · obtain ⟨r', hr', hgood⟩ :=
        hg.good_of_ancestor h.sound (j := m) (by rw [hm]; rfl) hafter
      obtain rfl := Option.some.inj (hr.symm.trans hr')
      rw [hbad] at hgood
      cases hgood

end Runs

end Dag
