import Mathlib.Data.List.Basic

/-!
# Guarded runs of a transition function

A system here is a partial step function: `step s a` is the state after action
`a`, or `none` when `a` cannot happen in `s`. A run is a list of actions. Most
results about a run hold only when its environment behaves, so reachability
carries a guard `ok`, a condition on each action in the state it is taken in.

An invariant is proved once for each step and lifted to every run by
`Reachable.invariant`; a concrete run is shown to stay within a guard by
evaluating `RunOk`.
-/

namespace Transition

variable {σ α : Type}

/-- The states reachable from `init` by steps that all meet `ok`. -/
inductive Reachable (step : σ → α → Option σ) (init : σ → Prop) (ok : σ → α → Prop) :
    σ → Prop where
  | init {s : σ} : init s → Reachable step init ok s
  | tail {s s' : σ} {a : α} :
      Reachable step init ok s → ok s a → step s a = some s' → Reachable step init ok s'

variable {step : σ → α → Option σ} {init : σ → Prop} {ok : σ → α → Prop}

/--
**The invariant rule.** What holds at the start and is preserved by every
guarded step from a reachable state holds in every reachable state.
-/
theorem Reachable.invariant {I : σ → Prop} {s : σ} (h : Reachable step init ok s)
    (h0 : ∀ s, init s → I s)
    (hstep : ∀ s a s', Reachable step init ok s → I s → ok s a → step s a = some s' → I s') :
    I s := by
  induction h with
  | init hi => exact h0 _ hi
  | tail hr hok hs ih => exact hstep _ _ _ hr ih hok hs

/-- The state after a list of actions, if each of them can happen. -/
def run (step : σ → α → Option σ) : σ → List α → Option σ
  | s, [] => some s
  | s, a :: as => (step s a).bind fun s' => run step s' as

/-- Every action of the list can happen and meets the guard when it does. -/
def RunOk (step : σ → α → Option σ) (ok : σ → α → Prop) : σ → List α → Prop
  | _, [] => True
  | s, a :: as => ok s a ∧ ∃ s' ∈ step s a, RunOk step ok s' as

instance decidableRunOk (step : σ → α → Option σ) (ok : σ → α → Prop)
    [∀ s a, Decidable (ok s a)] : ∀ s as, Decidable (RunOk step ok s as)
  | _, [] => .isTrue trivial
  | s, a :: as =>
      match h : step s a with
      | none => .isFalse fun ⟨_, s', hs', _⟩ => by rw [h] at hs'; cases hs'
      | some s' =>
          have := decidableRunOk step ok s' as
          decidable_of_iff (ok s a ∧ RunOk step ok s' as)
            (by simp only [RunOk, h, Option.mem_some_iff, exists_eq_left'])

/-- An executed run that meets the guard ends in a reachable state. -/
theorem Reachable.run {s s' : σ} {as : List α} (h : Reachable step init ok s)
    (hok : RunOk step ok s as) (hrun : Transition.run step s as = some s') :
    Reachable step init ok s' := by
  induction as generalizing s with
  | nil => exact Option.some.inj hrun ▸ h
  | cons a as ih =>
      obtain ⟨ha, t, ht, hok⟩ := hok
      rw [Option.mem_def] at ht
      rw [Transition.run, ht, Option.bind_some] at hrun
      exact ih (.tail h ha ht) hok hrun

end Transition
