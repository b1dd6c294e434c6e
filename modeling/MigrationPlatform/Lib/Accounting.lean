import Mathlib.Data.List.Induction
import MigrationPlatform.Lib.Transition

/-!
# Accounts over runs

A cost of actions is added up over a run by `total`. What a run costs is bounded by
what it is charged if every step can pay: with a potential of the states, the cost of
a step and the potential behind it come to no more than its charge and the potential
before it (`total_le`).

A run is also read from its end: `run_last` is the induction on the last action, `log`
what its actions put out, and `Visited` are the states that it has come through.
-/

namespace Transition

variable {σ α : Type} {step : σ → α → Option σ}

/-- A cost of actions, added up over a run. -/
def total (step : σ → α → Option σ) (cost : σ → α → Nat) : σ → List α → Nat
  | _, [] => 0
  | s, a :: as => cost s a + (step s a).elim 0 fun s' => total step cost s' as

/--
**The potential method.** If every step from a state of the invariant pays for its cost
out of its charge and the potential, then so does every run.
-/
theorem total_le {I : σ → Prop} {potential : σ → Nat} {cost charge : σ → α → Nat}
    (hinv : ∀ s a s', I s → step s a = some s' → I s')
    (hpay : ∀ s a s', I s → step s a = some s' →
      cost s a + potential s' ≤ charge s a + potential s)
    {s s' : σ} {as : List α} (hs : I s) (hrun : run step s as = some s') :
    total step cost s as + potential s' ≤ total step charge s as + potential s := by
  induction as generalizing s with
  | nil =>
      obtain rfl := Option.some.inj hrun
      exact Nat.le_refl _
  | cons a as ih =>
      obtain ⟨t, ht, hrun⟩ := Option.bind_eq_some_iff.mp hrun
      have hstep := hpay s a t hs ht
      have hrest := ih (hinv s a t hs ht) hrun
      unfold total
      rw [ht, Option.elim_some, Option.elim_some]
      omega

/-! ## Runs by their last action -/

theorem run_append (s : σ) (as bs : List α) :
    run step s (as ++ bs) = (run step s as).bind fun t => run step t bs := by
  induction as generalizing s with
  | nil => rfl
  | cons a as ih =>
      show (step s a).bind (fun t => run step t (as ++ bs)) = _
      simp only [ih]
      rw [← Option.bind_assoc]
      rfl

theorem run_snoc {s t t' : σ} {as : List α} {a : α} (h : run step s as = some t)
    (hstep : step t a = some t') : run step s (as ++ [a]) = some t' := by
  rw [run_append, h]
  simp [run, hstep]

/-- **Induction on the last action of a run.** -/
theorem run_last {s : σ} {P : List α → σ → Prop} (hnil : P [] s)
    (hlast : ∀ as a t t', run step s as = some t → P as t → step t a = some t' →
      P (as ++ [a]) t')
    {as : List α} {t : σ} (hrun : run step s as = some t) : P as t := by
  induction as using List.reverseRecOn generalizing t with
  | nil =>
      obtain rfl := Option.some.inj hrun
      exact hnil
  | append_singleton as a ih =>
      rw [run_append] at hrun
      obtain ⟨t₀, ht₀, hrun⟩ := Option.bind_eq_some_iff.mp hrun
      obtain ⟨t₁, hstep, hrun⟩ := Option.bind_eq_some_iff.mp hrun
      obtain rfl := Option.some.inj hrun
      exact hlast as a t₀ t₁ ht₀ (ih ht₀) hstep

/-- What the actions of a run put out, one after the other. -/
def log {β : Type} (step : σ → α → Option σ) (out : σ → α → List β) : σ → List α → List β
  | _, [] => []
  | s, a :: as => out s a ++ (step s a).elim [] fun s' => log step out s' as

theorem log_append {β : Type} {out : σ → α → List β} {s t : σ} {as : List α}
    (h : run step s as = some t) (bs : List α) :
    log step out s (as ++ bs) = log step out s as ++ log step out t bs := by
  induction as generalizing s with
  | nil =>
      obtain rfl := Option.some.inj h
      rfl
  | cons a as ih =>
      obtain ⟨s', hs', h⟩ := Option.bind_eq_some_iff.mp h
      rw [List.cons_append, log, log, hs', Option.elim_some, Option.elim_some, ih h,
        List.append_assoc]

/-- The last action puts out its own. -/
theorem log_snoc {β : Type} {out : σ → α → List β} {s t t' : σ} {as : List α} {a : α}
    (h : run step s as = some t) (hstep : step t a = some t') :
    log step out s (as ++ [a]) = log step out s as ++ out t a := by
  have hlast : log step out t [a] = out t a := by
    rw [log, hstep]
    exact List.append_nil _
  rw [log_append h, hlast]

/-- The run comes through the state. -/
def Visited (step : σ → α → Option σ) (s : σ) (as : List α) (t : σ) : Prop :=
  ∃ bs, bs <+: as ∧ run step s bs = some t

theorem Visited.last {s t : σ} {as : List α} (h : run step s as = some t) :
    Visited step s as t := ⟨as, List.prefix_refl as, h⟩

theorem Visited.append {s t : σ} {as : List α} (h : Visited step s as t) (bs : List α) :
    Visited step s (as ++ bs) t := by
  obtain ⟨cs, hcs, hrun⟩ := h
  exact ⟨cs, hcs.trans (List.prefix_append as bs), hrun⟩

end Transition
