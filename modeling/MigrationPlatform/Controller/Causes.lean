import Mathlib.Algebra.BigOperators.Group.Finset.Basic
import Mathlib.Algebra.Order.BigOperators.Group.Finset
import MigrationPlatform.Controller.Annotation
import MigrationPlatform.Controller.Queue
import MigrationPlatform.Lib.Accounting

/-!
# What makes the controller run

The filter is there so that the busy stream of status updates of a running workflow
does not trigger reconciles. In a run, `Reconcile` is called for a key no more often
than there is a cause for it: the informer sees a change that the filter lets through,
a reconcile of the key fails, or the key is queued from outside. What the filter lets
through goes back to the API server in turn, where the object is created or changes its
phase, or to a start of the controller, which lists what is stored. A status update that
keeps the phase causes nothing, and neither does a patch of the controller.

Two potentials count what is already on its way: whether the key is queued, and the
changes that the informer has yet to see.
-/

namespace MigrationPlatform.Controller

variable {n : Nat} {w w' : World n} {a : Action n} {k : NamespacedName}

/-! ## Calls and their causes -/

/-- `Reconcile` is called for the key. -/
def World.calls (k : NamespacedName) (_ : World n) : Action n → Nat
  | .start _ k' => if k' = k then 1 else 0
  | _ => 0

/-- `Notify` is called, with an event about the key, and answers. -/
def World.notifies (k : NamespacedName) (w : World n) : Action n → Nat
  | .notify i _ =>
      match w.workers i with
      | some ⟨_, _, .notify wf⟩ => if wf.key = k then 1 else 0
      | _ => 0
  | _ => 0

/-- The reconcile of a worker is one of the key. -/
def World.reconciles (w : World n) (i : Fin n) (k : NamespacedName) : Bool :=
  (w.workers i).any fun t => t.req = k

/-- A reconcile of the key returns an error. -/
def World.fails (k : NamespacedName) (w : World n) : Action n → Nat
  | .getFails i _ | .notify i (some _) | .patch i (some _) | .patchFails i _ =>
      if w.reconciles i k then 1 else 0
  | _ => 0

/-- What there is to reconcile the key for: a change that the filter lets through, a reconcile
that has failed, or a reason outside the watch. -/
def World.causes (k : NamespacedName) (w : World n) : Action n → Nat
  | .observe k' => if k' = k ∧ (w.watch k).head?.any (queues (w.cache k)) then 1 else 0
  | .enqueue k' => if k' = k then 1 else 0
  | a => w.fails k a

/-- Where causes come from: the object is created or changes its phase, the controller starts
and lists it, a reconcile has failed, or there is a reason outside the watch. -/
def World.origins (k : NamespacedName) (w : World n) : Action n → Nat
  | .create wf => if wf.key = k then 1 else 0
  | .update k' st =>
      if k' = k ∧ (w.store k).any (fun wf => wf.status.phase != st.phase) then 1 else 0
  | .restart => if (w.store k).isSome then 1 else 0
  | .enqueue k' => if k' = k then 1 else 0
  | a => w.fails k a

/-! ## Changes on their way -/

/-- The changes that will queue the key once the informer has seen them. -/
def changes : Option Workflow → List (Option Workflow) → Nat
  | _, [] => 0
  | old, v :: rest => (queues old v).toNat + changes v rest

/-- A change that queues a key does so too if it comes in two. -/
theorem queues_le (old v new : Option Workflow) :
    (queues old new).toNat ≤ (queues old v).toNat + (queues v new).toNat := by
  cases new with
  | none =>
      have hnone : queues old none = false := by cases old <;> rfl
      rw [hnone]
      exact Nat.zero_le _
  | some new =>
      cases v with
      | none => exact Nat.le_trans (Bool.toNat_le _) (Nat.le_add_left _ _)
      | some v =>
          cases old with
          | none => exact Nat.le_add_right _ _
          | some old =>
              by_cases h : old.status.phase = v.status.phase
              · have he : queues (some old) (some new) = queues (some v) (some new) := by
                  simp [queues, watchEvent, phaseChanged, h]
                rw [he]
                exact Nat.le_add_left _ _
              · have he : queues (some old) (some v) = true := by
                  simp [queues, watchEvent, phaseChanged, h]
                rw [he]
                exact Nat.le_trans (Bool.toNat_le _) (Nat.le_add_right _ _)

theorem changes_append (old v : Option Workflow) (vs : List (Option Workflow)) :
    changes old (vs ++ [v]) = changes old vs + (queues (vs.getLast?.getD old) v).toNat := by
  induction vs generalizing old with
  | nil => simp [changes]
  | cons x vs ih =>
      rw [List.cons_append, changes, changes, ih, List.getLast?_cons, Option.getD_some]
      omega

/-- What a disconnect loses does not queue a key more often. -/
theorem changes_drop (old : Option Workflow) {vs : List (Option Workflow)} {m : Nat}
    (h : m < vs.length) : changes old (vs.drop m) ≤ changes old vs := by
  induction m generalizing vs with
  | zero => exact Nat.le_refl _
  | succ m ih =>
      match vs, h with
      | x :: y :: vs, h =>
          have htail : changes old ((y :: vs).drop m) ≤ changes old (y :: vs) :=
            ih (by simpa using h)
          have htriangle := queues_le old x y
          rw [List.drop_succ_cons]
          simp only [changes] at htail ⊢
          omega

/-- The changes of the key that the informer has yet to see and the filter will let through. -/
def World.coming (w : World n) (k : NamespacedName) : Nat := changes (w.cache k) (w.watch k)

/-- A write puts a change on its way, which queues the key or not. -/
theorem coming_write (h : (w.watch k).getLast?.getD (w.cache k) = w.store k) (k' : NamespacedName)
    (v : Option Workflow) :
    (w.write k' v).coming k = w.coming k + if k' = k then (queues (w.store k) v).toNat else 0 := by
  by_cases hk : k' = k
  · subst hk
    simp only [World.coming, World.write, Function.update_self, if_true, changes_append, h]
  · simp [World.coming, World.write, Function.update_of_ne (Ne.symm hk), hk]

/-- **Every step pays for the causes that it makes**: what the filter lets through was on its
way. -/
theorem coming_step (h : (w.watch k).getLast?.getD (w.cache k) = w.store k) (hs : Step w a w') :
    w.causes k a + w'.coming k ≤ w.origins k a + w.coming k := by
  cases hs with
  | @create wf _ _ =>
      have hwrite : _ = w.coming k + _ := coming_write h wf.key (some wf)
      have hq := Bool.toNat_le (queues (w.store k) (some wf))
      show 0 + (w.write wf.key (some wf)).coming k ≤ (if wf.key = k then 1 else 0) + w.coming k
      rw [hwrite]
      split <;> omega
  | @update k' wf st hst =>
      have hwrite := coming_write h k' (some { wf with status := st })
      show 0 + (w.write k' (some { wf with status := st })).coming k
        ≤ (if k' = k ∧ (w.store k).any (fun wf => wf.status.phase != st.phase) then 1 else 0)
          + w.coming k
      rw [hwrite]
      by_cases hk : k' = k
      · subst hk
        -- the change is counted if it is one of the phase
        by_cases hp : wf.status.phase = st.phase
        · simp [hst, queues, watchEvent, phaseChanged, hp]
        · simp [hst, queues, watchEvent, phaseChanged, hp, Nat.add_comm, Bool.toNat_le]
      · simp [hk]
  | @delete k' wf hst =>
      have hwrite := coming_write h k' none
      have hnone : queues (w.store k) none = false := by cases w.store k <;> rfl
      show 0 + (w.write k' none).coming k ≤ 0 + w.coming k
      rw [hwrite, hnone, Bool.toNat_false, ite_self]
      omega
  | @disconnect k' m hm =>
      show 0 + World.coming _ k ≤ 0 + w.coming k
      by_cases hk : k' = k
      · subst hk
        have hdrop := changes_drop (w.cache k') hm
        simp only [World.coming, Function.update_self]
        omega
      · simp [World.coming, Function.update_of_ne (Ne.symm hk)]
  | @observe k' v rest hw =>
      show (if k' = k ∧ (w.watch k).head?.any (queues (w.cache k)) then 1 else 0)
        + (w.see k' v rest).coming k ≤ 0 + w.coming k
      by_cases hk : k' = k
      · subst hk
        -- what is seen is the first change on its way
        simp only [World.coming, World.see, Function.update_self, hw, changes, List.head?_cons,
          Option.any_some, true_and]
        cases queues (w.cache k') v with
        | false => simp
        | true => simp
      · simp [World.coming, World.see, Function.update_of_ne (Ne.symm hk), hk]
  | restart =>
      show 0 + w.relist.coming k ≤ (if (w.store k).isSome then 1 else 0) + w.coming k
      cases hst : w.store k <;> simp [World.coming, World.relist, hst, changes, queues_create]
  | get _ _ =>
      rw [World.afterGet]
      split <;> exact Nat.le_refl _
  | @notify _ err _ _ _ _ => cases err <;> exact Nat.le_refl _
  | @patch i err t wf o ht _ ho =>
      -- the patch keeps the phase
      have hwrite : _ = w.coming k + _ := coming_write h wf.key (some (o.annotate wf.status.phase))
      have hq : (if wf.key = k then
          (queues (w.store k) (some (o.annotate wf.status.phase))).toNat else 0) = 0 := by
        split
        · rename_i hk
          rw [← hk, ho]
          simp [queues, watchEvent, phaseChanged, Workflow.annotate]
        · rfl
      rw [hq, Nat.add_zero] at hwrite
      have hcoming : (w.afterPatch i t wf o err).coming k = w.coming k := hwrite
      have hsame : w.causes k (.patch i err) = w.origins k (.patch i err) := rfl
      rw [hcoming, hsame]
  | _ => exact Nat.le_refl _

/-! ## The account of the calls -/

/-- The call that a queued key stands for. -/
def World.due (w : World n) (k : NamespacedName) : Nat := (w.queue k).toNat

/-- A reconcile that returns queues its key again only if it has failed. -/
theorem due_finish (i : Fin n) (t : Task) (r : Except String Unit) :
    (w.finish i t r).due k ≤ w.due k + (if t.req = k then (!r.isOk).toNat else 0) := by
  by_cases hk : t.req = k
  · subst hk
    simp only [World.due, World.finish, Function.update_self, if_true]
    cases w.queue t.req with
    | false =>
        rw [Bool.false_or, Bool.toNat_false]
        omega
    | true =>
        rw [Bool.true_or]
        omega
  · simp [World.due, World.finish, Function.update_of_ne (Ne.symm hk), hk]

theorem due_finish_ok (i : Fin n) (t : Task) {r : Except String Unit} (hr : r.isOk = true) :
    (w.finish i t r).due k ≤ w.due k := by
  have hfinish := due_finish (w := w) (k := k) i t r
  rw [hr, Bool.not_true, Bool.toNat_false, ite_self] at hfinish
  exact hfinish

/-- A failure is one of the key that its worker was called for. -/
theorem due_finish_fails {i : Fin n} {t : Task} (ht : w.workers i = some t)
    (r : Except String Unit) :
    (w.finish i t r).due k ≤ w.due k + (if w.reconciles i k then 1 else 0) := by
  have hfinish := due_finish (w := w) (k := k) i t r
  have hiff : w.reconciles i k = true ↔ t.req = k := by simp [World.reconciles, ht]
  have hle := Bool.toNat_le (!r.isOk)
  simp only [hiff]
  split at hfinish
  · rename_i hk
    rw [if_pos hk]
    omega
  · omega

/-- What is found at a key is no failure of `Get`. -/
theorem isOk_of_read {src : Source} {req : NamespacedName} {r : Except String Unit}
    (h : onGet (w.read src req) = .ret r) : r.isOk = true := by
  cases hres : w.read src req with
  | found wf =>
      rw [hres, onGet_found] at h
      split at h
      · cases h
      · cases h
        rfl
  | notFound =>
      rw [hres] at h
      cases h
      rfl
  | failed err =>
      cases src with
      | cache => cases hc : w.cache req <;> simp [World.read, hc] at hres
      | live => cases hst : w.store req <;> simp [World.read, hst] at hres

/-- **Every step pays for its calls**: a cause is a call on its way. -/
theorem due_step (hs : Step w a w') : w.calls k a + w'.due k ≤ w.causes k a + w.due k := by
  cases hs with
  | @observe k' v rest hw =>
      show 0 + (w.see k' v rest).due k
        ≤ (if k' = k ∧ (w.watch k).head?.any (queues (w.cache k)) then 1 else 0) + w.due k
      by_cases hk : k' = k
      · subst hk
        simp only [World.due, World.see, Function.update_self, hw, List.head?_cons,
          Option.any_some, true_and]
        cases w.queue k' with
        | false => cases queues (w.cache k') v <;> simp
        | true => simp
      · simp [World.due, World.see, Function.update_of_ne (Ne.symm hk), hk]
  | restart =>
      show 0 + 0 ≤ 0 + w.due k
      exact Nat.zero_le _
  | @enqueue k' =>
      show 0 + World.due _ k ≤ (if k' = k then 1 else 0) + w.due k
      by_cases hk : k' = k
      · subst hk
        simp only [World.due, Function.update_self, Bool.toNat_true, if_true]
        omega
      · simp [World.due, Function.update_of_ne (Ne.symm hk), hk]
  | @start i k' _ hq =>
      show (if k' = k then 1 else 0) + (w.call i k').due k ≤ 0 + w.due k
      by_cases hk : k' = k
      · subst hk
        simp [World.due, World.call, hq]
      · simp [World.due, World.call, Function.update_of_ne (Ne.symm hk), hk]
  | @get i src t ht _ =>
      show 0 + _ ≤ 0 + w.due k
      rw [World.afterGet, Nat.zero_add, Nat.zero_add]
      split
      · rename_i r hr
        exact due_finish_ok (w := { w with reads := _ }) i t (isOk_of_read hr)
      · exact Nat.le_refl _
  | @getFails i err t ht _ =>
      show 0 + _ ≤ (if w.reconciles i k then 1 else 0) + w.due k
      have hfinish := due_finish_fails (w := { w with reads := _ }) (k := k) ht
        (.error ("get workflow: " ++ err))
      rw [Nat.zero_add, Nat.add_comm]
      exact hfinish
  | @notify i err t wf ht _ =>
      cases err with
      | none => exact Nat.le_refl _
      | some err =>
          show 0 + _ ≤ (if w.reconciles i k then 1 else 0) + w.due k
          rw [Nat.zero_add, Nat.add_comm]
          exact due_finish_fails ht _
  | @patch i err t wf o ht _ ho =>
      have ht' : (w.write wf.key (some (o.annotate wf.status.phase))).workers i = some t := ht
      cases err with
      | none =>
          show 0 + _ ≤ 0 + w.due k
          rw [Nat.zero_add, Nat.zero_add]
          exact due_finish_ok (w := { w.write _ _ with patched := _ }) i t rfl
      | some err =>
          show 0 + _ ≤ (if w.reconciles i k then 1 else 0) + w.due k
          rw [Nat.zero_add, Nat.add_comm]
          exact due_finish_fails (w := { w.write _ _ with patched := _ }) ht' _
  | @patchFails i err t wf ht _ =>
      show 0 + _ ≤ (if w.reconciles i k then 1 else 0) + w.due k
      rw [Nat.zero_add, Nat.add_comm]
      exact due_finish_fails ht _
  | @patchNotFound i t wf ht _ _ =>
      show 0 + _ ≤ 0 + w.due k
      rw [Nat.zero_add, Nat.zero_add]
      exact due_finish_ok i t rfl
  | _ => exact Nat.le_refl _

/-! ## The account of the notifications -/

/-- The call of `Notify` that a reconcile may still make for the key. -/
def Task.owes (k : NamespacedName) (t : Task) : Nat :=
  match t.stage with
  | .get => if t.req = k then 1 else 0
  | .notify wf => if wf.key = k then 1 else 0
  | .patch _ => 0

/-- The calls of `Notify` that the reconciles in flight may still make for the key. -/
def World.owed (w : World n) (k : NamespacedName) : Nat :=
  ∑ i, (w.workers i).elim 0 (Task.owes k)

/-- A worker's next task takes the place of the one that it has. -/
theorem owed_update (ws : Fin n → Option Task) (i : Fin n) (v : Option Task) :
    (∑ j, (Function.update ws i v j).elim 0 (Task.owes k)) + (ws i).elim 0 (Task.owes k)
      = (∑ j, (ws j).elim 0 (Task.owes k)) + v.elim 0 (Task.owes k) := by
  have hmem : i ∈ Finset.univ := Finset.mem_univ i
  rw [← Finset.add_sum_erase _ _ hmem, ← Finset.add_sum_erase _ (fun j => (ws j).elim 0 _) hmem,
    Function.update_self]
  have hrest : ∑ j ∈ Finset.univ.erase i, (Function.update ws i v j).elim 0 (Task.owes k)
      = ∑ j ∈ Finset.univ.erase i, (ws j).elim 0 (Task.owes k) := by
    refine Finset.sum_congr rfl fun j hj => ?_
    rw [Function.update_of_ne (Finset.ne_of_mem_erase hj)]
  omega

theorem owed_finish (i : Fin n) (t : Task) (r : Except String Unit) (ht : w.workers i = some t) :
    (w.finish i t r).owed k + t.owes k = w.owed k := by
  have hupdate := owed_update (k := k) w.workers i none
  rw [ht] at hupdate
  exact hupdate

theorem owed_await {i : Fin n} {t : Task} (s : Stage) (ht : w.workers i = some t) :
    (w.await i t s).owed k + t.owes k = w.owed k + Task.owes k { t with stage := s } := by
  have hupdate := owed_update (k := k) w.workers i (some { t with stage := s })
  rw [ht] at hupdate
  exact hupdate

/-- **Every step pays for its notifications**: a call is a notification on its way. -/
theorem owed_step (hv : VersionInv w) (hs : Step w a w') :
    w.notifies k a + w'.owed k ≤ w.calls k a + w.owed k := by
  cases hs with
  | restart =>
      show 0 + w.relist.owed k ≤ 0 + w.owed k
      have hnone : w.relist.owed k = 0 := Finset.sum_eq_zero fun _ _ => rfl
      omega
  | @start i k' hi _ =>
      have hupdate := owed_update (k := k) w.workers i (some ⟨w.nextId, k', .get⟩)
      rw [hi] at hupdate
      show 0 + (w.call i k').owed k ≤ (if k' = k then 1 else 0) + w.owed k
      have howes : (w.call i k').owed k + 0 = w.owed k + if k' = k then 1 else 0 := hupdate
      omega
  | @get i src t ht hstage =>
      show 0 + _ ≤ 0 + w.owed k
      rw [World.afterGet]
      split
      · rename_i r _
        have hfinish := owed_finish (w := { w with reads := _ }) (k := k) i t r ht
        exact Nat.add_le_add_left (Nat.le_of_add_right_le (Nat.le_of_eq hfinish)) 0
      · -- what is read is a version of the key
        rename_i wf hgo
        have hread := (onGet_go.mp hgo).1
        have hkey : wf.key = t.req := hv.keyed t.req wf (.of_read hread)
        have hawait := owed_await (w := { w with reads := _ }) (k := k) (.notify wf) ht
        have howes : t.owes k = Task.owes k { t with stage := .notify wf } := by
          simp [Task.owes, hstage, hkey]
        rw [howes] at hawait
        exact Nat.add_le_add_left (Nat.le_of_eq (Nat.add_right_cancel hawait)) 0
  | @getFails i err t ht _ =>
      show 0 + _ ≤ 0 + w.owed k
      have hfinish := owed_finish (w := { w with reads := _ }) (k := k) i t
        (.error ("get workflow: " ++ err)) ht
      exact Nat.add_le_add_left (Nat.le_of_add_right_le (Nat.le_of_eq hfinish)) 0
  | @notify i err t wf ht hstage =>
      have howes : w.notifies k (.notify i err) = t.owes k := by
        obtain ⟨id, req, stage⟩ := t
        subst hstage
        simp [World.notifies, ht, Task.owes]
      rw [howes]
      show _ ≤ 0 + w.owed k
      cases err with
      | some err =>
          have hfinish := owed_finish (k := k) i t (.error ("notify: " ++ err)) ht
          rw [Nat.zero_add, Nat.add_comm]
          exact Nat.le_of_eq hfinish
      | none =>
          have hawait := owed_await (w := { w with delivered := _ }) (k := k) (.patch wf) ht
          rw [Nat.zero_add, Nat.add_comm]
          exact Nat.le_of_eq hawait
  | @patch i err t wf o ht _ _ =>
      show 0 + _ ≤ 0 + w.owed k
      have hfinish := owed_finish (w := { w.write wf.key (some (o.annotate wf.status.phase)) with
        patched := t.id :: w.patched }) (k := k) i t (onPatch (err.elim .ok .failed)) ht
      exact Nat.add_le_add_left (Nat.le_of_add_right_le (Nat.le_of_eq hfinish)) 0
  | @patchFails i err t wf ht _ =>
      show 0 + _ ≤ 0 + w.owed k
      have hfinish := owed_finish (k := k) i t (onPatch (.failed err)) ht
      exact Nat.add_le_add_left (Nat.le_of_add_right_le (Nat.le_of_eq hfinish)) 0
  | @patchNotFound i t wf ht _ _ =>
      show 0 + _ ≤ 0 + w.owed k
      have hfinish := owed_finish (k := k) i t (onPatch .notFound) ht
      exact Nat.add_le_add_left (Nat.le_of_add_right_le (Nat.le_of_eq hfinish)) 0
  | _ => exact Nat.le_refl _

/--
**The controller runs no more often than there is a cause.** Whatever happens in a
run, in any order and with any number of workers: for each key, `Notify` is called at
most once for each call of `Reconcile`, `Reconcile` at most once for each cause, and what
the filter lets through goes back to creates, changes of phase and starts of the
controller.
-/
theorem calls_le_causes {as : List (Action n)}
    (hrun : Transition.run World.act World.init as = some w) (k : NamespacedName) :
    Transition.total World.act (World.notifies k) World.init as
        ≤ Transition.total World.act (World.calls k) World.init as
      ∧ Transition.total World.act (World.calls k) World.init as
        ≤ Transition.total World.act (World.causes k) World.init as
      ∧ Transition.total World.act (World.causes k) World.init as
        ≤ Transition.total World.act (World.origins k) World.init as := by
  have hversion : ∀ (w : World n) a w', VersionInv w → World.act w a = some w' → VersionInv w' :=
    fun _ _ _ hv hs => versionInv_step hv (step_of_act hs)
  have howed_step : ∀ (w : World n) a w', VersionInv w → World.act w a = some w' →
      World.notifies k w a + w'.owed k ≤ World.calls k w a + w.owed k :=
    fun _ _ _ hv hs => owed_step hv (step_of_act hs)
  have hdue_step : ∀ (w : World n) a w', VersionInv w → World.act w a = some w' →
      World.calls k w a + w'.due k ≤ World.causes k w a + w.due k :=
    fun _ _ _ _ hs => due_step (step_of_act hs)
  have hfollows : ∀ (w : World n) a w',
      (∀ k, (w.watch k).getLast?.getD (w.cache k) = w.store k) → World.act w a = some w' →
      ∀ k, (w'.watch k).getLast?.getD (w'.cache k) = w'.store k :=
    fun _ _ _ hf hs => follows_step hf (step_of_act hs)
  have hcoming_step : ∀ (w : World n) a w',
      (∀ k, (w.watch k).getLast?.getD (w.cache k) = w.store k) → World.act w a = some w' →
      World.causes k w a + w'.coming k ≤ World.origins k w a + w.coming k :=
    fun _ _ _ hf hs => coming_step (hf k) (step_of_act hs)
  have hnotifies := Transition.total_le hversion howed_step versionInv_init hrun
  have hcalls := Transition.total_le hversion hdue_step versionInv_init hrun
  have hcauses := Transition.total_le hfollows hcoming_step queueInv_init.follows hrun
  have howed : (World.init : World n).owed k = 0 := Finset.sum_eq_zero fun _ _ => rfl
  have hdue : (World.init : World n).due k = 0 := rfl
  have hcoming : (World.init : World n).coming k = 0 := rfl
  refine ⟨?_, ?_, ?_⟩
  · omega
  · omega
  · omega

/--
A running workflow reports its progress twice before it completes. The watch loses the
moment in which a retry is running, so the informer sees no change of phase.
-/
def busyRun : List (Action 1) :=
  [.create (exampleWorkflow "uid-1" workflowRunning), .observe exampleKey, .start w0 exampleKey,
    .get w0 .cache, .update exampleKey { phase := workflowRunning, progress := "1/2" },
    .observe exampleKey, .update exampleKey { phase := workflowRunning, progress := "2/2" },
    .observe exampleKey, .update exampleKey { phase := workflowSucceeded }, .observe exampleKey,
    .start w0 exampleKey, .get w0 .cache, .notify w0 none, .patch w0 none, .observe exampleKey,
    .update exampleKey { phase := workflowRunning },
    .update exampleKey { phase := workflowSucceeded }, .disconnect exampleKey 1,
    .observe exampleKey]

theorem calls_le_causes_busyRun :
    Transition.total World.act (World.causes exampleKey) World.init busyRun = 2
      ∧ Transition.total World.act (World.notifies exampleKey) World.init busyRun
        ≤ Transition.total World.act (World.calls exampleKey) World.init busyRun
      ∧ Transition.total World.act (World.calls exampleKey) World.init busyRun
        ≤ Transition.total World.act (World.causes exampleKey) World.init busyRun
      ∧ Transition.total World.act (World.causes exampleKey) World.init busyRun
        ≤ Transition.total World.act (World.origins exampleKey) World.init busyRun := by
  have hend : (Transition.run World.act World.init busyRun).isSome = true := by decide
  obtain ⟨w, hrun⟩ := Option.isSome_iff_exists.mp hend
  exact ⟨by decide, calls_le_causes hrun exampleKey⟩

end MigrationPlatform.Controller
