import MigrationPlatform.Controller.Delivery

/-!
# Delivery while the context may be cancelled

`Webhook.Notify` waits before each attempt but the first, and gives up if the context
is done before the time is up. Here the network also says of each wait whether it ends
early, and keeps what was asked of it: the requests sent and the waits.

The wait before attempt `i` is the base shifted to the left by `i - 1`. It doubles as
long as it fits into a `time.Duration`, and not further.
-/

namespace MigrationPlatform.Controller

/-- What a call has asked of the network. -/
structure Log where
  sent : List Request
  waits : List Duration
  deriving DecidableEq

/-- The network that gives the answers in turn; the wait before attempt `i` ends early with
`cancelled i`. If both are ready the `select` may take either, so this is any sequence. -/
def interrupted (marshal : Event → Except String ByteArray) (sign : ByteArray → ByteArray → String)
    (answers : Nat → Answer) (cancelled : Nat → Option String) : Net (StateM Log) where
  marshal := marshal
  sign := sign
  send _ req := fun log => (answers log.sent.length, { log with sent := log.sent ++ [req] })
  wait d := fun log => (cancelled (log.waits.length + 1), { log with waits := log.waits ++ [d] })

/-! ## The waits -/

/-- The `i`-th wait, counted from zero. -/
def delay (backoff : Duration) (i : Nat) : Duration := backoff * (1#64 <<< i)

theorem toNat_delay (backoff : Duration) (i : Nat) :
    (delay backoff i).toNat = backoff.toNat * 2 ^ i % 2 ^ 64 := by
  unfold delay
  rw [BitVec.toNat_mul, BitVec.toNat_shiftLeft]
  show backoff.toNat * (1 <<< i % 2 ^ 64) % 2 ^ 64 = _
  rw [Nat.mul_mod_mod, Nat.one_shiftLeft]

/-- **The waits double exactly as long as they fit** into 63 bits. -/
theorem toInt_delay_iff {backoff : Duration} (h : 0 ≤ backoff.toInt) (i : Nat) :
    (delay backoff i).toInt = backoff.toInt * 2 ^ i ↔ backoff.toInt * 2 ^ i < 2 ^ 63 := by
  constructor
  · intro he
    have hlt := (delay backoff i).toInt_lt
    omega
  · intro hlt
    have hcast : backoff.toInt = backoff.toNat := by
      rw [BitVec.toInt_eq_toNat_cond] at h ⊢
      split
      · rfl
      · rename_i hnot
        have htop := backoff.isLt
        omega
    rw [hcast] at hlt ⊢
    have hfits : backoff.toNat * 2 ^ i < 2 ^ 63 := by exact_mod_cast hlt
    have hnat : (delay backoff i).toNat = backoff.toNat * 2 ^ i := by
      rw [toNat_delay]
      omega
    rw [BitVec.toInt_eq_toNat_of_lt (by rw [hnat]; omega), hnat]
    push_cast
    rfl

/-- The first waits. -/
def delays (backoff : Duration) (n : Nat) : List Duration := (List.range n).map (delay backoff)

theorem delays_succ (backoff : Duration) (n : Nat) :
    delays backoff (n + 1) = delays backoff n ++ [delay backoff n] := by
  unfold delays
  rw [List.range_succ, List.map_append]
  rfl

/-! ## The loop -/

/-- A computation goes on with its outcome and the state that it leaves. -/
theorem stateM_bind {σ α β : Type} {x : StateM σ α} {s s' : σ} {a : α} (h : x s = (a, s'))
    (next : α → StateM σ β) : (x >>= next) s = next a s' := by
  show next (x s).1 (x s).2 = _
  rw [h]

section Run

variable (marshal : Event → Except String ByteArray) (sign : ByteArray → ByteArray → String)
  (answers : Nat → Answer) (cancelled : Nat → Option String) (w : Webhook)

/-- The error that a call returns, if it fails, and what it has asked of the network. -/
def attempted (ev : Event) : Option NotifyError × Log :=
  w.notify (interrupted marshal sign answers cancelled) ev ⟨[], []⟩

/-- How a call ends that has a budget of `r` retries, with its `k`-th post the last one. -/
inductive Ends (backoff : Duration) (r k : Nat) : Option NotifyError → List Duration → Prop
  /-- The outcome of the post is final. -/
  | settled : (answers (k - 1)).final = true →
      Ends backoff r k (classify (answers (k - 1))) (delays backoff (k - 1))
  /-- The budget is used up. -/
  | exhausted : (answers (k - 1)).final = false → k = r + 1 →
      Ends backoff r k (some (.after (r + 1) (classify (answers r)))) (delays backoff r)
  /-- The context is done before the next attempt. -/
  | interrupted {err : String} : (answers (k - 1)).final = false → k ≤ r →
      cancelled k = some err → Ends backoff r k (some (.context err)) (delays backoff k)

section Loop

variable (body : ByteArray) (phase : String) (backoff : Duration) {retries : Int} {req : Request}

/-- The post of an attempt, and what comes of it. -/
def Webhook.posting {m : Type → Type} [Monad m] (w : Webhook) (net : Net m) (body : ByteArray)
    (phase : String) (retries : Int) (backoff : Duration) (attempt : Int) :
    m (Option NotifyError) := do
  match ← w.post net body phase with
  | none => return none
  | some err =>
    if err.asPermanent.isSome then return some err
    else w.attempts net body phase retries backoff (attempt + 1) (some err)

/-- A post settles the call, or the loop goes on. -/
theorem posting_step (hreq : req = w.request sign body phase) (n : Nat) (waits : List Duration) :
    w.posting (interrupted marshal sign answers cancelled) body phase retries backoff n
        ⟨List.replicate n req, waits⟩
      = if (answers n).final then (classify (answers n), ⟨List.replicate (n + 1) req, waits⟩)
        else
          w.attempts (interrupted marshal sign answers cancelled) body phase retries backoff
            (n + 1) (classify (answers n)) ⟨List.replicate (n + 1) req, waits⟩ := by
  have hpost : w.post (interrupted marshal sign answers cancelled) body phase
      ⟨List.replicate n req, waits⟩
      = (classify (answers n), ⟨List.replicate (n + 1) req, waits⟩) := by
    show (classify (answers (List.replicate n req).length),
      (⟨List.replicate n req ++ [w.request sign body phase], waits⟩ : Log)) = _
    rw [List.length_replicate, ← hreq, ← List.replicate_succ']
  unfold Webhook.posting
  rw [stateM_bind hpost]
  cases hfinal : (answers n).final with
  | false =>
      obtain ⟨e, he, hperm⟩ := classify_of_not_final hfinal
      rw [he]
      simp only [hperm]
      rfl
  | true =>
      simp only [Answer.final, Bool.or_eq_true] at hfinal
      rcases hfinal with hacc | hrej
      · rw [classify_eq_none.mpr hacc]
        rfl
      · obtain ⟨s, hs⟩ := Option.isSome_iff_exists.mp hrej
        obtain ⟨b, hb⟩ := classify_of_rejected hs
        rw [hb]
        rfl

/-- The first attempt is not waited for. -/
theorem attempts_first (h : 0 ≤ retries) (last : Option NotifyError) :
    w.attempts (interrupted marshal sign answers cancelled) body phase retries backoff 0 last
      = w.posting (interrupted marshal sign answers cancelled) body phase retries backoff 0 := by
  rw [Webhook.attempts, if_pos h]
  rfl

/-- A later one is, unless the context is done. -/
theorem attempts_later (n : Nat) (h : (n + 1 : Nat) ≤ retries) (last : Option NotifyError)
    (sent : List Request) :
    w.attempts (interrupted marshal sign answers cancelled) body phase retries backoff
        (n + 1 : Nat) last ⟨sent, delays backoff n⟩
      = match cancelled (n + 1) with
        | some err => (some (.context err), ⟨sent, delays backoff (n + 1)⟩)
        | none =>
            w.posting (interrupted marshal sign answers cancelled) body phase retries backoff
              (n + 1 : Nat) ⟨sent, delays backoff (n + 1)⟩ := by
  have hpos : ((n + 1 : Nat) : Int) > 0 := by omega
  have hshift : (((n + 1 : Nat) : Int) - 1).toNat = n := by omega
  have hwait : (interrupted marshal sign answers cancelled).wait (delay backoff n)
      ⟨sent, delays backoff n⟩ = (cancelled (n + 1), ⟨sent, delays backoff (n + 1)⟩) := by
    have hlength : (delays backoff n).length = n := by simp [delays]
    show (cancelled ((delays backoff n).length + 1),
      (⟨sent, delays backoff n ++ [delay backoff n]⟩ : Log)) = _
    rw [hlength, delays_succ]
  rw [Webhook.attempts, if_pos h, if_pos hpos, hshift]
  refine (stateM_bind hwait _).trans ?_
  cases cancelled (n + 1) with
  | some err => rfl
  | none => rfl

/-- The attempts that are left, from the post of one of them on. -/
theorem posting_run (hreq : req = w.request sign body phase) (m n : Nat) :
    ∃ k, n + 1 ≤ k ∧ k ≤ n + m + 1
      ∧ (∀ i, n + 1 ≤ i → i < k → (answers (i - 1)).final = false ∧ cancelled i = none)
      ∧ ∃ result waits,
        w.posting (interrupted marshal sign answers cancelled) body phase (n + m : Nat) backoff n
            ⟨List.replicate n req, delays backoff n⟩ = (result, ⟨List.replicate k req, waits⟩)
          ∧ Ends answers cancelled backoff (n + m) k result waits := by
  -- on the attempts that the budget leaves behind this one
  induction m generalizing n with
  | zero =>
      refine ⟨n + 1, Nat.le_refl _, Nat.le_refl _, fun i h h' => absurd h' (by omega), ?_⟩
      rw [posting_step marshal sign answers cancelled w body phase backoff hreq]
      cases hfinal : (answers n).final with
      | true => exact ⟨_, _, rfl, .settled hfinal⟩
      | false =>
          have hover : ¬ (n : Int) + 1 ≤ (n + 0 : Nat) := by omega
          rw [Webhook.attempts, if_neg hover]
          exact ⟨_, _, rfl, .exhausted hfinal rfl⟩
  | succ m ih =>
      rw [posting_step marshal sign answers cancelled w body phase backoff hreq]
      cases hfinal : (answers n).final with
      | true =>
          exact ⟨n + 1, Nat.le_refl _, by omega, fun i h h' => absurd h' (by omega), _, _, rfl,
            .settled hfinal⟩
      | false =>
          have hbudget : ((n + 1 : Nat) : Int) ≤ (n + (m + 1) : Nat) := by omega
          have hlater := attempts_later marshal sign answers cancelled w body phase backoff n
            hbudget (classify (answers n)) (List.replicate (n + 1) req)
          rw [if_neg Bool.false_ne_true]
          cases hc : cancelled (n + 1) with
          | some err =>
              rw [hc] at hlater
              exact ⟨n + 1, Nat.le_refl _, by omega, fun i h h' => absurd h' (by omega), _, _,
                hlater, .interrupted hfinal (by omega) hc⟩
          | none =>
              rw [hc] at hlater
              obtain ⟨k, hk, hle, hbefore, result, waits, hrun, hends⟩ := ih (n + 1)
              have htotal : n + 1 + m = n + (m + 1) := by omega
              rw [htotal] at hrun hends hle
              refine ⟨k, by omega, hle, fun i hi hik => ?_, result, waits, hlater.trans hrun, hends⟩
              by_cases hfirst : i = n + 1
              · rw [hfirst]
                exact ⟨hfinal, hc⟩
              · exact hbefore i (by omega) hik

end Loop

/--
**What a call does when the context may be cancelled.** It posts up to its `k`-th
attempt, none of those before settled it and none of the waits up to there was cut
short. It ends with that post because the outcome is final, because the budget is used
up, or because the context is done before the next one; then nothing is posted any
more, and the error is the context's. The waits are those between the posts.
-/
theorem notify_interrupted {ev : Event} {body : ByteArray} (hbody : marshal ev = .ok body)
    {r : Nat} (hr : w.retries = r) :
    ∃ k result waits, 1 ≤ k ∧ k ≤ r + 1
      ∧ attempted marshal sign answers cancelled w ev
        = (result, ⟨List.replicate k (w.request sign body ev.phase), waits⟩)
      ∧ (∀ i, 1 ≤ i → i < k → (answers (i - 1)).final = false ∧ cancelled i = none)
      ∧ Ends answers cancelled (if w.backoff = 0 then 500 * millisecond else w.backoff) r k
          result waits := by
  have hnet : (interrupted marshal sign answers cancelled).marshal ev = .ok body := hbody
  have hfirst := attempts_first marshal sign answers cancelled w body ev.phase
    (if w.backoff = 0 then 500 * millisecond else w.backoff) (Int.natCast_nonneg r) none
  obtain ⟨k, hk, hle, hbefore, result, waits, hrun, hends⟩ :=
    posting_run marshal sign answers cancelled w body ev.phase
      (if w.backoff = 0 then 500 * millisecond else w.backoff) rfl r 0
  rw [Nat.zero_add] at hrun hends hle
  refine ⟨k, result, waits, by omega, by omega, ?_, fun i hi hik => hbefore i (by omega) hik,
    hends⟩
  unfold attempted Webhook.notify
  rw [hnet, hr]
  exact (congrFun hfirst _).trans hrun

end Run

/-- The context is done before the third attempt. -/
def doneBeforeThird (i : Nat) : Option String := if i = 2 then some "context canceled" else none

/-- The third attempt would be accepted, but it is not made. -/
theorem notify_interrupted_doneBeforeThird :
    let w : Webhook := ⟨"http://hook", .empty, none, 3, millisecond⟩
    let run := attempted (fun _ => .ok failedBuildJSON) (fun _ _ => "") upAtThird doneBeforeThird w
      failedBuild
    run.1 = some (.context "context canceled") ∧ run.2.sent.length = 2
      ∧ run.2.waits = [millisecond, 2 * millisecond] := by
  intro w run
  have hbody : (fun _ => Except.ok failedBuildJSON : Event → Except String ByteArray) failedBuild
      = .ok failedBuildJSON := rfl
  have hretries : w.retries = (3 : Nat) := rfl
  obtain ⟨k, result, waits, hk, -, hrun, hbefore, hends⟩ :=
    notify_interrupted (fun _ => .ok failedBuildJSON) (fun _ _ => "") upAtThird doneBeforeThird w
      hbody hretries
  have hle : k ≤ 2 := by
    by_contra hgt
    have hnone := (hbefore 2 (by omega) (by omega)).2
    cases hnone
  have hrun : run = _ := hrun
  rw [hrun]
  cases hends with
  | settled hfinal =>
      have hnot : ∀ i < 2, (upAtThird i).final = false := by decide
      rw [hnot (k - 1) (by omega)] at hfinal
      cases hfinal
  | exhausted _ hall => omega
  | @interrupted err _ _ hcancelled =>
      have hk2 : k = 2 := by
        by_contra hne
        have hone : k = 1 := by omega
        rw [hone] at hcancelled
        cases hcancelled
      rw [hk2] at hcancelled ⊢
      cases hcancelled
      exact ⟨rfl, List.length_replicate, by decide⟩

end MigrationPlatform.Controller
