import MigrationPlatform.Controller.Notify

/-!
# What one call of `Notify` delivers

An attempt is *final* when `Notify` has nothing to gain from another one: it
was accepted (2xx) or rejected for good (4xx other than 429). The loop is run
against a sequence of answers, the first one for the first attempt. One attempt
is `attempts_step`; `attempts_run` adds them up by induction on the attempts
that are left, and both results below read it off.
-/

namespace MigrationPlatform.Controller

/-! ## Outcomes of an attempt -/

/-- Answered 2xx. -/
def Answer.accepted : Answer → Bool
  | .error _ => false
  | .ok resp => resp.statusCode ≥ 200 && resp.statusCode < 300

/-- The status, if it is a 4xx other than 429. -/
def Answer.rejected : Answer → Option Int
  | .error _ => none
  | .ok resp =>
    if resp.statusCode ≥ 400 && resp.statusCode < 500 && resp.statusCode != 429 then
      some resp.statusCode
    else none

/-- The outcome ends the retries. -/
def Answer.final (a : Answer) : Bool := a.accepted || a.rejected.isSome

theorem classify_eq_none {a : Answer} : classify a = none ↔ a.accepted = true := by
  unfold classify Answer.accepted
  cases a with
  | error err => simp
  | ok resp =>
      simp only [Bool.and_eq_true, decide_eq_true_eq]
      split
      case isTrue h => exact ⟨fun _ => h, fun _ => rfl⟩
      case isFalse h => split <;> simp only [reduceCtorEq, h]

theorem classify_of_rejected {a : Answer} {s : Int} (h : a.rejected = some s) :
    ∃ body, classify a = some (.permanent ⟨s, body⟩) := by
  cases a with
  | error err => cases h
  | ok resp =>
      simp only [Answer.rejected, Bool.and_eq_true, decide_eq_true_eq, bne_iff_ne] at h
      split at h
      case isFalse => cases h
      case isTrue hs =>
        cases h
        have h2xx : ¬(resp.statusCode ≥ 200 ∧ resp.statusCode < 300) := by omega
        refine ⟨resp.body.extract 0 4096, ?_⟩
        show (if _ then _ else _) = _
        rw [if_neg h2xx, if_pos ⟨hs.1.1, hs.1.2, hs.2⟩]

theorem classify_eq_permanent {a : Answer} {s : Int} :
    (∃ body, classify a = some (.permanent ⟨s, body⟩)) ↔ a.rejected = some s := by
  refine ⟨?_, classify_of_rejected⟩
  rintro ⟨body, h⟩
  cases a with
  | error err => cases h
  | ok resp =>
      unfold classify at h
      simp only at h
      split at h
      · cases h
      · split at h
        case isTrue hs =>
          cases h
          simp [Answer.rejected, hs.1, hs.2.1, hs.2.2]
        case isFalse => cases h

/-- An attempt that is not final has an error that is not permanent. -/
theorem classify_of_not_final {a : Answer} (h : a.final = false) :
    ∃ e, classify a = some e ∧ e.asPermanent = none := by
  simp only [Answer.final, Bool.or_eq_false_iff] at h
  cases a with
  | error err => exact ⟨.transport err, rfl, rfl⟩
  | ok resp =>
      obtain ⟨hacc, hrej⟩ := h
      refine ⟨.status resp.statusCode, ?_, rfl⟩
      simp only [Answer.accepted, Bool.and_eq_false_iff, decide_eq_false_iff_not] at hacc
      have h4xx : ¬(resp.statusCode ≥ 400 ∧ resp.statusCode < 500 ∧ resp.statusCode ≠ 429) := by
        rintro ⟨h1, h2, h3⟩
        simp [Answer.rejected, h1, h2, h3] at hrej
      have h2xx : ¬(resp.statusCode ≥ 200 ∧ resp.statusCode < 300) := by omega
      show (if _ then _ else _) = _
      rw [if_neg h2xx, if_neg h4xx]

/-! ## A call of `Notify` against a sequence of answers -/

/-- The network that gives the answers in turn and keeps what was sent. The context is never
cancelled. -/
def scripted (marshal : Event → Except String ByteArray) (sign : ByteArray → ByteArray → String)
    (answers : Nat → Answer) : Net (StateM (List Request)) where
  marshal := marshal
  sign := sign
  send _ req := fun sent => (answers sent.length, sent ++ [req])
  wait _ := pure none

section Run

variable (marshal : Event → Except String ByteArray) (sign : ByteArray → ByteArray → String)
  (answers : Nat → Answer) (w : Webhook)

/-- The error that a call returns, if it fails, and the requests it has posted. -/
def delivery (ev : Event) : Option NotifyError × List Request :=
  w.notify (scripted marshal sign answers) ev []

/-- One attempt of the loop. -/
theorem attempts_step (body : ByteArray) (phase : String) (retries : Int) (backoff : Duration)
    (n : Nat) (last : Option NotifyError) {sent : List Request} (hsent : sent.length = n)
    (h : (n : Int) ≤ retries) :
    w.attempts (scripted marshal sign answers) body phase retries backoff n last sent
      = if (answers n).final then
          (classify (answers n), sent ++ [w.request sign body phase])
        else
          w.attempts (scripted marshal sign answers) body phase retries backoff (n + 1 : Nat)
            (classify (answers n)) (sent ++ [w.request sign body phase]) := by
  subst hsent
  rw [Webhook.attempts, if_pos h]
  -- what follows the answer goes by the error that it comes to
  have hafter : ∀ next : Option NotifyError → StateM (List Request) (Option NotifyError),
      next none = pure none →
      (∀ err, next (some err) = if err.asPermanent.isSome then pure (some err)
        else w.attempts (scripted marshal sign answers) body phase retries backoff
          (sent.length + 1) (some err)) →
      (w.post (scripted marshal sign answers) body phase >>= next) sent
        = if (answers sent.length).final then
            (classify (answers sent.length), sent ++ [w.request sign body phase])
          else
            w.attempts (scripted marshal sign answers) body phase retries backoff
              (sent.length + 1 : Nat) (classify (answers sent.length))
              (sent ++ [w.request sign body phase]) := by
    intro next hnone hsome
    show next (classify (answers sent.length)) (sent ++ [w.request sign body phase]) = _
    cases hfinal : (answers sent.length).final with
    | false =>
        obtain ⟨e, he, hperm⟩ := classify_of_not_final hfinal
        rw [he, hsome, hperm]
        rfl
    | true =>
        simp only [Answer.final, Bool.or_eq_true] at hfinal
        rcases hfinal with hacc | hrej
        · rw [classify_eq_none.mpr hacc, hnone]
          rfl
        · obtain ⟨s, hs⟩ := Option.isSome_iff_exists.mp hrej
          obtain ⟨b, hb⟩ := classify_of_rejected hs
          rw [hb, hsome]
          rfl
  have hwait : ∀ delay (next : Option String → StateM (List Request) (Option NotifyError)),
      ((scripted marshal sign answers).wait delay >>= next) sent = next none sent :=
    fun _ _ => rfl
  split
  · rw [hwait]
    exact hafter _ rfl fun _ => rfl
  · exact hafter _ rfl fun _ => rfl

/-- The attempts that are left: up to the first final one, or all `k` of them. -/
theorem attempts_run (body : ByteArray) (phase : String) (backoff : Duration) (n k : Nat)
    (last : Option NotifyError) {sent : List Request} (hsent : sent.length = n) :
    w.attempts (scripted marshal sign answers) body phase (n + k - 1) backoff n last sent
      = match (List.range' n k).find? (fun i => (answers i).final) with
        | some i =>
            (classify (answers i), sent ++ List.replicate (i + 1 - n) (w.request sign body phase))
        | none =>
            (some (.after (n + k) (if k = 0 then last else classify (answers (n + k - 1)))),
              sent ++ List.replicate k (w.request sign body phase)) := by
  induction k generalizing n last sent with
  | zero =>
      have hover : ¬((n : Int) ≤ n + (0 : Nat) - 1) := by omega
      rw [Webhook.attempts, if_neg hover]
      simp
      rfl
  | succ k ih =>
      have hle : (n : Int) ≤ n + (k + 1 : Nat) - 1 := by omega
      rw [attempts_step marshal sign answers w body phase _ backoff n last hsent hle]
      have hlength : (sent ++ [w.request sign body phase]).length = n + 1 := by simp [hsent]
      have hbudget : (n : Int) + (k + 1 : Nat) - 1 = (n + 1 : Nat) + k - 1 := by omega
      rw [List.range'_succ, List.find?_cons, hbudget]
      cases hfinal : (answers n).final with
      | true => simp
      | false =>
          -- one request is sent, and the rest of the budget is left
          have hnot : ¬(false = true) := Bool.false_ne_true
          rw [if_neg hnot, ih (n + 1) (classify (answers n)) hlength]
          cases hfind : (List.range' (n + 1) k).find? (fun i => (answers i).final) with
          | some i =>
              have hmem := List.mem_range'_1.mp (List.mem_of_find?_eq_some hfind)
              have hcount : i + 1 - n = (i + 1 - (n + 1)) + 1 := by omega
              simp [hcount, List.replicate_succ]
          | none =>
              have hlast :
                  (if k = 0 then classify (answers n) else classify (answers (n + 1 + k - 1)))
                    = classify (answers (n + (k + 1) - 1)) := by
                split
                case isTrue hk => rw [hk]; rfl
                case isFalse hk => congr 2; omega
              have htotal : ((n + 1 : Nat) : Int) + k = n + (k + 1 : Nat) := by omega
              simp only [hlast, htotal, List.replicate_succ, List.append_assoc, List.cons_append,
                List.nil_append, Nat.add_one_ne_zero, if_false]

/-- The number of the first attempt with a final outcome, of `r + 1` at most; `r + 1` if there is
none. -/
def settledAt (r : Nat) : Nat :=
  match (List.range (r + 1)).find? (fun i => (answers i).final) with
  | some i => i + 1
  | none => r + 1

theorem settledAt_pos (r : Nat) : 1 ≤ settledAt answers r := by
  unfold settledAt
  split <;> omega

theorem settledAt_le (r : Nat) : settledAt answers r ≤ r + 1 := by
  unfold settledAt
  split
  case h_1 i hfind =>
    have hmem := List.mem_range.mp (List.mem_of_find?_eq_some hfind)
    omega
  case h_2 => exact Nat.le_refl _

/-- No outcome before is final. -/
theorem not_final_of_lt_settledAt {r i : Nat} (h : i + 1 < settledAt answers r) :
    (answers i).final = false := by
  unfold settledAt at h
  split at h
  case h_1 j hfind =>
    have hbefore := (List.find?_range_eq_some.mp hfind).2.2 i (by omega)
    simpa using hbefore
  case h_2 hfind =>
    have hnone := List.find?_eq_none.mp hfind i (List.mem_range.mpr (by omega))
    simpa using hnone

/-- If the outcome there is not final, the budget is used up. -/
theorem settledAt_of_not_final {r : Nat} (h : (answers (settledAt answers r - 1)).final = false) :
    settledAt answers r = r + 1 := by
  unfold settledAt at h ⊢
  split
  case h_1 i hfind =>
    rw [hfind] at h
    have hfinal := List.find?_some hfind
    simp only [Nat.add_sub_cancel] at h
    rw [h] at hfinal
    cases hfinal
  case h_2 => rfl

/-- A single attempt settles the call if its outcome is final, and only then if there may be
more. -/
theorem settledAt_le_one_iff {r : Nat} (hr : 0 < r) :
    settledAt answers r ≤ 1 ↔ (answers 0).final = true := by
  constructor
  · intro hle
    by_contra hnot
    have hpos := settledAt_pos answers r
    have hk : settledAt answers r = 1 := by omega
    have hall := settledAt_of_not_final answers (r := r) (by rw [hk]; simpa using hnot)
    omega
  · intro hfinal
    by_contra hlt
    have hnot := not_final_of_lt_settledAt answers (r := r) (i := 0) (by omega)
    rw [hfinal] at hnot
    cases hnot

/-- Of an event that can be encoded the call runs the loop. -/
theorem delivery_encoded {ev : Event} {body : ByteArray} (hbody : marshal ev = .ok body) :
    delivery marshal sign answers w ev
      = w.attempts (scripted marshal sign answers) body ev.phase w.retries
          (if w.backoff = 0 then 500 * millisecond else w.backoff) 0 none [] := by
  have hnet : (scripted marshal sign answers).marshal ev = .ok body := hbody
  unfold delivery Webhook.notify
  rw [hnet]

/-- **A call posts up to the attempt that settles it**, and returns what that one comes to. -/
theorem delivery_eq {ev : Event} {body : ByteArray} (hbody : marshal ev = .ok body) {r : Nat}
    (hr : w.retries = r) :
    delivery marshal sign answers w ev
      = (if (answers (settledAt answers r - 1)).final then
            classify (answers (settledAt answers r - 1))
          else some (.after (r + 1) (classify (answers r))),
        List.replicate (settledAt answers r) (w.request sign body ev.phase)) := by
  have hbudget : w.retries = (0 : Nat) + (r + 1 : Nat) - 1 := by omega
  have hrun := attempts_run marshal sign answers w body ev.phase
    (if w.backoff = 0 then 500 * millisecond else w.backoff) 0 (r + 1) none
    (show ([] : List Request).length = 0 from rfl)
  rw [delivery_encoded marshal sign answers w hbody, hbudget]
  refine hrun.trans ?_
  unfold settledAt
  rw [List.range_eq_range']
  split
  case h_1 i hfind =>
    have hfinal := List.find?_some hfind
    simp [hfinal]
  case h_2 hfind =>
    have hr' := List.find?_eq_none.mp hfind r (by simp)
    simp [hr']

/-- A negative budget: the loop is not entered. -/
theorem delivery_of_neg {ev : Event} {body : ByteArray} (hbody : marshal ev = .ok body)
    (hr : w.retries < 0) :
    delivery marshal sign answers w ev = (some (.after (w.retries + 1) none), []) := by
  have hover : ¬((0 : Int) ≤ w.retries) := by omega
  rw [delivery_encoded marshal sign answers w hbody, Webhook.attempts, if_neg hover]
  rfl

/-- An event that cannot be encoded is not posted. -/
theorem delivery_of_encode {ev : Event} {err : String} (hbody : marshal ev = .error err) :
    delivery marshal sign answers w ev = (some (.encode err), []) := by
  have hnet : (scripted marshal sign answers).marshal ev = .error err := hbody
  unfold delivery Webhook.notify
  rw [hnet]
  rfl

/-! ## The results -/

/-- **`Notify` stops at the right attempt and classifies the outcome exactly.** With `k` the attempt
that settles the call it makes `k` posts, and what it returns is settled by the outcome of the
`k`-th; at most one post is accepted, and it is the last one. -/
theorem notify_settles {ev : Event} {body : ByteArray} (hbody : marshal ev = .ok body) {r : Nat}
    (hr : w.retries = r) :
    let k := settledAt answers r
    let run := delivery marshal sign answers w ev
    run.2 = List.replicate k (w.request sign body ev.phase)
      ∧ (run.1 = none ↔ (answers (k - 1)).accepted)
      ∧ (∀ s, (∃ b, run.1 = some (.permanent ⟨s, b⟩)) ↔ (answers (k - 1)).rejected = some s)
      ∧ ((answers (k - 1)).final = false →
          k = r + 1 ∧ ∃ e, classify (answers r) = some e ∧ run.1 = some (.after (r + 1) (some e)))
      ∧ ∀ i < k, (answers i).accepted → i + 1 = k := by
  intro k run
  have hrun : run = _ := delivery_eq marshal sign answers w hbody hr
  rw [hrun]
  have hlast : ∀ i < k, (answers i).accepted → i + 1 = k := by
    intro i hi hacc
    by_contra hne
    have hfinal : (answers i).final = false :=
      not_final_of_lt_settledAt answers (Nat.lt_of_le_of_ne hi hne)
    simp [Answer.final, hacc] at hfinal
  cases hfinal : (answers (k - 1)).final with
  | false =>
      -- the budget is used up
      have hk : k = r + 1 := settledAt_of_not_final answers hfinal
      have hlastFinal : (answers r).final = false := by
        rwa [hk, Nat.add_sub_cancel] at hfinal
      obtain ⟨e, he, -⟩ := classify_of_not_final hlastFinal
      obtain ⟨hacc, hrej⟩ := Bool.or_eq_false_iff.mp hfinal
      simp only [Bool.false_eq_true, if_false]
      refine ⟨rfl, ?_, ?_, fun _ => ⟨hk, e, he, by rw [he]⟩, hlast⟩
      · rw [hacc]
        simp
      · intro s
        constructor
        · rintro ⟨b, hb⟩
          cases hb
        · intro hs
          rw [hs] at hrej
          cases hrej
  | true =>
      simp only [if_true]
      refine ⟨rfl, classify_eq_none, fun s => classify_eq_permanent, ?_, hlast⟩
      intro h
      cases h

end Run

/-- A completion event, and its JSON. -/
def failedBuild : Event where
  name := "build-x"
  ns := "ci"
  uid := "uid-1"
  phase := "Failed"
  message := ""
  startedAt := none
  finishedAt := none
  durationSeconds := 0
  labels := []

def failedBuildJSON : ByteArray :=
  ("\x7b\"name\":\"build-x\",\"namespace\":\"ci\",\"uid\":\"uid-1\",\"phase\":\"Failed\","
    ++ "\"durationSeconds\":0\x7d").toUTF8

/-- Two attempts are answered 502, the ones after them 200. -/
def upAtThird (n : Nat) : Answer := if n < 2 then .ok ⟨502, .empty⟩ else .ok ⟨200, .empty⟩

/-- With three retries the third attempt is accepted, and there is no fourth. -/
theorem notify_settles_upAtThird :
    let w : Webhook := ⟨"http://hook", .empty, none, 3, millisecond⟩
    let run := delivery (fun _ => .ok failedBuildJSON) (fun _ _ => "") upAtThird w failedBuild
    run.1 = none ∧ run.2.length = 3 := by
  intro w run
  have hbody : (fun _ => Except.ok failedBuildJSON : Event → Except String ByteArray) failedBuild
      = .ok failedBuildJSON := rfl
  have hk : settledAt upAtThird 3 = 3 := by decide
  obtain ⟨hposts, hnone, -⟩ := notify_settles (fun _ => .ok failedBuildJSON) (fun _ _ => "")
    upAtThird w hbody (r := 3) rfl
  rw [hk] at hposts hnone
  exact ⟨hnone.mpr (by decide), by rw [hposts, List.length_replicate]⟩

section Flag

variable (marshal : Event → Except String ByteArray) (sign : ByteArray → ByteArray → String)
  (answers : Nat → Answer)

/-- The webhook that `main` builds for a value of `--webhook-retries`. -/
def mainWebhook (webhookURL : String) (secret : ByteArray) (webhookTimeout : Duration)
    (webhookRetries : Int) : Webhook where
  url := webhookURL
  secret := secret
  client := some ⟨webhookTimeout⟩
  maxRetries := webhookRetries
  backoff := 0

theorem retries_mainWebhook (webhookURL : String) (secret : ByteArray) (webhookTimeout : Duration)
    {n : Int} (h : n ≠ 0) : (mainWebhook webhookURL secret webhookTimeout n).retries = n :=
  if_neg h

/-- What the flag promises: a first attempt, and up to `n` retries after it. -/
def RetriesHonoured (n : Int) (run : Option NotifyError × List Request) : Prop :=
  1 ≤ run.2.length ∧ (run.2.length : Int) ≤ 1 + max n 0

/-- **When the flag is honoured.** Zero is taken for "not set", and below zero the loop is not
entered. -/
theorem retriesHonoured_iff (webhookURL : String) (secret : ByteArray) (webhookTimeout : Duration)
    (n : Int) (ev : Event) :
    RetriesHonoured n
        (delivery marshal sign answers (mainWebhook webhookURL secret webhookTimeout n) ev)
      ↔ (∃ body, marshal ev = .ok body) ∧ (0 < n ∨ n = 0 ∧ (answers 0).final) := by
  unfold RetriesHonoured
  cases hbody : marshal ev with
  | error err =>
      rw [delivery_of_encode marshal sign answers _ hbody]
      simp
  | ok body =>
      rcases Int.lt_trichotomy n 0 with hn | rfl | hn
      · have hr : (mainWebhook webhookURL secret webhookTimeout n).retries < 0 := by
          rw [retries_mainWebhook webhookURL secret webhookTimeout (by omega)]
          exact hn
        rw [delivery_of_neg marshal sign answers _ hbody hr]
        have hout : ¬(0 < n ∨ n = 0 ∧ (answers 0).final = true) := by omega
        simp [hout]
      · -- zero stands for two retries
        have hr : (mainWebhook webhookURL secret webhookTimeout 0).retries = (2 : Nat) := rfl
        have hpos := settledAt_pos answers 2
        have hone := settledAt_le_one_iff answers (show 0 < 2 by omega)
        rw [delivery_eq marshal sign answers _ hbody hr, List.length_replicate, ← hone]
        simp
        omega
      · have hr : (mainWebhook webhookURL secret webhookTimeout n).retries = n.toNat := by
          rw [retries_mainWebhook webhookURL secret webhookTimeout (by omega)]
          omega
        have hpos := settledAt_pos answers n.toNat
        have hle := settledAt_le answers n.toNat
        rw [delivery_eq marshal sign answers _ hbody hr, List.length_replicate]
        simp [hn]
        omega

end Flag

/-- With `--webhook-retries=-1` nothing is posted, and the call reports a failure "after 0
attempt(s)" of a delivery that would have been accepted. -/
theorem not_retriesHonoured :
    let run := delivery (fun _ => .ok failedBuildJSON) (fun _ _ => "")
      (fun _ => .ok ⟨200, .empty⟩) (mainWebhook "http://hook" .empty (10 * second) (-1)) failedBuild
    run = (some (.after 0 none), []) ∧ ¬ RetriesHonoured (-1) run := by
  intro run
  have hrun : run = (some (.after 0 none), []) :=
    delivery_of_neg _ _ _ _ (show Except.ok failedBuildJSON = Except.ok failedBuildJSON from rfl)
      (by decide)
  refine ⟨hrun, ?_⟩
  rw [hrun]
  rintro ⟨h, -⟩
  exact absurd h (by decide)

end MigrationPlatform.Controller
