import Mathlib
import MigrationPlatform.Controller.Reconcile

/-!
# Delivery to the webhook

`internal/notify/notify.go`: `Webhook.Notify` posts an event until an attempt
settles it. It is written over any monad in which the HTTP client answers and
the backoff passes; `delivery` runs it against a fixed sequence of answers, one
for each attempt, with a context that is never cancelled.

The budget and the attempt counter are unbounded here. `rounds` is the loop with
numbers of 64 bits, and `rounds_eq` says that the two agree for every budget that
an `int` can hold but the largest, where the counter wraps and the source never
gives up.
-/

namespace MigrationPlatform.Controller

/-- A `time.Duration` in nanoseconds; its arithmetic wraps. -/
abbrev Duration := BitVec 64

def millisecond : Duration := 1000000
def second : Duration := 1000 * millisecond

/-- An `http.Client`, as far as this package builds one. -/
structure Client where
  timeout : Duration
  deriving DecidableEq

/-- Posts events as JSON to a URL, optionally signing them with an HMAC-SHA256 secret. -/
structure Webhook where
  url : String
  secret : ByteArray
  client : Option Client
  /-- Attempts beyond the first; default 2. -/
  maxRetries : Int
  /-- Base backoff between attempts; default 500ms. -/
  backoff : Duration

/-- The request that an attempt sends. -/
structure Request where
  url : String
  body : ByteArray
  contentType : String
  userAgent : String
  workflowPhase : String
  signature256 : Option String
  deriving DecidableEq

/-- What is read of a response. -/
structure Response where
  statusCode : Int
  body : ByteArray

/-- What an attempt comes to: a response, or the error of building or sending the request. -/
abbrev Answer := Except String Response

/-- A delivery failure that will not succeed on retry (4xx). -/
structure PermanentError where
  status : Int
  body : ByteArray
  deriving DecidableEq

/-- The errors of this package. -/
inductive NotifyError where
  /-- From building or sending the request. -/
  | transport (err : String)
  | status (code : Int)
  | permanent (perm : PermanentError)
  | encode (err : String)
  /-- `ctx.Err()`. -/
  | context (err : String)
  | after (attempts : Int) (last : Option NotifyError)

def PermanentError.error (e : PermanentError) : ByteArray :=
  s!"webhook rejected event: status {e.status}: ".toUTF8 ++ e.body

/-- `Error()`; `%w` prints a nil error as `%!w(<nil>)`. -/
def NotifyError.error : NotifyError → ByteArray
  | .transport err => err.toUTF8
  | .status code => s!"webhook returned status {code}".toUTF8
  | .permanent perm => perm.error
  | .encode err => s!"encode event: {err}".toUTF8
  | .context err => err.toUTF8
  | .after attempts none => s!"after {attempts} attempt(s): %!w(<nil>)".toUTF8
  | .after attempts (some last) => s!"after {attempts} attempt(s): ".toUTF8 ++ last.error

/-- `errors.As(err, &perm)`. -/
def NotifyError.asPermanent : NotifyError → Option PermanentError
  | .permanent perm => some perm
  | .after _ (some last) => last.asPermanent
  | _ => none

/-- What the package calls: the JSON encoder, the signature, the HTTP client and the clock. -/
structure Net (m : Type → Type) where
  marshal : Event → Except String ByteArray
  sign : ByteArray → ByteArray → String
  /-- `http.NewRequestWithContext` and `client.Do`, whose errors are returned alike. -/
  send : Client → Request → m Answer
  /-- The `select` between attempts: `ctx.Err()` if the context is done before the time is up. -/
  wait : Duration → m (Option String)

/-- What `post` makes of an answer. Of a body it reads no more than 4096 bytes. -/
def classify : Answer → Option NotifyError
  | .error err => some (.transport err)
  | .ok resp =>
    if resp.statusCode ≥ 200 ∧ resp.statusCode < 300 then none
    else if resp.statusCode ≥ 400 ∧ resp.statusCode < 500 ∧ resp.statusCode ≠ 429 then
      some (.permanent ⟨resp.statusCode, resp.body.extract 0 4096⟩)
    else some (.status resp.statusCode)

/-- The request for an encoded event. -/
def Webhook.request (w : Webhook) (sign : ByteArray → ByteArray → String) (body : ByteArray)
    (phase : String) : Request where
  url := w.url
  body := body
  contentType := "application/json"
  userAgent := "argo-workflow-notifier"
  workflowPhase := phase
  signature256 := if w.secret.size > 0 then some ("sha256=" ++ sign w.secret body) else none

section Code

variable {m : Type → Type} [Monad m]

/-- One attempt. -/
def Webhook.post (w : Webhook) (net : Net m) (body : ByteArray) (phase : String) :
    m (Option NotifyError) := do
  let client := w.client.getD ⟨10 * second⟩
  return classify (← net.send client (w.request net.sign body phase))

/-- The loop over `attempt`, with the error of the attempt before. -/
def Webhook.attempts (w : Webhook) (net : Net m) (body : ByteArray) (phase : String)
    (retries : Int) (backoff : Duration) (attempt : Int) (last : Option NotifyError) :
    m (Option NotifyError) :=
  if attempt ≤ retries then do
    if attempt > 0 then
      if let some err ← net.wait (backoff * (1#64 <<< (attempt - 1).toNat)) then
        return some (.context err)
    match ← w.post net body phase with
    | none => return none
    | some err =>
      if err.asPermanent.isSome then return some err
      else w.attempts net body phase retries backoff (attempt + 1) (some err)
  else return some (.after (retries + 1) last)
termination_by (retries + 1 - attempt).toNat

/-- The budget of retries: zero stands for the default. -/
def Webhook.retries (w : Webhook) : Int := if w.maxRetries = 0 then 2 else w.maxRetries

/-- Posts the event, retrying on network errors and 5xx responses; the error, if it fails. -/
def Webhook.notify (w : Webhook) (net : Net m) (ev : Event) : m (Option NotifyError) :=
  match net.marshal ev with
  | .error err => return some (.encode err)
  | .ok body =>
    let backoff := if w.backoff = 0 then 500 * millisecond else w.backoff
    w.attempts net body ev.phase w.retries backoff 0 none

/-- An `int` of 64 bits, which wraps. -/
def wrapInt (n : Int) : Int := n.bmod (2 ^ 64)

/-- The loop with a counter that wraps, for as many rounds as are given. -/
def Webhook.rounds (w : Webhook) (net : Net m) (body : ByteArray) (phase : String)
    (retries : Int) (backoff : Duration) :
    Nat → Int → Option NotifyError → m (Option (Option NotifyError))
  | 0, _, _ => return none
  | n + 1, attempt, last =>
    if attempt ≤ retries then do
      if attempt > 0 then
        if let some err ← net.wait (backoff * (1#64 <<< (wrapInt (attempt - 1)).toNat)) then
          return some (some (.context err))
      match ← w.post net body phase with
      | none => return some none
      | some err =>
        if err.asPermanent.isSome then return some (some err)
        else w.rounds net body phase retries backoff n (wrapInt (attempt + 1)) (some err)
    else return some (some (.after (wrapInt (retries + 1)) last))

theorem wrapInt_eq {n : Int} (hlow : -2 ^ 63 ≤ n) (hhigh : n < 2 ^ 63) : wrapInt n = n := by
  unfold wrapInt
  exact Int.bmod_eq_of_le (by omega) (by omega)

/-- The counter does not wrap unless the budget is the largest number there is. -/
theorem Webhook.rounds_eq [LawfulMonad m] (w : Webhook) (net : Net m) (body : ByteArray)
    (phase : String) {retries : Int} (backoff : Duration) (hlow : -2 ^ 63 ≤ retries)
    (hhigh : retries < 2 ^ 63 - 1) {n : Nat} {attempt : Int} (hattempt : 0 ≤ attempt)
    (hn : (retries + 1 - attempt).toNat < n) (last : Option NotifyError) :
    w.rounds net body phase retries backoff n attempt last
      = some <$> w.attempts net body phase retries backoff attempt last := by
  induction n generalizing attempt last with
  | zero => omega
  | succ n ih =>
      rw [Webhook.rounds, Webhook.attempts]
      by_cases hle : attempt ≤ retries
      · have hpost : (w.post net body phase >>= fun
              | none => pure (some none)
              | some err =>
                if err.asPermanent.isSome then pure (some (some err))
                else w.rounds net body phase retries backoff n (wrapInt (attempt + 1)) (some err))
            = some <$> (w.post net body phase >>= fun
              | none => pure none
              | some err =>
                if err.asPermanent.isSome then pure (some err)
                else w.attempts net body phase retries backoff (attempt + 1) (some err)) := by
          rw [map_bind]
          refine bind_congr fun answer => ?_
          cases answer with
          | none => exact (map_pure _ _).symm
          | some err =>
              have hnext := @ih (attempt + 1) (by omega) (by omega) (some err)
              show ite _ _ (w.rounds net body phase retries backoff n (wrapInt (attempt + 1))
                (some err)) = some <$> ite _ _ _
              rw [wrapInt_eq (by omega) (by omega), hnext, apply_ite (some <$> ·), map_pure]
        rw [if_pos hle, if_pos hle]
        by_cases hpos : attempt > 0
        · rw [if_pos hpos, if_pos hpos, wrapInt_eq (by omega) (by omega), map_bind]
          refine bind_congr fun done => ?_
          cases done with
          | none => exact hpost
          | some err => exact (map_pure _ _).symm
        · rw [if_neg hpos, if_neg hpos]
          exact hpost
      · rw [if_neg hle, if_neg hle, wrapInt_eq (by omega) (by omega), map_pure]

end Code

end MigrationPlatform.Controller
