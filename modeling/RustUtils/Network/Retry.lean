import RustUtils.Error
import RustUtils.RetrySchedule
import RustUtils.Runtime.Parse

/-!
# `RetryingClient::execute`

The HTTP retry loop on a world, over any inner executor. `RetryingClient.calls_eq` says that
the calls of a scripted run are those of a schedule, whose delays come from the server's
`Retry-After` header where there is one and from the backoff otherwise.
-/

namespace RustUtils

/-! ### Requests and responses -/

/-- `reqwest::Method`. -/
inductive Method where
  | get
  | head
  | put
  | delete
  | options
  | trace
  | post
  | patch
  | connect
  | extension (name : String)
  deriving DecidableEq

/-- `reqwest::StatusCode`. -/
abbrev StatusCode := {code : ℕ // 100 ≤ code ∧ code < 1000}

/-- `StatusCode::TOO_MANY_REQUESTS`. -/
def StatusCode.tooManyRequests : StatusCode := ⟨429, by decide, by decide⟩

/-- `StatusCode::SERVICE_UNAVAILABLE`. -/
def StatusCode.serviceUnavailable : StatusCode := ⟨503, by decide, by decide⟩

/-- The bytes of a header value. -/
abbrev HeaderValue := List UInt8

/-- `HeaderValue::to_str`: the value as a string, if it is visible ASCII. -/
def HeaderValue.toStr (value : HeaderValue) : Option (List Char) :=
  if value.all fun b => (32 ≤ b && b < 127) || b = 9 then
    some (value.map fun b => Char.ofNat b.toNat)
  else none

/-- The body of a request. -/
inductive Body where
  | empty
  | bytes (data : List UInt8)
  | stream
  deriving DecidableEq

/-- `reqwest::Request`. -/
structure Request where
  method : Method
  body : Body
  deriving DecidableEq

/-- `Request::try_clone`: a streaming body cannot be cloned. -/
def Request.tryClone (req : Request) : Option Request :=
  if req.body = .stream then none else some req

/-- `reqwest::Response`, as far as the retry layer reads it. -/
structure Response where
  status : StatusCode
  /-- The first `Retry-After` header. -/
  retryAfter : Option HeaderValue
  deriving DecidableEq

/-- `is_idempotent`. -/
def isIdempotent : Method → Bool
  | .get | .head | .put | .delete | .options | .trace => true
  | _ => false

/-- `parse_retry_after`: an integer number of seconds. -/
def parseRetryAfter (resp : Response) : Option Duration := do
  let raw ← (← resp.retryAfter).toStr
  let secs ← parseUnsigned 64 (trim raw)
  some (Duration.fromSecs secs)

/-! ### The retry loop -/

/-- `RetryPolicy`. -/
structure RetryPolicy where
  maxAttempts : NonZeroU32
  retryStatuses : List StatusCode
  retryNetworkErrors : Bool
  retryNonIdempotent : Bool
  baseBackoff : Duration
  maxBackoff : Duration
  jitter : Bool

/-- `RetryPolicy::default`. -/
def RetryPolicy.default : RetryPolicy where
  maxAttempts := .three
  retryStatuses := [.tooManyRequests, .serviceUnavailable]
  retryNetworkErrors := true
  retryNonIdempotent := false
  baseBackoff := Duration.fromNanos 200000000
  maxBackoff := Duration.fromSecs 30
  jitter := true

/-- `HttpExecutor`. -/
abbrev HttpExecutor (σ : Type) := Request → Async σ (UtilsResult Response)

/-- `RetryingClient`. -/
structure RetryingClient (σ : Type) where
  inner : HttpExecutor σ
  policy : RetryPolicy
  cancel : Option CancellationToken

/-- `RetryingClient::should_retry`. -/
def RetryPolicy.shouldRetry (policy : RetryPolicy) (result : UtilsResult Response)
    (method : Method) : Bool :=
  if !policy.retryNonIdempotent && !isIdempotent method then false
  else match result with
    | .ok resp => policy.retryStatuses.contains resp.status
    | .error report => policy.retryNetworkErrors && report.currentContext = .network

/-- `RetryingClient::compute_delay`: a server-sent delay, capped, or else the backoff. -/
def RetryPolicy.computeDelay (policy : RetryPolicy) (attempt : ℕ)
    (result : UtilsResult Response) (wall : ℤ) : Duration :=
  match result with
  | .ok resp =>
    match parseRetryAfter resp with
    | some serverDelay => min serverDelay policy.maxBackoff
    | none =>
      RustUtils.computeDelay policy.baseBackoff policy.maxBackoff attempt policy.jitter wall
  | .error _ =>
    RustUtils.computeDelay policy.baseBackoff policy.maxBackoff attempt policy.jitter wall

/-- The delay after an attempt is zero: a zero cap; a `Retry-After` of zero seconds; or without
one a zero base or a jitter draw of zero. -/
def RetryPolicy.NoWait (policy : RetryPolicy) (attempt : ℕ) (result : UtilsResult Response)
    (wall : ℤ) : Prop :=
  policy.maxBackoff.toNanos = 0 ∨
    match result.toOption.bind parseRetryAfter with
    | some serverDelay => serverDelay.toNanos = 0
    | none => policy.baseBackoff.toNanos = 0 ∨ policy.jitter = true ∧ jitterSource wall %
        cappedNanos (cappedDelay policy.baseBackoff policy.maxBackoff attempt) = 0

theorem RetryPolicy.isZero_computeDelay_iff {policy : RetryPolicy} {attempt : ℕ}
    {result : UtilsResult Response} {wall : ℤ} :
    (policy.computeDelay attempt result wall).isZero = true ↔
      policy.NoWait attempt result wall := by
  have hbackoff : (RustUtils.computeDelay policy.baseBackoff policy.maxBackoff attempt
      policy.jitter wall).isZero = true ↔ policy.maxBackoff.toNanos = 0 ∨
        (policy.baseBackoff.toNanos = 0 ∨ policy.jitter = true ∧ jitterSource wall %
          cappedNanos (cappedDelay policy.baseBackoff policy.maxBackoff attempt) = 0) := by
    rw [RustUtils.isZero_computeDelay_iff, or_left_comm]
  rw [NoWait]
  cases result with
  | error report => exact hbackoff
  | ok resp =>
    have hbind : (Except.ok resp : UtilsResult Response).toOption.bind parseRetryAfter =
        parseRetryAfter resp := rfl
    rw [hbind, computeDelay]
    cases parseRetryAfter resp with
    | none => exact hbackoff
    | some serverDelay =>
      simp only [Duration.isZero_iff, Duration.toNanos_min]
      omega

namespace RetryingClient

variable {σ : Type} (c : RetryingClient σ)

/-- `RetryingClient::sleep_interruptible`. -/
def sleepInterruptible (delay : Duration) : Async σ Bool := sleepOrCancel c.cancel delay

/-- The loop of `execute` at `attempt`, with `n` further attempts to go. -/
def retries (template : Option Request) (method : Method) :
    ℕ → ℕ → UtilsResult Response → Async σ (UtilsResult Response)
  | 0, _, last => pure last
  | n + 1, attempt, last =>
    if !c.policy.shouldRetry last method then pure last
    else match template.bind Request.tryClone with
      | none => pure last
      | some retryReq => do
        let delay ← fun w => (c.policy.computeDelay attempt last w.wall, w)
        if !(← c.sleepInterruptible delay) then pure last
        else
          let last ← c.inner retryReq
          retries template method n (attempt + 1) last

/-- `RetryingClient::execute`. -/
def execute (req : Request) : Async σ (UtilsResult Response) := do
  let template := req.tryClone
  let last ← c.inner req
  c.retries template req.method (c.policy.maxAttempts.val - 1) 1 last

/-- `execute` between a result and the next call. -/
theorem retries_succ {template : Option Request} {req : Request} {method : Method} {n k : ℕ}
    {last : UtilsResult Response} {w : World σ} (hretry : c.policy.shouldRetry last method = true)
    (hclone : template.bind Request.tryClone = some req) :
    c.retries template method (n + 1) k last w =
      let s := c.sleepInterruptible (c.policy.computeDelay k last w.wall) w
      if s.1 then
        let r := c.inner req s.2
        c.retries template method n (k + 1) r.1 r.2
      else (last, s.2) := by
  simp only [retries, hretry, hclone, Async.bind_apply, Bool.not_true, Bool.false_eq_true,
    if_false]
  generalize c.sleepInterruptible _ w = s
  obtain ⟨awake, w'⟩ := s
  cases awake <;> rfl

/-- A result that is not to be retried, or cannot be, ends the loop. -/
theorem retries_of_stop {template : Option Request} {method : Method} {last : UtilsResult Response}
    (h : c.policy.shouldRetry last method = false ∨ template.bind Request.tryClone = none)
    (n k : ℕ) (w : World σ) : c.retries template method n k last w = (last, w) := by
  cases n with
  | zero => rfl
  | succ n =>
    rw [retries]
    rcases h with h | h
    · simp [h]
    · rw [h]
      split <;> rfl

end RetryingClient

/-! ### Scripted runs -/

/-- One exchange of a script. -/
structure Exchange where
  /-- How long the call takes. -/
  elapsed : ℕ
  /-- What the wall clock reads afterwards. -/
  wall : ℤ
  result : UtilsResult Response

/-- The exchanges by the number of the call. -/
abbrev HttpScript := ℕ → Exchange

namespace HttpScript

variable (script : HttpScript)

/-- The world after call `k` of a script, with the call in the log. -/
def after (k : ℕ) (w : World (List Call)) : World (List Call) where
  now := w.now + (script k).elapsed
  wall := (script k).wall
  user := w.user ++ [⟨k, w.now + (script k).elapsed⟩]

/-- The executor that plays a script. -/
def inner : HttpExecutor (List Call) := fun _ w =>
  ((script (w.user.length + 1)).result, script.after (w.user.length + 1) w)

/-- The calls of a scripted run of `execute`. -/
def calls (policy : RetryPolicy) (token : CancellationToken) (req : Request) (now : ℕ)
    (wall : ℤ) : List Call :=
  ((RetryingClient.execute ⟨script.inner, policy, some token⟩ req) ⟨now, wall, []⟩).2.user

/-- The schedule of a script. -/
def schedule (policy : RetryPolicy) (req : Request) : Schedule where
  elapsed k := (script k).elapsed
  again k := policy.shouldRetry (script k).result req.method && req.tryClone.isSome
  delay k := policy.computeDelay k (script k).result (script k).wall

variable {script}

/-- Cloning a clone is cloning. -/
theorem tryClone_bind (req : Request) : req.tryClone.bind Request.tryClone = req.tryClone := by
  unfold Request.tryClone
  split_ifs with h
  · rfl
  · simp [h]

/-- The loop makes the calls of the schedule. -/
private theorem calls_retries {policy : RetryPolicy} {token : CancellationToken} {req : Request}
    (n k : ℕ) (w : World (List Call)) (hk : w.user.length + 1 = k) :
    (RetryingClient.retries ⟨script.inner, policy, some token⟩ req.tryClone req.method n k
        (script k).result (script.after k w)).2.user =
      w.user ++ (script.schedule policy req).calls token n k w.now := by
  induction n generalizing k w with
  | zero => rfl
  | succ n ih =>
    cases hagain : (script.schedule policy req).again k with
    | false =>
      have hstop : policy.shouldRetry (script k).result req.method = false ∨
          req.tryClone.bind Request.tryClone = none := by
        rw [tryClone_bind]
        refine (Bool.and_eq_false_iff.mp hagain).imp id fun hnone => ?_
        exact Option.isSome_eq_false_iff.mp hnone |> Option.isNone_iff_eq_none.mp
      rw [RetryingClient.retries_of_stop _ hstop, Schedule.calls_of_not_again hagain]
      rfl
    | true =>
      obtain ⟨hretry, hsome⟩ : policy.shouldRetry (script k).result req.method = true ∧
          req.tryClone.isSome = true := by
        simpa [schedule] using hagain
      obtain ⟨req', hclone⟩ := Option.isSome_iff_exists.mp hsome
      rw [RetryingClient.retries_succ _ hretry ((tryClone_bind req).trans hclone),
        Schedule.calls_of_again hagain]
      -- the loop and the schedule sleep alike
      have hfinished : w.now + (script.schedule policy req).elapsed k = (script.after k w).now :=
        rfl
      have hsleep : RetryingClient.sleepInterruptible ⟨script.inner, policy, some token⟩
          (policy.computeDelay k (script k).result (script.after k w).wall) (script.after k w) =
          let sleep := (Sleep.start (some token) ((script.schedule policy req).delay k)
            (script.after k w).now).await (script.after k w).now
          (sleep.1, { script.after k w with now := sleep.2 }) := rfl
      have huser : (script.after k w).user = w.user ++ [⟨k, (script.after k w).now⟩] := rfl
      simp only [hsleep, hfinished]
      generalize (Sleep.start (some token) ((script.schedule policy req).delay k)
        (script.after k w).now).await (script.after k w).now = sleep
      cases sleep.1 with
      | false => exact huser
      | true =>
        have hlength : (script.after k w).user.length + 1 = k + 1 := by
          rw [huser, List.length_append, List.length_singleton, hk]
        have hinner : script.inner req' { script.after k w with now := sleep.2 } =
            ((script (k + 1)).result,
              script.after (k + 1) { script.after k w with now := sleep.2 }) := by
          rw [inner, hlength]
        simp only [if_true, hinner]
        rw [ih (k + 1) { script.after k w with now := sleep.2 } hlength, huser,
          List.append_assoc, List.singleton_append]

/-- **A scripted run makes the calls of its schedule.** -/
theorem calls_eq (policy : RetryPolicy) (token : CancellationToken) (req : Request) (now : ℕ)
    (wall : ℤ) : script.calls policy token req now wall =
      (script.schedule policy req).calls token (policy.maxAttempts.val - 1) 1 now :=
  (calls_retries (policy.maxAttempts.val - 1) 1 ⟨now, wall, []⟩ rfl).trans (List.nil_append _)

end HttpScript

end RustUtils
