import RustUtils.Error
import RustUtils.RetrySchedule

/-!
# `Retry::run_if`

The generic retry combinator on a world. `op` and the predicate are stateful closures, so both
are functions into `Async`. `Retry.Script` scripts them attempt by attempt, and
`calls_eq` says that the calls of a scripted run are those of a schedule.
-/

namespace RustUtils

/-- `Retry`. -/
structure Retry where
  maxAttempts : NonZeroU32
  baseBackoff : Duration
  maxBackoff : Duration
  jitter : Bool
  cancel : Option CancellationToken
  name : Option String

namespace Retry

/-- `Retry::new`. -/
def new : Retry where
  maxAttempts := .three
  baseBackoff := Duration.fromNanos 200000000
  maxBackoff := Duration.fromSecs 30
  jitter := true
  cancel := none
  name := none

variable {σ α : Type} (r : Retry)

/-- The label of reports. -/
def label : String := r.name.getD "retry"

/-- `Retry::cancelled`. -/
def cancelled : Async σ Bool := fun w => (r.cancel.any (·.isCancelled w.now), w)

/-- The delay after an attempt, with the jitter drawn from the wall clock. -/
def delayAfter (attempt : ℕ) : Async σ Duration := fun w =>
  (computeDelay r.baseBackoff r.maxBackoff attempt r.jitter w.wall, w)

/-- The backoff after an attempt is zero: a zero base, a zero cap, or a jitter draw of zero. -/
def NoWait (attempt : ℕ) (wall : ℤ) : Prop :=
  r.baseBackoff.toNanos = 0 ∨ r.maxBackoff.toNanos = 0 ∨ r.jitter = true ∧
    jitterSource wall % cappedNanos (cappedDelay r.baseBackoff r.maxBackoff attempt) = 0

/-- The attempts of `run_if` from `attempt` on, with `n` further attempts to go. -/
def attempts (op : ℕ → Async σ (UtilsResult α)) (shouldRetry : UtilsReport → Async σ Bool) :
    ℕ → ℕ → Async σ (UtilsResult α)
  | 0, max => do
    match ← op max with
    | .ok value => pure (.ok value)
    | .error report =>
      if ← shouldRetry report then
        pure (.error ((report.changeContext .retryExhausted).attach
          s!"retry [{r.label}] exhausted budget after {max} attempts"))
      else pure (.error report)
  | n + 1, attempt => do
    match ← op attempt with
    | .ok value => pure (.ok value)
    | .error report =>
      if ← shouldRetry report then
        let delay ← r.delayAfter attempt
        if ← sleepOrCancel r.cancel delay then attempts op shouldRetry n (attempt + 1)
        else
          pure (.error ((report.changeContext .retryExhausted).attach
            s!"retry [{r.label}] cancelled during backoff after attempt {attempt}"))
      else pure (.error report)

/-- `Retry::run_if`. -/
def runIf (op : ℕ → Async σ (UtilsResult α)) (shouldRetry : UtilsReport → Async σ Bool) :
    Async σ (UtilsResult α) := do
  if ← r.cancelled then
    pure (.error ((UtilsReport.new .retryExhausted).attach
      s!"retry [{r.label}] cancelled before first attempt"))
  else r.attempts op shouldRetry (r.maxAttempts.val - 1) 1

/-- `Retry::run`. -/
def run (op : ℕ → Async σ (UtilsResult α)) : Async σ (UtilsResult α) :=
  r.runIf op fun _ => pure true

/-! ### One attempt -/

section

variable {op : ℕ → Async σ (UtilsResult α)} {shouldRetry : UtilsReport → Async σ Bool}

theorem attempts_of_ok {n k : ℕ} {w w' : World σ} {value : α}
    (hop : op k w = (.ok value, w')) :
    r.attempts op shouldRetry n k w = (.ok value, w') := by
  cases n <;> simp [attempts, hop]

theorem attempts_of_refuse {n k : ℕ} {w w' w'' : World σ} {report : UtilsReport}
    (hop : op k w = (.error report, w')) (hretry : shouldRetry report w' = (false, w'')) :
    r.attempts op shouldRetry n k w = (.error report, w'') := by
  cases n <;> simp [attempts, hop, hretry]

/-- A retryable error in the last attempt. -/
theorem attempts_zero_of_retry {k : ℕ} {w w' w'' : World σ} {report : UtilsReport}
    (hop : op k w = (.error report, w')) (hretry : shouldRetry report w' = (true, w'')) :
    r.attempts op shouldRetry 0 k w =
      (.error ((report.changeContext .retryExhausted).attach
        s!"retry [{r.label}] exhausted budget after {k} attempts"), w'') := by
  simp [attempts, hop, hretry]

/-- A retryable error before the last attempt: sleep, and go on unless the sleep is cut
short. -/
theorem attempts_succ_of_retry {n k : ℕ} {w w' w'' : World σ} {report : UtilsReport}
    (hop : op k w = (.error report, w')) (hretry : shouldRetry report w' = (true, w'')) :
    r.attempts op shouldRetry (n + 1) k w =
      let delay := computeDelay r.baseBackoff r.maxBackoff k r.jitter w''.wall
      let s := sleepOrCancel r.cancel delay w''
      if s.1 then r.attempts op shouldRetry n (k + 1) s.2
      else (.error ((report.changeContext .retryExhausted).attach
        s!"retry [{r.label}] cancelled during backoff after attempt {k}"), s.2) := by
  simp only [attempts, Async.bind_apply, hop, hretry, delayAfter, if_true]
  generalize sleepOrCancel r.cancel _ w'' = s
  obtain ⟨awake, w₃⟩ := s
  cases awake <;> rfl

end

/-! ### Scripted runs -/

/-- One attempt of a script. -/
structure Attempt (α : Type) where
  /-- How long `op` takes. -/
  elapsed : ℕ
  /-- What the wall clock reads afterwards. -/
  wall : ℤ
  result : UtilsResult α
  /-- The verdict of the predicate, if the result is an error. -/
  retry : Bool

/-- The attempt ends with a retryable error. -/
def Attempt.retryable (a : Attempt α) : Bool :=
  match a.result with
  | .ok _ => false
  | .error _ => a.retry

/-- The attempts by their number. -/
abbrev Script (α : Type) := ℕ → Attempt α

/-- The world after an attempt of a script, with the call in the log. -/
def Script.after (script : Script α) (attempt : ℕ) (w : World (List Call)) :
    World (List Call) where
  now := w.now + (script attempt).elapsed
  wall := (script attempt).wall
  user := w.user ++ [⟨attempt, w.now + (script attempt).elapsed⟩]

/-- The closure that plays a script. -/
def Script.op (script : Script α) (attempt : ℕ) : Async (List Call) (UtilsResult α) := fun w =>
  ((script attempt).result, script.after attempt w)

/-- The predicate that plays a script: its verdict is about the latest call. -/
def Script.shouldRetry (script : Script α) (_ : UtilsReport) : Async (List Call) Bool := fun w =>
  (w.user.getLast?.any fun c => (script c.attempt).retry, w)

/-- The calls of a scripted run. -/
def calls (script : Script α) (now : ℕ) (wall : ℤ) : List Call :=
  (r.runIf script.op script.shouldRetry ⟨now, wall, []⟩).2.user

/-- The schedule of a script. -/
def schedule (script : Script α) : Schedule where
  elapsed k := (script k).elapsed
  again k := (script k).retryable
  delay k := computeDelay r.baseBackoff r.maxBackoff k r.jitter (script k).wall

variable {r}

private theorem Script.shouldRetry_after (script : Script α) (report : UtilsReport) (k : ℕ)
    (w : World (List Call)) :
    script.shouldRetry report (script.after k w) = ((script k).retry, script.after k w) := by
  simp [shouldRetry, after]

private theorem Attempt.retryable_iff {a : Attempt α} :
    a.retryable = true ↔ ∃ report, a.result = .error report ∧ a.retry = true := by
  obtain ⟨elapsed, wall, result, retry⟩ := a
  cases result <;> simp [retryable]

/-- An attempt that is not retryable ends the loop. -/
private theorem attempts_of_not_retryable (script : Script α) {k : ℕ}
    (h : (script k).retryable = false) (n : ℕ) (w : World (List Call)) :
    (r.attempts script.op script.shouldRetry n k w).2 = script.after k w := by
  cases hresult : (script k).result with
  | ok value =>
    have hop : script.op k w = (.ok value, script.after k w) := by rw [← hresult]; rfl
    rw [attempts_of_ok r hop]
  | error report =>
    have hop : script.op k w = (.error report, script.after k w) := by rw [← hresult]; rfl
    have hretry : (script k).retry = false := by simpa [Attempt.retryable, hresult] using h
    have hverdict := script.shouldRetry_after report k w
    rw [hretry] at hverdict
    rw [attempts_of_refuse r hop hverdict]

/-- The loop makes the calls of the schedule. -/
private theorem calls_attempts {token : CancellationToken} (hcancel : r.cancel = some token)
    (script : Script α) (n k : ℕ) (w : World (List Call)) :
    (r.attempts script.op script.shouldRetry n k w).2.user =
      w.user ++ (r.schedule script).calls token n k w.now := by
  induction n generalizing k w with
  | zero =>
    cases hagain : (script k).retryable with
    | false =>
      rw [attempts_of_not_retryable script hagain]
      rfl
    | true =>
      obtain ⟨report, hresult, hretry⟩ := Attempt.retryable_iff.mp hagain
      have hop : script.op k w = (.error report, script.after k w) := by rw [← hresult]; rfl
      rw [attempts_zero_of_retry r hop (hretry ▸ script.shouldRetry_after report k w)]
      rfl
  | succ n ih =>
    cases hagain : (script k).retryable with
    | false =>
      rw [attempts_of_not_retryable script hagain, Schedule.calls_of_not_again hagain]
      rfl
    | true =>
      obtain ⟨report, hresult, hretry⟩ := Attempt.retryable_iff.mp hagain
      have hop : script.op k w = (.error report, script.after k w) := by rw [← hresult]; rfl
      rw [attempts_succ_of_retry r hop (hretry ▸ script.shouldRetry_after report k w),
        Schedule.calls_of_again hagain, hcancel]
      -- the loop and the schedule sleep alike
      have hsleep : sleepOrCancel (some token)
          (computeDelay r.baseBackoff r.maxBackoff k r.jitter (script.after k w).wall)
          (script.after k w) =
          let sleep := (Sleep.start (some token) ((r.schedule script).delay k)
            (script.after k w).now).await (script.after k w).now
          (sleep.1, { script.after k w with now := sleep.2 }) := rfl
      have hfinished : w.now + (r.schedule script).elapsed k = (script.after k w).now := rfl
      have huser : (script.after k w).user = w.user ++ [⟨k, (script.after k w).now⟩] := rfl
      simp only [hsleep, hfinished]
      generalize (Sleep.start (some token) ((r.schedule script).delay k)
        (script.after k w).now).await (script.after k w).now = sleep
      cases sleep.1 with
      | false => exact huser
      | true =>
        simp only [if_true]
        rw [ih, huser, List.append_assoc, List.singleton_append]

/-- **A scripted run makes the calls of its schedule**, and none if the token is cancelled
before the first attempt. -/
theorem calls_eq {token : CancellationToken} (hcancel : r.cancel = some token)
    (script : Script α) (now : ℕ) (wall : ℤ) :
    r.calls script now wall = if token.isCancelled now then []
      else (r.schedule script).calls token (r.maxAttempts.val - 1) 1 now := by
  have hchecked : (r.cancelled : Async (List Call) Bool) ⟨now, wall, []⟩ =
      (token.isCancelled now, ⟨now, wall, []⟩) := by
    rw [cancelled, hcancel, Option.any_some]
  simp only [calls, runIf, Async.bind_apply, hchecked]
  -- the check before the first attempt
  cases token.isCancelled now with
  | true => rfl
  | false =>
    simp only [Bool.false_eq_true, if_false]
    rw [calls_attempts hcancel, List.nil_append]

end Retry

end RustUtils
