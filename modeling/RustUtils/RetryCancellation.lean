import RustUtils.Concurrency.Retry
import RustUtils.Network.Retry

/-!
# Cancelling the retry loops

Both retry loops look at their token in their sleeps only, and a sleep of zero length does
not look. `retry_loops_stop_iff` says exactly when a cancellation stops them nevertheless,
in terms of the policy, the script and the instant of the cancellation.
-/

namespace RustUtils

/-- **When a cancellation stops the retry loops.** For every policy, script and token: no call
follows one that finishes retryable with a cancelled token, if and only if the token does not
fire during an attempt that is followed by a delay of zero, where all attempts so far are
retryable and further ones are left. An HTTP request is sent at least once, also when the
token is cancelled before, so there the first attempt must not be followed by a delay of
zero if the token is cancelled at its end. -/
theorem retry_loops_stop_iff (token : CancellationToken) (now : ℕ) (wall : ℤ) :
    (∀ (α : Type) (r : Retry) (script : Retry.Script α),
      StopsWhenCancelled token (fun k => (script k).retryable)
          (({ r with cancel := some token } : Retry).calls script now wall) ↔
        ∀ j, j + 1 < r.maxAttempts.val → (∀ i ≤ j, (script (i + 1)).retryable = true) →
          r.NoWait (j + 1) (script (j + 1)).wall →
          token.isCancelled
            ((r.schedule script).startedAt 1 now j + (script (j + 1)).elapsed) = true →
          token.isCancelled ((r.schedule script).startedAt 1 now j) = true) ∧
    (∀ (policy : RetryPolicy) (req : Request) (script : HttpScript),
      StopsWhenCancelled token (fun k => policy.shouldRetry (script k).result req.method)
          (script.calls policy token req now wall) ↔
        ∀ j, j + 1 < policy.maxAttempts.val →
          (∀ i ≤ j, policy.shouldRetry (script (i + 1)).result req.method = true) →
          req.tryClone.isSome = true →
          policy.NoWait (j + 1) (script (j + 1)).result (script (j + 1)).wall →
          token.isCancelled
            ((script.schedule policy req).startedAt 1 now j + (script (j + 1)).elapsed) = true →
          j ≠ 0 ∧ token.isCancelled ((script.schedule policy req).startedAt 1 now j) = true) := by
  have hlast : ∀ {max : ℕ} (j : ℕ), j < max - 1 ↔ j + 1 < max := fun j => by omega
  constructor
  · intro α r script
    have hzero : ∀ j, ((r.schedule script).delay (j + 1)).isZero = true ↔
        r.NoWait (j + 1) (script (j + 1)).wall := fun _ => isZero_computeDelay_iff
    rw [Retry.calls_eq rfl]
    cases hnow : token.isCancelled now with
    | true =>
      -- the token is looked at before the first attempt
      refine iff_of_true (fun _ _ _ h => by simp at h) fun j _ _ _ _ => ?_
      exact CancellationToken.isCancelled_mono (Schedule.le_startedAt _ _ _ _) hnow
    | false =>
      simp only [Bool.false_eq_true, if_false]
      refine (Schedule.stops_iff (fun _ h => h) _ _).trans (forall_congr' fun j => ?_)
      have hfirst : token.isCancelled ((r.schedule script).startedAt 1 now j) = true → j ≠ 0 := by
        rintro hstarted rfl
        rw [Schedule.startedAt, hnow] at hstarted
        contradiction
      rw [hlast, ← hzero]
      exact ⟨fun h hj hagain hz hc => (h hj hagain hz hc).2,
        fun h hj hagain hz hc => ⟨hfirst (h hj hagain hz hc), h hj hagain hz hc⟩⟩
  · intro policy req script
    have hzero : ∀ j, ((script.schedule policy req).delay (j + 1)).isZero = true ↔
        policy.NoWait (j + 1) (script (j + 1)).result (script (j + 1)).wall :=
      fun _ => RetryPolicy.isZero_computeDelay_iff
    have hagain : ∀ k, (script.schedule policy req).again k = true ↔
        policy.shouldRetry (script k).result req.method = true ∧ req.tryClone.isSome = true :=
      fun _ => Bool.and_eq_true_iff
    rw [HttpScript.calls_eq]
    refine (Schedule.stops_iff (fun k h => ((hagain k).mp h).1) _ _).trans
      (forall_congr' fun j => ?_)
    rw [hlast, ← hzero]
    constructor
    · intro h hj hretry hclone hz hc
      exact h hj (fun i hi => (hagain _).mpr ⟨hretry i hi, hclone⟩) hz hc
    · intro h hj hretry hz hc
      exact h hj (fun i hi => ((hagain _).mp (hretry i hi)).1) ((hagain _).mp (hretry j le_rfl)).2
        hz hc

/-! ### A cancellation that is not noticed -/

/-- Every attempt takes ten nanoseconds and fails with a retryable error. -/
def alwaysFails : Retry.Script Unit := fun _ => ⟨10, 0, .error (.new .network), true⟩

/-- Every exchange takes ten nanoseconds and is answered with `429` and `Retry-After: 0`. -/
def alwaysThrottled : HttpScript := fun _ => ⟨10, 0, .ok ⟨.tooManyRequests, some [0x30]⟩⟩

/-- The token fires during the first attempt, and two further attempts are made. -/
theorem retry_loops_overrun :
    (¬StopsWhenCancelled ⟨some 5⟩ (fun k => (alwaysFails k).retryable)
      (({ Retry.new with baseBackoff := .zero, cancel := some ⟨some 5⟩ } : Retry).calls
        alwaysFails 0 0)) ∧
    ¬StopsWhenCancelled ⟨some 5⟩
      (fun k => RetryPolicy.default.shouldRetry (alwaysThrottled k).result .get)
      (alwaysThrottled.calls RetryPolicy.default ⟨some 5⟩ ⟨.get, .empty⟩ 0 0) := by
  constructor
  · intro h
    have hcalls : (({ Retry.new with baseBackoff := .zero, cancel := some ⟨some 5⟩ } : Retry).calls
        alwaysFails 0 0) = [] ++ ⟨1, 10⟩ :: [⟨2, 20⟩, ⟨3, 30⟩] := by decide +kernel
    exact absurd (h _ _ _ hcalls rfl (by decide)) (by simp)
  · intro h
    have hcalls : alwaysThrottled.calls RetryPolicy.default ⟨some 5⟩ ⟨.get, .empty⟩ 0 0 =
        [] ++ ⟨1, 10⟩ :: [⟨2, 20⟩, ⟨3, 30⟩] := by decide +kernel
    exact absurd (h _ _ _ hcalls (by decide +kernel) (by decide)) (by simp)

end RustUtils
