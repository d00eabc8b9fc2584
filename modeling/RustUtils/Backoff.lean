import RustUtils.Runtime.World

/-!
# Backoff delays and cancel-aware sleeps

`computeDelay` is one step of the exponential backoff and `fullJitter` its random draw, as
functions of the wall-clock reading they use as entropy. `isZero_computeDelay_iff` lists the
inputs on which the delay is zero.

`sleep_or_cancel` is split where it suspends. `Sleep.start` is everything up to the
suspension, in particular the zero-delay branch that returns without looking at the token,
and `Sleep.poll` is one poll of the pending `select!`, biased toward the cancellation arm.
`sleepOrCancel` is the whole function on a world; `Sleep.await_spec` relates it to polling.
-/

namespace RustUtils

/-! ### `compute_delay` -/

/-- `1u32.checked_shl(k)`. -/
def checkedShlOne (k : ℕ) : Option ℕ := if k < 32 then some (1 <<< k) else none

/-- The capped delay in nanoseconds as a `u64`, saturating. -/
def cappedNanos (capped : Duration) : ℕ :=
  if capped.toNanos < 2 ^ 64 then capped.toNanos else 2 ^ 64 - 1

/-- The wall-clock nanoseconds used as entropy, as a `u64`; zero before the epoch. -/
def jitterSource (wall : ℤ) : ℕ := if 0 ≤ wall then wall.toNat % 2 ^ 64 else 0

/-- `full_jitter`: draw a duration below `capped` from the wall clock. -/
def fullJitter (capped : Duration) (wall : ℤ) : Duration :=
  if cappedNanos capped = 0 then Duration.zero
  else Duration.fromNanos (jitterSource wall % cappedNanos capped)

/-- The capped exponential `base * 2^(attempt-1)` of `compute_delay`, before the jitter. -/
def cappedDelay (base max : Duration) (attempt : ℕ) : Duration :=
  min (base.saturatingMul ((checkedShlOne (attempt - 1)).getD (2 ^ 32 - 1))) max

/-- `compute_delay`: one step of exponential backoff with optional full jitter. -/
def computeDelay (base max : Duration) (attempt : ℕ) (jitter : Bool) (wall : ℤ) :
    Duration :=
  let capped := cappedDelay base max attempt
  if jitter then fullJitter capped wall else capped

private theorem factor_pos (k : ℕ) : 0 < (checkedShlOne k).getD (2 ^ 32 - 1) := by
  rw [checkedShlOne]
  split
  · rw [Option.getD_some, Nat.one_shiftLeft]
    exact Nat.two_pow_pos k
  · decide

theorem cappedNanos_lt (capped : Duration) : cappedNanos capped < 2 ^ 64 := by
  rw [cappedNanos]
  split <;> omega

theorem cappedNanos_eq_zero_iff (capped : Duration) :
    cappedNanos capped = 0 ↔ capped.toNanos = 0 := by
  rw [cappedNanos]
  split <;> omega

/-- The capped exponential is zero exactly when the base or the cap is. -/
private theorem toNanos_cappedDelay_eq_zero_iff (base max : Duration) (attempt : ℕ) :
    (cappedDelay base max attempt).toNanos = 0 ↔ base.toNanos = 0 ∨ max.toNanos = 0 := by
  have hpos := factor_pos (attempt - 1)
  have hmax : 0 < Duration.max.toNanos := by decide
  rw [cappedDelay, Duration.toNanos_min, Duration.toNanos_saturatingMul]
  generalize (checkedShlOne (attempt - 1)).getD (2 ^ 32 - 1) = k at hpos
  have hmul : base.toNanos * k = 0 ↔ base.toNanos = 0 := by
    rw [Nat.mul_eq_zero]
    omega
  omega

/-- **When the backoff does not wait**: a zero base, a zero cap, or a jitter draw of zero. -/
theorem isZero_computeDelay_iff {base max : Duration} {attempt : ℕ} {jitter : Bool}
    {wall : ℤ} :
    (computeDelay base max attempt jitter wall).isZero = true ↔
      base.toNanos = 0 ∨ max.toNanos = 0 ∨
        jitter = true ∧ jitterSource wall % cappedNanos (cappedDelay base max attempt) = 0 := by
  rw [Duration.isZero_iff, computeDelay, ← or_assoc,
    ← toNanos_cappedDelay_eq_zero_iff base max attempt]
  generalize cappedDelay base max attempt = capped
  cases jitter with
  | false => simp
  | true =>
    rw [if_pos rfl, fullJitter, ← cappedNanos_eq_zero_iff capped]
    by_cases hz : cappedNanos capped = 0
    · simp [hz]
    · have hlt : jitterSource wall % cappedNanos capped < 2 ^ 64 :=
        lt_trans (Nat.mod_lt _ (Nat.pos_of_ne_zero hz)) (cappedNanos_lt capped)
      rw [if_neg hz, Duration.toNanos_fromNanos hlt]
      simp [hz]

/-! ### `sleep_or_cancel` -/

/-- Where a call of `sleep_or_cancel` stands: returned, waiting for the timer alone, or
suspended in the `select!` between a token and the timer. -/
inductive Sleep (τ : Type) where
  | done (elapsed : Bool)
  | timer (deadline : ℕ)
  | select (token : τ) (deadline : ℕ)
  deriving DecidableEq

namespace Sleep

variable {τ : Type}

/-- `sleep_or_cancel` up to its suspension: a zero delay returns at once, without a look at
the token. -/
def start (token : Option τ) (delay : Duration) (now : ℕ) : Sleep τ :=
  if delay.isZero then done true
  else match token with
    | none => timer (now + delay.toNanos)
    | some tok => select tok (now + delay.toNanos)

/-- One poll of a suspended `sleep_or_cancel`. The `select!` is biased: the cancellation
arm is polled first. -/
def poll (isCancelled : τ → Bool) (now : ℕ) : Sleep τ → Sleep τ
  | done elapsed => done elapsed
  | timer deadline => if deadline ≤ now then done true else timer deadline
  | select tok deadline =>
    if isCancelled tok then done false
    else if deadline ≤ now then done true
    else select tok deadline

/-- A suspended `sleep_or_cancel` awaited from `now` on: its result, and the instant at
which it resolves. -/
def await (now : ℕ) : Sleep CancellationToken → Bool × ℕ
  | done elapsed => (elapsed, now)
  | timer deadline => (true, max now deadline)
  | select tok deadline =>
    match tok.firesAt with
    | none => (true, max now deadline)
    | some at_ =>
      if at_ ≤ max now deadline then (false, max now at_) else (true, max now deadline)

/-- **Awaiting is polling**: the instant `await` gives is the first one at which a poll
resolves, and the poll there gives the same result. -/
theorem await_spec (s : Sleep CancellationToken) (now : ℕ) :
    let r := s.await now
    now ≤ r.2 ∧ s.poll (·.isCancelled r.2) r.2 = done r.1 ∧
      ∀ t, now ≤ t → t < r.2 → s.poll (·.isCancelled t) t = s := by
  cases s with
  | done elapsed => exact ⟨le_rfl, rfl, fun t _ _ => rfl⟩
  | timer deadline =>
    refine ⟨le_max_left _ _, if_pos (le_max_right _ _), fun t hnow hlt => if_neg ?_⟩
    simp only [await] at hlt
    omega
  | select tok deadline =>
    obtain ⟨firesAt⟩ := tok
    cases firesAt with
    | none =>
      refine ⟨le_max_left _ _, if_pos (le_max_right _ _), fun t hnow hlt => if_neg ?_⟩
      simp only [await] at hlt
      omega
    | some at_ =>
      simp only [await, poll, CancellationToken.isCancelled, Option.any_some]
      split
      · next hfire =>
        simp only [decide_eq_true_eq]
        refine ⟨le_max_left _ _, if_pos (le_max_right _ _), fun t hnow hlt => ?_⟩
        rw [if_neg (by omega), if_neg (by omega)]
      · next hfire =>
        simp only [decide_eq_true_eq]
        refine ⟨le_max_left _ _, ?_, fun t hnow hlt => ?_⟩
        · rw [if_neg hfire, if_pos (le_max_right _ _)]
        · rw [if_neg (by omega), if_neg (by omega)]

/-- A sleep with a token elapses iff its delay is zero or the token is not cancelled by its
end, and then ends on time. -/
theorem await_start_some (tok : CancellationToken) (delay : Duration) (now : ℕ) :
    ((start (some tok) delay now).await now).1 =
        (delay.isZero || !tok.isCancelled (now + delay.toNanos)) ∧
      (((start (some tok) delay now).await now).1 = true →
        ((start (some tok) delay now).await now).2 = now + delay.toNanos) := by
  rw [start]
  cases hzero : delay.isZero with
  | true =>
    have hnanos : delay.toNanos = 0 := Duration.isZero_iff.mp hzero
    simp [await, hnanos]
  | false =>
    obtain ⟨firesAt⟩ := tok
    cases firesAt with
    | none => simp [await, CancellationToken.isCancelled]
    | some at_ =>
      by_cases hfire : at_ ≤ now + delay.toNanos
      · simp [await, CancellationToken.isCancelled, hfire]
      · simp [await, CancellationToken.isCancelled, hfire]

end Sleep

/-- `sleep_or_cancel` on a world. -/
def sleepOrCancel {σ : Type} (token : Option CancellationToken) (delay : Duration) :
    Async σ Bool := fun w =>
  let r := (Sleep.start token delay w.now).await w.now
  (r.1, { w with now := r.2 })

/-- A sleep takes at most its delay, and exactly its delay if it is not cut short. -/
theorem sleepOrCancel_spec {σ : Type} (token : Option CancellationToken) (delay : Duration)
    (w : World σ) :
    w.now ≤ (sleepOrCancel token delay w).2.now ∧
      (sleepOrCancel token delay w).2.now ≤ w.now + delay.toNanos ∧
      ((sleepOrCancel token delay w).1 = true →
        (sleepOrCancel token delay w).2.now = w.now + delay.toNanos) := by
  have hspec := (Sleep.start token delay w.now).await_spec w.now
  refine ⟨hspec.1, ?_⟩
  simp only [sleepOrCancel, Sleep.start]
  cases hzero : delay.isZero with
  | true =>
    have hnanos : delay.toNanos = 0 := Duration.isZero_iff.mp hzero
    simp [Sleep.await, hnanos]
  | false =>
    obtain _ | ⟨_ | at_⟩ := token
    · simp [Sleep.await]
    · simp [Sleep.await]
    · by_cases hfire : at_ ≤ w.now + delay.toNanos
      · simp [Sleep.await, hfire]
      · simp [Sleep.await, hfire]

end RustUtils
