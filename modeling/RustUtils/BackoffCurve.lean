import Mathlib.Algebra.Group.Nat.Defs
import RustUtils.Backoff

/-!
# The backoff curve

The delays of `compute_delay` as exact numbers. The factor is an exact power of two up to the
32nd attempt and `u32::MAX` from there on, and the saturation of the product disappears behind
the cap (`toNanos_cappedDelay`). So the documented curve `base * 2^(attempt-1)`, capped, is
followed until the plateau `base * (2^32 - 1)`, and for good if the cap lies below it
(`computeDelay_curve_iff`).

The delays grow with every argument, and the jitter only shortens them. The last section repeats
the computation in machine arithmetic, where an overflow or a division by zero is a panic, and
shows that there is none.
-/

namespace RustUtils

/-! ### The curve -/

/-- The factor is an exact power of two, or saturated. -/
private theorem factor_eq (k : ℕ) :
    (checkedShlOne k).getD (2 ^ 32 - 1) = min (2 ^ k) (2 ^ 32 - 1) := by
  rw [checkedShlOne]
  by_cases hk : k < 32
  · have hlt : 2 ^ k < 2 ^ 32 := Nat.pow_lt_pow_right (by decide) hk
    rw [if_pos hk, Option.getD_some, Nat.one_shiftLeft, Nat.min_eq_left (by omega)]
  · have hle : 2 ^ 32 ≤ 2 ^ k := Nat.pow_le_pow_right (by decide) (Nat.le_of_not_lt hk)
    rw [if_neg hk, Option.getD_none, Nat.min_eq_right (by omega)]

/-- A product that does not fit a `Duration` is past every cap. -/
private theorem toNanos_capped_mul (base cap : Duration) (k : ℕ) :
    (min (base.saturatingMul k) cap).toNanos = min (base.toNanos * k) cap.toNanos := by
  rw [Duration.toNanos_min, Duration.toNanos_saturatingMul, Nat.min_assoc,
    Nat.min_eq_right cap.toNanos_le_max]

/-- The exact value of the delay before the jitter. -/
theorem toNanos_cappedDelay (base cap : Duration) (attempt : ℕ) :
    (cappedDelay base cap attempt).toNanos =
      min (base.toNanos * min (2 ^ (attempt - 1)) (2 ^ 32 - 1)) cap.toNanos := by
  rw [cappedDelay, toNanos_capped_mul, factor_eq]

theorem computeDelay_false (base cap : Duration) (attempt : ℕ) (wall : ℤ) :
    computeDelay base cap attempt false wall = cappedDelay base cap attempt := by
  rw [computeDelay, if_neg Bool.false_ne_true]

private theorem computeDelay_true (base cap : Duration) (attempt : ℕ) (wall : ℤ) :
    computeDelay base cap attempt true wall = fullJitter (cappedDelay base cap attempt) wall := by
  rw [computeDelay, if_pos rfl]

/-- Zero attempts count as one. -/
private theorem max_one_sub_one (attempt : ℕ) : max attempt 1 - 1 = attempt - 1 := by
  omega

/-- Past the 32nd attempt the factor is saturated. -/
theorem saturated_of_lt {attempt : ℕ} (h : 32 < attempt) :
    min (2 ^ (attempt - 1)) (2 ^ 32 - 1) = 2 ^ 32 - 1 ∧ 2 ^ 32 ≤ 2 ^ (attempt - 1) := by
  have hle : 2 ^ 32 ≤ 2 ^ (attempt - 1) := Nat.pow_le_pow_right (by decide) (by omega)
  exact ⟨Nat.min_eq_right (by omega), hle⟩

/-- Two capped multiples of a base agree exactly if the factors do, or the base is zero, or the
smaller one is past the cap. -/
private theorem capped_mul_eq_iff {b m k l : ℕ} (h : k ≤ l) :
    min (b * k) m = min (b * l) m ↔ k = l ∨ b = 0 ∨ m ≤ b * k := by
  have hmul : b * k ≤ b * l := Nat.mul_le_mul_left b h
  constructor
  · intro heq
    rcases Nat.lt_or_ge (b * k) m with hlt | hle
    · have hprod : b * k = b * l := by omega
      rcases Nat.eq_zero_or_pos b with hb | hb
      · exact Or.inr (Or.inl hb)
      · exact Or.inl (Nat.eq_of_mul_eq_mul_left hb hprod)
    · exact Or.inr (Or.inr hle)
  · rintro (rfl | rfl | hle)
    · rfl
    · simp
    · omega

/-- **When the backoff follows its documented curve.** The delay after an attempt is the exact
`base * 2^(attempt-1)`, capped, if and only if the attempt is at most the 32nd, the base is
zero, or the cap is at most `base * (2^32 - 1)`. And a base that is not zero reaches the cap for
all sufficiently large attempts if and only if the cap is at most that. -/
theorem computeDelay_curve_iff (base cap : Duration) :
    (∀ attempt wall, (computeDelay base cap attempt false wall).toNanos =
        min (base.toNanos * 2 ^ (max attempt 1 - 1)) cap.toNanos ↔
      max attempt 1 ≤ 32 ∨ base.toNanos = 0 ∨ cap.toNanos ≤ base.toNanos * (2 ^ 32 - 1)) ∧
    (base.toNanos = 0 ∨
      ((∃ n < 2 ^ 32, ∀ attempt, n ≤ attempt → attempt < 2 ^ 32 → ∀ wall,
          computeDelay base cap attempt false wall = cap) ↔
        cap.toNanos ≤ base.toNanos * (2 ^ 32 - 1))) := by
  refine ⟨fun attempt wall => ?_, or_iff_not_imp_left.mpr fun hbase => ⟨?_, ?_⟩⟩
  · rw [computeDelay_false, toNanos_cappedDelay, max_one_sub_one,
      capped_mul_eq_iff (Nat.min_le_left _ _)]
    by_cases hle : max attempt 1 ≤ 32
    · -- up to the 32nd attempt the factor is exact
      have hlt : 2 ^ (attempt - 1) < 2 ^ 32 := Nat.pow_lt_pow_right (by decide) (by omega)
      exact iff_of_true (Or.inl (Nat.min_eq_left (by omega))) (Or.inl hle)
    · obtain ⟨hsat, hge⟩ := saturated_of_lt (show 32 < attempt by omega)
      rw [hsat]
      exact or_congr (iff_of_false (by omega) hle) Iff.rfl
  · rintro ⟨n, hn, hreach⟩
    -- the last attempt of all has not passed the plateau
    have hlast := congrArg Duration.toNanos (hreach (2 ^ 32 - 1) (by omega) (by omega) 0)
    rw [computeDelay_false, toNanos_cappedDelay, (saturated_of_lt (by omega)).1] at hlast
    omega
  · intro hle
    refine ⟨33, by omega, fun attempt hattempt _ wall => Duration.toNanos_injective ?_⟩
    rw [computeDelay_false, toNanos_cappedDelay, (saturated_of_lt (by omega)).1,
      Nat.min_eq_right hle]

/-- A base of one nanosecond is below the curve at the 34th attempt, and stays below a cap of ten
seconds for good. -/
theorem computeDelay_plateau :
    (computeDelay (.fromNanos 1) (.fromSecs 10) 34 false 0).toNanos ≠
        min ((Duration.fromNanos 1).toNanos * 2 ^ (max 34 1 - 1)) (Duration.fromSecs 10).toNanos ∧
      ∀ attempt wall, computeDelay (.fromNanos 1) (.fromSecs 10) attempt false wall ≠
        .fromSecs 10 := by
  refine ⟨by decide, fun attempt wall hreach => ?_⟩
  have hnanos := congrArg Duration.toNanos hreach
  have hbase : (Duration.fromNanos 1).toNanos = 1 := rfl
  have hcap : (Duration.fromSecs 10).toNanos = 10000000000 := rfl
  rw [computeDelay_false, toNanos_cappedDelay, hbase, hcap] at hnanos
  omega

/-! ### Order -/

/-- The delay grows with the base, the cap and the attempt. -/
theorem cappedDelay_mono {base base' cap cap' : Duration} {attempt attempt' : ℕ}
    (hbase : base ≤ base') (hcap : cap ≤ cap') (hattempt : attempt ≤ attempt') :
    cappedDelay base cap attempt ≤ cappedDelay base' cap' attempt' := by
  have hpow : 2 ^ (attempt - 1) ≤ 2 ^ (attempt' - 1) :=
    Nat.pow_le_pow_right (by decide) (by omega)
  have hmul : base.toNanos * min (2 ^ (attempt - 1)) (2 ^ 32 - 1) ≤
      base'.toNanos * min (2 ^ (attempt' - 1)) (2 ^ 32 - 1) :=
    Nat.mul_le_mul (Duration.le_iff.mp hbase) (by omega)
  have hcap := Duration.le_iff.mp hcap
  rw [Duration.le_iff, toNanos_cappedDelay, toNanos_cappedDelay]
  omega

theorem cappedDelay_le (base cap : Duration) (attempt : ℕ) : cappedDelay base cap attempt ≤ cap :=
  min_le_right _ _

private theorem cappedNanos_le (capped : Duration) : cappedNanos capped ≤ capped.toNanos := by
  rw [cappedNanos]
  split <;> omega

theorem fullJitter_of_zero {capped : Duration} (h : capped.toNanos = 0) (wall : ℤ) :
    fullJitter capped wall = Duration.zero :=
  if_pos ((cappedNanos_eq_zero_iff capped).mpr h)

/-- A draw is a remainder of the entropy. -/
theorem toNanos_fullJitter {capped : Duration} (h : capped.toNanos ≠ 0) (wall : ℤ) :
    (fullJitter capped wall).toNanos = jitterSource wall % cappedNanos capped := by
  have hpos : cappedNanos capped ≠ 0 := fun hzero => h ((cappedNanos_eq_zero_iff capped).mp hzero)
  have hlt : jitterSource wall % cappedNanos capped < cappedNanos capped :=
    Nat.mod_lt _ (Nat.pos_of_ne_zero hpos)
  rw [fullJitter, if_neg hpos,
    Duration.toNanos_fromNanos (Nat.lt_trans hlt (cappedNanos_lt capped))]

/-- A draw does not reach what it is drawn from. -/
theorem fullJitter_lt {capped : Duration} (h : capped.toNanos ≠ 0) (wall : ℤ) :
    (fullJitter capped wall).toNanos < capped.toNanos := by
  have hpos : 0 < cappedNanos capped := Nat.pos_of_ne_zero fun hzero =>
    h ((cappedNanos_eq_zero_iff capped).mp hzero)
  rw [toNanos_fullJitter h]
  exact Nat.lt_of_lt_of_le (Nat.mod_lt _ hpos) (cappedNanos_le capped)

private theorem fullJitter_le (capped : Duration) (wall : ℤ) : fullJitter capped wall ≤ capped := by
  by_cases hzero : capped.toNanos = 0
  · rw [fullJitter_of_zero hzero]
    exact Nat.zero_le _
  · exact (fullJitter_lt hzero wall).le

/-- No delay exceeds the cap. -/
theorem computeDelay_le (base cap : Duration) (attempt : ℕ) (jitter : Bool) (wall : ℤ) :
    computeDelay base cap attempt jitter wall ≤ cap := by
  cases jitter with
  | false =>
    rw [computeDelay_false]
    exact cappedDelay_le base cap attempt
  | true =>
    rw [computeDelay_true]
    exact le_trans (fullJitter_le _ wall) (cappedDelay_le base cap attempt)

/-- The backoff ends at the cap if the cap is zero, or on the plateau without jitter. -/
theorem toNanos_computeDelay_eq_max_iff (base max : Duration) (attempt : ℕ) (jitter : Bool)
    (wall : ℤ) : (computeDelay base max attempt jitter wall).toNanos = max.toNanos ↔
      max.toNanos = 0 ∨ jitter = false ∧
        max.toNanos ≤ base.toNanos * min (2 ^ (attempt - 1)) (2 ^ 32 - 1) := by
  have hcapped := toNanos_cappedDelay base max attempt
  cases jitter with
  | false =>
    rw [computeDelay_false, hcapped]
    simp only [true_and]
    omega
  | true =>
    rw [computeDelay_true]
    simp only [Bool.true_eq_false, false_and, or_false]
    constructor
    · intro heq
      by_contra hmax
      by_cases hzero : (cappedDelay base max attempt).toNanos = 0
      · rw [fullJitter_of_zero hzero, Duration.toNanos_zero] at heq
        omega
      · have hlt := fullJitter_lt hzero wall
        omega
    · intro hmax
      rw [fullJitter_of_zero (by omega), hmax, Duration.toNanos_zero]

/-! ### Machine arithmetic -/

namespace MachineArith

/-- Multiplication of unsigned integers; an overflow is a panic. -/
def mul (bits a b : ℕ) : Option ℕ := if a * b < 2 ^ bits then some (a * b) else none

/-- Addition of unsigned integers; an overflow is a panic. -/
def add (bits a b : ℕ) : Option ℕ := if a + b < 2 ^ bits then some (a + b) else none

/-- Remainder of unsigned integers; a zero divisor is a panic. -/
def rem (a b : ℕ) : Option ℕ := if b = 0 then none else some (a % b)

/-- `Duration::as_nanos`, in `u128`. -/
def asNanos (d : Duration) : Option ℕ := do
  add 128 (← mul 128 d.secs nanosPerSec) d.nanos

/-- `Duration::new`: too many nanoseconds carry into the seconds, and a carry that overflows is a
panic. -/
def newDuration (secs nanos : ℕ) : Option Duration := do
  let secs ← if nanos < nanosPerSec then some secs else add 64 secs (nanos / nanosPerSec)
  if h : secs < 2 ^ 64 then some ⟨secs, nanos % nanosPerSec, h, Nat.mod_lt _ (by decide)⟩ else none

/-- `Duration::saturating_mul`. The nanoseconds are multiplied in `u64`; the seconds with checked
operations, whose failure is `Duration::MAX`. -/
def saturatingMul (d : Duration) (k : ℕ) : Option Duration := do
  let totalNanos ← mul 64 d.nanos k
  match (mul 64 d.secs k).bind fun s => add 64 s (totalNanos / nanosPerSec) with
  | some secs => newDuration secs (totalNanos % nanosPerSec)
  | none => some Duration.max

/-- `full_jitter`; the wall clock reads a duration since the epoch, or is before it. -/
def fullJitter (capped : Duration) (sinceEpoch : Option Duration) : Option Duration := do
  let nanos ← asNanos capped
  let cappedNanos := if nanos < 2 ^ 64 then nanos else 2 ^ 64 - 1
  if cappedNanos = 0 then some Duration.zero
  else
    let source ← match sinceEpoch with
      | some d => (asNanos d).map (· % 2 ^ 64)
      | none => some 0
    (rem source cappedNanos).map Duration.fromNanos

/-- `compute_delay`. -/
def computeDelay (base max : Duration) (attempt : ℕ) (jitter : Bool)
    (sinceEpoch : Option Duration) : Option Duration := do
  let factor := (checkedShlOne (attempt - 1)).getD (2 ^ 32 - 1)
  let uncapped ← saturatingMul base factor
  let capped := min uncapped max
  if jitter then fullJitter capped sinceEpoch else some capped

/-- The wall clock as an integer. -/
def wallClock (sinceEpoch : Option Duration) : ℤ :=
  match sinceEpoch with
  | some d => d.toNanos
  | none => -1

theorem mul_eq {bits a b : ℕ} (h : a * b < 2 ^ bits) : mul bits a b = some (a * b) := if_pos h

theorem add_eq {bits a b : ℕ} (h : a + b < 2 ^ bits) : add bits a b = some (a + b) := if_pos h

/-- A product and a sum that are checked together. -/
private theorem mul_bind_add (bits a b c : ℕ) :
    ((mul bits a b).bind fun s => add bits s c) =
      if a * b + c < 2 ^ bits then some (a * b + c) else none := by
  by_cases h : a * b < 2 ^ bits
  · rw [mul_eq h]
    rfl
  · have hsum : ¬a * b + c < 2 ^ bits := by omega
    rw [mul, if_neg h, if_neg hsum]
    rfl

private theorem asNanos_eq (d : Duration) : asNanos d = some d.toNanos := by
  have hs := d.secs_lt
  have hn := d.nanos_lt
  have hsum : d.secs * nanosPerSec + d.nanos < 2 ^ 128 := by
    rw [nanosPerSec] at hn ⊢
    omega
  have hadd := mul_bind_add 128 d.secs nanosPerSec d.nanos
  rw [if_pos hsum] at hadd
  exact hadd

private theorem newDuration_eq {secs nanos : ℕ} (hs : secs < 2 ^ 64) (hn : nanos < nanosPerSec) :
    newDuration secs nanos = some ⟨secs, nanos, hs, hn⟩ := by
  simp only [newDuration, if_pos hn, Option.bind_eq_bind, Option.bind_some, dif_pos hs,
    Nat.mod_eq_of_lt hn]

/-- A `u32` factor does not overflow the nanoseconds. -/
private theorem saturatingMul_eq (d : Duration) {k : ℕ} (hk : k < 2 ^ 32) :
    saturatingMul d k = some (d.saturatingMul k) := by
  have hn := d.nanos_lt
  have hmul : d.nanos * k < 2 ^ 64 := by
    have hle : d.nanos * k ≤ nanosPerSec * 2 ^ 32 := Nat.mul_le_mul (by omega) (by omega)
    rw [nanosPerSec] at hle
    omega
  have hrem : d.nanos * k % nanosPerSec < nanosPerSec := Nat.mod_lt _ (by decide)
  rw [saturatingMul, mul_eq hmul, Option.bind_eq_bind, Option.bind_some, mul_bind_add,
    Duration.saturatingMul]
  by_cases hsecs : d.secs * k + d.nanos * k / nanosPerSec < 2 ^ 64
  · rw [if_pos hsecs, dif_pos hsecs]
    exact newDuration_eq hsecs hrem
  · rw [if_neg hsecs, dif_neg hsecs]

private theorem rem_eq {a b : ℕ} (h : b ≠ 0) : rem a b = some (a % b) := if_neg h

private theorem jitterSource_none : jitterSource (wallClock none) = 0 := if_neg (by decide)

private theorem jitterSource_some (d : Duration) :
    jitterSource (wallClock (some d)) = d.toNanos % 2 ^ 64 := by
  rw [jitterSource, wallClock, if_pos (Int.natCast_nonneg _), Int.toNat_natCast]

/-- The divisor of the jitter is not zero. -/
private theorem fullJitter_eq (capped : Duration) (sinceEpoch : Option Duration) :
    fullJitter capped sinceEpoch = some (RustUtils.fullJitter capped (wallClock sinceEpoch)) := by
  rw [fullJitter, asNanos_eq, Option.bind_eq_bind, Option.bind_some, ← cappedNanos,
    RustUtils.fullJitter]
  by_cases hzero : cappedNanos capped = 0
  · rw [if_pos hzero, if_pos hzero]
  · rw [if_neg hzero, if_neg hzero]
    cases sinceEpoch with
    | none =>
      simp only [Option.bind_some, rem_eq hzero, Option.map_some, jitterSource_none]
    | some d =>
      simp only [asNanos_eq, Option.bind_some, rem_eq hzero, Option.map_some, jitterSource_some]

/-- **The computation does not panic**: machine arithmetic gives the delay. -/
theorem computeDelay_eq (base max : Duration) (attempt : ℕ) (jitter : Bool)
    (sinceEpoch : Option Duration) :
    computeDelay base max attempt jitter sinceEpoch =
      some (RustUtils.computeDelay base max attempt jitter (wallClock sinceEpoch)) := by
  have hfactor : (checkedShlOne (attempt - 1)).getD (2 ^ 32 - 1) < 2 ^ 32 := by
    rw [factor_eq]
    omega
  rw [computeDelay, saturatingMul_eq base hfactor, Option.bind_eq_bind, Option.bind_some,
    ← cappedDelay]
  cases jitter with
  | false => rw [computeDelay_false, if_neg Bool.false_ne_true]
  | true => rw [computeDelay_true, if_pos rfl, fullJitter_eq]

end MachineArith

/-- **Backoff delays are monotone, and jitter shortens them.** The delay grows with the base, the
cap and the attempt, and does not exceed the cap; a draw of the jitter does not exceed the delay
without it, whatever the clock reads; and the computation never panics. -/
theorem computeDelay_order :
    (∀ base base' cap cap' attempt attempt' wall wall', base ≤ base' → cap ≤ cap' →
      attempt ≤ attempt' →
      computeDelay base cap attempt false wall ≤ computeDelay base' cap' attempt' false wall' ∧
        computeDelay base' cap' attempt' false wall' ≤ cap') ∧
    (∀ base cap attempt wall wall',
      computeDelay base cap attempt true wall ≤ computeDelay base cap attempt false wall') ∧
    ∀ base cap attempt jitter sinceEpoch,
      MachineArith.computeDelay base cap attempt jitter sinceEpoch =
        some (computeDelay base cap attempt jitter (MachineArith.wallClock sinceEpoch)) := by
  refine ⟨?_, fun base cap attempt wall wall' => ?_, MachineArith.computeDelay_eq⟩
  · intro base base' cap cap' attempt attempt' wall wall' hbase hcap hattempt
    refine ⟨?_, computeDelay_le base' cap' attempt' false wall'⟩
    rw [computeDelay_false, computeDelay_false]
    exact cappedDelay_mono hbase hcap hattempt
  · rw [computeDelay_true, computeDelay_false]
    exact fullJitter_le _ wall

/-- Between the exact and the saturated factor. -/
theorem computeDelay_order_saturated :
    computeDelay (.fromNanos 1) .max 32 false 0 ≤ computeDelay (.fromNanos 1) .max 33 false 0 :=
  (computeDelay_order.1 _ _ _ _ 32 33 0 0 le_rfl le_rfl (by decide)).1

end RustUtils
