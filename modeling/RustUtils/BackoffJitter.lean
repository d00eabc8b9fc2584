import RustUtils.BackoffCurve
import RustUtils.Sampling.Residues

/-!
# The jitter as a draw

`full_jitter` takes the remainder of the clock modulo the delay, so over all readings of the clock
its draws fill the half-open interval below the delay evenly, and never reach the delay itself. The
closed interval of its documentation is filled exactly when the delay is zero
(`fullJitter_uniform_iff`).
-/

namespace RustUtils

open Sampling

/-- What `full_jitter` draws when the clock reads `clock` nanoseconds, in nanoseconds. -/
def clockDraw (capped : Duration) (clock : ℕ) : ℕ := (fullJitter capped clock).toNanos

private theorem jitterSource_natCast {clock : ℕ} (h : clock < 2 ^ 64) :
    jitterSource clock = clock := by
  rw [jitterSource, if_pos (Int.natCast_nonneg clock), Int.toNat_natCast, Nat.mod_eq_of_lt h]

/-- A draw is the remainder of the clock. -/
private theorem clockDraw_eq_mod {capped : Duration} (hzero : capped.toNanos ≠ 0)
    (h : capped.toNanos < 2 ^ 64) {clock : ℕ} (hclock : clock < 2 ^ 64) :
    clock % capped.toNanos = clockDraw capped clock := by
  rw [clockDraw, toNanos_fullJitter hzero, jitterSource_natCast hclock, cappedNanos, if_pos h]

/-- The draws of a delay that is not zero fill the half-open interval. -/
private theorem uniformBelow_clockDraw {capped : Duration} (hzero : capped.toNanos ≠ 0)
    (h : capped.toNanos < 2 ^ 64) : UniformBelow (clockDraw capped) (2 ^ 64) capped.toNanos :=
  (uniformBelow_mod (Nat.pos_of_ne_zero hzero) h.le).congr fun _ => clockDraw_eq_mod hzero h

private theorem clockDraw_of_zero {capped : Duration} (hzero : capped.toNanos = 0) (clock : ℕ) :
    clockDraw capped clock = 0 := by
  rw [clockDraw, fullJitter_of_zero hzero, Duration.toNanos_zero]

/-- The draws of a zero delay fill the interval that holds zero only. -/
private theorem uniformBelow_clockDraw_of_zero {capped : Duration} (hzero : capped.toNanos = 0) :
    UniformBelow (clockDraw capped) (2 ^ 64) 1 :=
  (uniformBelow_mod Nat.one_pos (Nat.two_pow_pos 64)).congr fun clock _ =>
    (Nat.mod_one clock).trans (clockDraw_of_zero hzero clock).symm

/-- **What the jitter draws from.** The draws fill the closed interval up to the delay evenly if and
only if the delay is zero; in all other cases they fill the half-open interval below it. -/
theorem fullJitter_uniform_iff {capped : Duration} (h : capped.toNanos ≤ 2 ^ 64 - 1) :
    (UniformBelow (clockDraw capped) (2 ^ 64) (capped.toNanos + 1) ↔ capped.toNanos = 0) ∧
      (capped.toNanos ≠ 0 → UniformBelow (clockDraw capped) (2 ^ 64) capped.toNanos) := by
  have hlt : capped.toNanos < 2 ^ 64 := by omega
  refine ⟨⟨fun hclosed => ?_, fun hzero => ?_⟩, fun hzero => uniformBelow_clockDraw hzero hlt⟩
  · by_contra hzero
    have hbound := hclosed.unique (uniformBelow_clockDraw hzero hlt)
    omega
  · rw [hzero]
    exact uniformBelow_clockDraw_of_zero hzero

theorem fullJitter_uniform_iff_second :
    (Duration.fromSecs 1).toNanos ≠ 0 ∧
      UniformBelow (clockDraw (.fromSecs 1)) (2 ^ 64) (Duration.fromSecs 1).toNanos :=
  ⟨by decide, (fullJitter_uniform_iff (by decide)).2 (by decide)⟩

/-- A delay of one nanosecond is never drawn. -/
theorem fullJitter_not_uniform :
    (Duration.fromNanos 1).toNanos = 1 ∧ (∀ clock, clockDraw (.fromNanos 1) clock ≠ 1) ∧
      ¬UniformBelow (clockDraw (.fromNanos 1)) (2 ^ 64) ((Duration.fromNanos 1).toNanos + 1) := by
  have hne : ∀ clock, clockDraw (.fromNanos 1) clock ≠ 1 := fun clock =>
    (fullJitter_lt (by decide) clock).ne
  refine ⟨rfl, hne, fun hclosed => ?_⟩
  obtain ⟨clock, -, hclock⟩ := hclosed.attained 1 (by decide)
  exact hne clock hclock

end RustUtils
