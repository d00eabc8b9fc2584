import Mathlib.Order.Lattice.Nat
import Mathlib.Tactic.Common

/-!
# Durations and instants

`Duration` is the standard library's pair of whole seconds (`u64`) and nanoseconds below
one second, with both bounds carried as fields. The arithmetic follows the library
operation by operation: `saturatingMul` carries nanoseconds into seconds and clamps at
`Duration.max`. `toNanos` (`as_nanos`) is the exact value, and the simp set reduces every
comparison and every operation to natural numbers.

An `Instant` is written as a natural number, the reading of the monotonic clock in
nanoseconds since a fixed origin, and a `SystemTime` as an integer, the reading of the wall
clock in nanoseconds since the Unix epoch.
-/

namespace RustUtils

/-- `NANOS_PER_SEC`. -/
def nanosPerSec : ℕ := 1000000000

/-- `std::time::Duration`. -/
@[ext]
structure Duration where
  /-- Whole seconds, a `u64`. -/
  secs : ℕ
  /-- Nanoseconds below one second. -/
  nanos : ℕ
  secs_lt : secs < 2 ^ 64
  nanos_lt : nanos < nanosPerSec

/-- `NonZeroU32`. -/
abbrev NonZeroU32 := {n : ℕ // 0 < n ∧ n < 2 ^ 32}

/-- `NonZeroU32::new(3)`. -/
def NonZeroU32.three : NonZeroU32 := ⟨3, by decide, by decide⟩

namespace Duration

/-! ### Constants and conversions -/

/-- `Duration::ZERO`. -/
def zero : Duration := ⟨0, 0, by decide, by decide⟩

/-- `Duration::MAX`. -/
def max : Duration := ⟨2 ^ 64 - 1, nanosPerSec - 1, by decide, by decide⟩

/-- `Duration::as_nanos`, the exact value. -/
def toNanos (d : Duration) : ℕ := d.secs * nanosPerSec + d.nanos

/-- `Duration::is_zero`. -/
def isZero (d : Duration) : Bool := d.secs = 0 && d.nanos = 0

/-- `Duration::from_secs` of a `u64`. -/
def fromSecs (secs : ℕ) : Duration := ⟨secs % 2 ^ 64, 0, Nat.mod_lt _ (by decide), by decide⟩

/-- `Duration::from_nanos` of a `u64`. -/
def fromNanos (nanos : ℕ) : Duration :=
  ⟨nanos % 2 ^ 64 / nanosPerSec, nanos % 2 ^ 64 % nanosPerSec,
    lt_of_le_of_lt (Nat.div_le_self _ _) (Nat.mod_lt _ (by decide)), Nat.mod_lt _ (by decide)⟩

/-- A duration is determined by its nanoseconds. -/
theorem toNanos_injective : Function.Injective toNanos := by
  intro d e h
  have hd := d.nanos_lt
  have he := e.nanos_lt
  simp only [toNanos, nanosPerSec] at h hd he
  exact Duration.ext (by omega) (by omega)

@[simp]
theorem toNanos_zero : zero.toNanos = 0 := rfl

/-- No duration exceeds `Duration::MAX`. -/
theorem toNanos_le_max (d : Duration) : d.toNanos ≤ max.toNanos := by
  have hs := d.secs_lt
  have hn := d.nanos_lt
  simp only [toNanos, max, nanosPerSec] at hs hn ⊢
  omega

/-- `is_zero` asks whether there are no nanoseconds. -/
theorem isZero_iff {d : Duration} : d.isZero = true ↔ d.toNanos = 0 := by
  simp only [isZero, toNanos, nanosPerSec, Bool.and_eq_true, decide_eq_true_eq]
  omega

/-- `from_nanos` keeps a `u64` of nanoseconds. -/
theorem toNanos_fromNanos {n : ℕ} (h : n < 2 ^ 64) : (fromNanos n).toNanos = n := by
  simp only [fromNanos, toNanos, Nat.mod_eq_of_lt h]
  exact Nat.div_add_mod' n nanosPerSec

/-- `from_secs` keeps a `u64` of seconds. -/
theorem toNanos_fromSecs {secs : ℕ} (h : secs < 2 ^ 64) :
    (fromSecs secs).toNanos = secs * nanosPerSec := by
  simp only [fromSecs, toNanos, Nat.mod_eq_of_lt h, Nat.add_zero]

/-- Delays in whole seconds that do not fit a `u64` are longer than every duration. -/
theorem toNanos_lt_of_le {n : ℕ} (h : 2 ^ 64 ≤ n) (d : Duration) :
    d.toNanos < n * nanosPerSec := by
  have hs := d.secs_lt
  have hn := d.nanos_lt
  simp only [toNanos, nanosPerSec] at hn ⊢
  omega

/-! ### Order -/

/-- Durations are ordered by their exact value. -/
instance : LinearOrder Duration := LinearOrder.lift' toNanos toNanos_injective

theorem le_iff {d e : Duration} : d ≤ e ↔ d.toNanos ≤ e.toNanos := Iff.rfl

theorem lt_iff {d e : Duration} : d < e ↔ d.toNanos < e.toNanos := Iff.rfl

/-- The order by value is the derived order of the struct: seconds first, then nanoseconds. -/
theorem le_iff_lex {d e : Duration} :
    d ≤ e ↔ d.secs < e.secs ∨ d.secs = e.secs ∧ d.nanos ≤ e.nanos := by
  have hd := d.nanos_lt
  have he := e.nanos_lt
  simp only [le_iff, toNanos, nanosPerSec] at hd he ⊢
  omega

/-- The minimum of two durations is taken on the nanoseconds. -/
theorem toNanos_min (d e : Duration) : (min d e).toNanos = min d.toNanos e.toNanos := by
  rcases le_total d e with h | h
  · rw [min_eq_left h, min_eq_left (le_iff.mp h)]
  · rw [min_eq_right h, min_eq_right (le_iff.mp h)]

/-! ### Arithmetic -/

/-- `Duration::saturating_mul` by a `u32`: nanoseconds carry into seconds, and a product
that does not fit is `Duration::MAX`. -/
def saturatingMul (d : Duration) (k : ℕ) : Duration :=
  let totalNanos := d.nanos * k
  let secs := d.secs * k + totalNanos / nanosPerSec
  if h : secs < 2 ^ 64 then
    ⟨secs, totalNanos % nanosPerSec, h, Nat.mod_lt _ (by decide)⟩
  else max

/-- The exact value of a saturating product. -/
theorem toNanos_saturatingMul (d : Duration) (k : ℕ) :
    (d.saturatingMul k).toNanos = min (d.toNanos * k) max.toNanos := by
  have hval : d.toNanos * k =
      (d.secs * k + d.nanos * k / nanosPerSec) * nanosPerSec + d.nanos * k % nanosPerSec := by
    calc d.toNanos * k = d.secs * k * nanosPerSec + d.nanos * k := by
          rw [toNanos, Nat.add_mul, Nat.mul_right_comm]
      _ = d.secs * k * nanosPerSec +
            (d.nanos * k / nanosPerSec * nanosPerSec + d.nanos * k % nanosPerSec) := by
          rw [Nat.div_add_mod']
      _ = _ := by rw [Nat.add_mul, Nat.add_assoc]
  have hmod : d.nanos * k % nanosPerSec < nanosPerSec := Nat.mod_lt _ (by decide)
  rw [saturatingMul, hval]
  generalize d.secs * k + d.nanos * k / nanosPerSec = secs
  split
  · next h =>
    refine (min_eq_left ?_).symm
    simp only [toNanos, max, nanosPerSec] at hmod ⊢
    omega
  · next h =>
    refine (min_eq_right ?_).symm
    simp only [toNanos, max, nanosPerSec] at h ⊢
    omega

/-! ### Rendering -/

/-- The fractional digits of a value below `10 ^ n`, up to the last non-zero one. -/
private def fractionDigits : ℕ → ℕ → String
  | 0, _ => ""
  | n + 1, frac =>
    if frac = 0 then ""
    else toString (frac / 10 ^ n) ++ fractionDigits n (frac % 10 ^ n)

/-- `fmt_decimal`: an integral part, its non-zero fraction of `n` digits, and a unit. -/
private def fmtDecimal (integral frac n : ℕ) (unit : String) : String :=
  toString integral ++ (if frac = 0 then "" else "." ++ fractionDigits n frac) ++ unit

/-- `impl Debug for Duration`, the rendering `{:?}` gives: the largest unit among `s`,
`ms`, `µs` and `ns` that leaves a non-zero integral part. -/
def debug (d : Duration) : String :=
  if 0 < d.secs then fmtDecimal d.secs d.nanos 9 "s"
  else if 1000000 ≤ d.nanos then fmtDecimal (d.nanos / 1000000) (d.nanos % 1000000) 6 "ms"
  else if 1000 ≤ d.nanos then fmtDecimal (d.nanos / 1000) (d.nanos % 1000) 3 "µs"
  else fmtDecimal d.nanos 0 1 "ns"

example : (Duration.fromNanos 1050000000).debug = "1.05s" := by decide +kernel

end Duration

/-- `Instant::duration_since` in nanoseconds; it saturates at zero. -/
def durationSince (later earlier : ℕ) : ℕ := later - earlier

end RustUtils
