import RustUtils.BackoffCurve
import RustUtils.Network.Retry

/-!
# `Retry-After` headers

A header asks for a number of seconds if it is a string of decimal digits with white space around
it (`Response.Asks`). The parser reads it as a `u64`, so `parseRetryAfter_of_asks` has a result up
to `2^64 - 1` only, and a longer wait is treated as no header at all. Where the backoff that is
taken instead ends at the cap nothing is lost; everywhere else the server is asked again too early
(`RetryPolicy.Honours`).
-/

namespace RustUtils

/-- An ASCII string as the bytes of a header. -/
def HeaderValue.ofChars (s : List Char) : HeaderValue := s.map fun c => UInt8.ofNat c.toNat

/-- The header asks for `n` seconds: decimal digits of any length, with white space around. -/
def Response.Asks (resp : Response) (n : ℕ) : Prop :=
  ∃ before digits after, resp.retryAfter = some (.ofChars (before ++ digits ++ after)) ∧
    (∀ c ∈ before ++ after, c = ' ' ∨ c = '\t') ∧ Numeral.Digits digits ∧
    Nat.ofDigitChars 10 digits 0 = n

/-- The response of a server that asks for `n` seconds. -/
def Response.asking (n : ℕ) : Response :=
  ⟨.tooManyRequests, some (.ofChars (Nat.toDigits 10 n))⟩

/-- Visible ASCII characters are read back. -/
private theorem HeaderValue.toStr_ofChars {s : List Char}
    (h : ∀ c ∈ s, 32 ≤ c.toNat ∧ c.toNat < 127 ∨ c = '\t') : (ofChars s).toStr = some s := by
  have hbyte : ∀ c ∈ s, (UInt8.ofNat c.toNat).toNat = c.toNat := by
    intro c hc
    have htab : '\t'.toNat = 9 := rfl
    rw [UInt8.toNat_ofNat', Nat.mod_eq_of_lt]
    rcases h c hc with ⟨-, hlt⟩ | rfl
    · omega
    · decide
  have hvisible : (ofChars s).all (fun b => (32 ≤ b && b < 127) || b = 9) = true := by
    rw [ofChars, List.all_map, List.all_eq_true]
    intro c hc
    simp only [Function.comp_apply, Bool.or_eq_true, Bool.and_eq_true, decide_eq_true_eq,
      UInt8.le_iff_toNat_le, UInt8.lt_iff_toNat_lt, hbyte c hc]
    rcases h c hc with hlt | rfl
    · exact Or.inl hlt
    · exact Or.inr rfl
  have hchars : (ofChars s).map (fun b => Char.ofNat b.toNat) = s := by
    rw [ofChars, List.map_map]
    refine (List.map_congr_left fun c hc => ?_).trans (List.map_id s)
    rw [Function.comp_apply, hbyte c hc, Char.ofNat_toNat, id]
  rw [toStr, if_pos hvisible, hchars]

/-- The header that asks for `n` seconds is parsed if `n` fits a `u64`. -/
private theorem parseRetryAfter_of_asks {resp : Response} {n : ℕ} (h : resp.Asks n) :
    parseRetryAfter resp = if n < 2 ^ 64 then some (Duration.fromSecs n) else none := by
  obtain ⟨before, digits, after, hheader, hspace, hdigits, rfl⟩ := h
  have hwhite : ∀ c ∈ before ++ after, isAsciiWhitespace c = true := by
    intro c hc
    rcases hspace c hc with rfl | rfl <;> rfl
  have hstr : (HeaderValue.ofChars (before ++ digits ++ after)).toStr =
      some (before ++ digits ++ after) := by
    refine HeaderValue.toStr_ofChars fun c hc => ?_
    have hmem : c ∈ before ++ after ∨ c ∈ digits := by
      simp only [List.mem_append] at hc ⊢
      tauto
    rcases hmem with hc | hc
    · rcases hspace c hc with rfl | rfl
      · exact Or.inl ⟨by decide, by decide⟩
      · exact Or.inr rfl
    · have hdigit := Char.isDigit_iff_toNat.mp (hdigits.2 c hc)
      have hzero : '0'.toNat = 48 := rfl
      have hnine : '9'.toNat = 57 := rfl
      omega
  have htrim : trim (before ++ digits ++ after) = digits :=
    trim_append (fun c hc => hwhite c (List.mem_append_left _ hc))
      (fun c hc => hwhite c (List.mem_append_right _ hc)) hdigits.1
      fun c hc => not_isAsciiWhitespace_of_isDigit (hdigits.2 c hc)
  simp only [parseRetryAfter, hheader, Option.bind_eq_bind, Option.bind_some, hstr, htrim,
    parseUnsigned_of_denotes hdigits.denotes]
  split <;> rfl

private theorem Response.asks_asking (n : ℕ) : (asking n).Asks n := by
  refine ⟨[], Nat.toDigits 10 n, [], ?_, by simp, Numeral.digits_toDigits n,
    Nat.ofDigitChars_ten_toDigits⟩
  rw [asking, List.nil_append, List.append_nil]

namespace RetryPolicy

variable (policy : RetryPolicy)

/-- The condition on which the delay after an attempt is what a header of `n` seconds asks for: the
number fits a `u64`, or the backoff that is taken instead ends at the cap as well. -/
def Honours (attempt n : ℕ) : Prop :=
  n < 2 ^ 64 ∨ policy.maxBackoff.toNanos = 0 ∨
    policy.jitter = false ∧ policy.maxBackoff.toNanos ≤
      policy.baseBackoff.toNanos * min (2 ^ (attempt - 1)) (2 ^ 32 - 1)

variable {policy}

/-- What `compute_delay` does with a header that asks for `n` seconds. -/
private theorem computeDelay_of_asks {resp : Response} {n : ℕ} (h : resp.Asks n) (attempt : ℕ)
    (wall : ℤ) : policy.computeDelay attempt (.ok resp) wall =
      if n < 2 ^ 64 then min (Duration.fromSecs n) policy.maxBackoff
      else RustUtils.computeDelay policy.baseBackoff policy.maxBackoff attempt policy.jitter
        wall := by
  rw [computeDelay, parseRetryAfter_of_asks h]
  by_cases hfits : n < 2 ^ 64
  · rw [if_pos hfits, if_pos hfits]
  · rw [if_neg hfits, if_neg hfits]

private theorem toNanos_computeDelay_eq_iff {resp : Response} {n : ℕ} (h : resp.Asks n)
    (attempt : ℕ)
    (wall : ℤ) : (policy.computeDelay attempt (.ok resp) wall).toNanos =
      min (n * nanosPerSec) policy.maxBackoff.toNanos ↔ policy.Honours attempt n := by
  rw [computeDelay_of_asks h, Honours]
  by_cases hfits : n < 2 ^ 64
  · rw [if_pos hfits, Duration.toNanos_min, Duration.toNanos_fromSecs hfits]
    exact iff_of_true rfl (Or.inl hfits)
  · have hlt := policy.maxBackoff.toNanos_lt_of_le (Nat.le_of_not_lt hfits)
    rw [if_neg hfits, Nat.min_eq_right hlt.le, toNanos_computeDelay_eq_max_iff]
    exact (or_iff_right hfits).symm

private theorem computeDelay_le_maxBackoff {resp : Response} {n : ℕ} (h : resp.Asks n) (attempt : ℕ)
    (wall : ℤ) : policy.computeDelay attempt (.ok resp) wall ≤ policy.maxBackoff := by
  rw [computeDelay_of_asks h]
  split
  · exact min_le_right _ _
  · exact computeDelay_le _ _ _ _ _

/-- **When `Retry-After` is honoured.** The delay after a response whose header asks for `n` seconds
is the number of seconds, capped, if and only if it fits a `u64`, or the cap is zero, or the backoff
without jitter has reached the cap. Then a header that asks for less does not lead to a longer
delay, after any attempt. -/
theorem computeDelay_honours_iff {resp : Response} {n : ℕ} (h : resp.Asks n) (attempt : ℕ)
    (wall : ℤ) :
    ((policy.computeDelay attempt (.ok resp) wall).toNanos =
        min (n * nanosPerSec) policy.maxBackoff.toNanos ↔ policy.Honours attempt n) ∧
      (policy.Honours attempt n → ∀ resp' m, Response.Asks resp' m → m ≤ n → ∀ attempt' wall',
        policy.computeDelay attempt' (.ok resp') wall' ≤
          policy.computeDelay attempt (.ok resp) wall) := by
  refine ⟨toNanos_computeDelay_eq_iff h attempt wall, ?_⟩
  intro hn resp' m h' hle attempt' wall'
  have hdelay := (toNanos_computeDelay_eq_iff h attempt wall).mpr hn
  rw [Duration.le_iff, hdelay]
  refine Nat.le_min.mpr ⟨?_, computeDelay_le_maxBackoff h' attempt' wall'⟩
  by_cases hfits : m < 2 ^ 64
  · -- the smaller number is taken as it is
    have hdelay' : (policy.computeDelay attempt' (.ok resp') wall').toNanos =
        min (m * nanosPerSec) policy.maxBackoff.toNanos :=
      (toNanos_computeDelay_eq_iff h' attempt' wall').mpr (Or.inl hfits)
    have hmul : m * nanosPerSec ≤ n * nanosPerSec := Nat.mul_le_mul_right _ hle
    omega
  · exact (Duration.toNanos_lt_of_le (by omega) _).le

/-- A header with white space around, under the default cap of thirty seconds. -/
theorem computeDelay_honours_iff_capped :
    (default.computeDelay 1
        (.ok ⟨.tooManyRequests, some (.ofChars [' ', '1', '2', '0', '\t'])⟩) 0).toNanos =
      min (120 * nanosPerSec) default.maxBackoff.toNanos :=
  (computeDelay_honours_iff (n := 120) ⟨[' '], ['1', '2', '0'], ['\t'], rfl, by simp,
    ⟨by simp, by simp⟩, rfl⟩ 1 0).1.mpr (Or.inl (by decide))

/-- One second more than a `u64` holds, and the next request is sent at once instead of thirty
seconds later. -/
theorem computeDelay_not_honours :
    (∀ n, (Response.asking n).Asks n) ∧
      (default.computeDelay 1 (.ok (.asking (2 ^ 64 - 1))) 0).toNanos = 30 * nanosPerSec ∧
      (default.computeDelay 1 (.ok (.asking (2 ^ 64))) 0).toNanos = 0 ∧
      min (2 ^ 64 * nanosPerSec) default.maxBackoff.toNanos = 30 * nanosPerSec := by
  refine ⟨Response.asks_asking, ?_, ?_, by decide⟩
  · rw [computeDelay_of_asks (Response.asks_asking _), if_pos (by decide)]
    decide
  · rw [computeDelay_of_asks (Response.asks_asking _), if_neg (by decide)]
    decide

end RetryPolicy

end RustUtils
