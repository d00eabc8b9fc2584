import Mathlib.Tactic.Common

/-!
# Decimal numerals

An unsigned numeral is an optional plus sign and at least one decimal digit, and leading zeros do
not matter. `Numeral.Denotes` says which number it stands for. A numeral stands for one number only
(`Denotes.unique`), and the usual decimal representation of a number stands for it
(`denotes_toDigits`).
-/

namespace Numeral

/-- At least one character, and only decimal digits. -/
def Digits (s : List Char) : Prop := s ≠ [] ∧ ∀ c ∈ s, c.isDigit = true

/-- The string is a numeral of the number. -/
def Denotes (s : List Char) (n : ℕ) : Prop :=
  ∃ digits, (s = digits ∨ s = '+' :: digits) ∧ Digits digits ∧ Nat.ofDigitChars 10 digits 0 = n

theorem Digits.ne_plus {s s' : List Char} (h : Digits s) : s ≠ '+' :: s' := by
  rintro rfl
  simpa using h.2 '+' (.head _)

theorem Digits.denotes {s : List Char} (h : Digits s) : Denotes s (Nat.ofDigitChars 10 s 0) :=
  ⟨s, Or.inl rfl, h, rfl⟩

/-- A numeral stands for one number. -/
theorem Denotes.unique {s : List Char} {n m : ℕ} (hn : Denotes s n) (hm : Denotes s m) : n = m := by
  obtain ⟨digits, rfl | rfl, hdigits, rfl⟩ := hn
  · obtain ⟨digits', rfl | hsign, -, rfl⟩ := hm
    · rfl
    · exact absurd hsign hdigits.ne_plus
  · obtain ⟨digits', hplain | hsign, hdigits', rfl⟩ := hm
    · exact absurd hplain.symm hdigits'.ne_plus
    · rw [(List.cons.inj hsign).2]

/-- Reading on does not make the number smaller. -/
theorem le_ofDigitChars (s : List Char) (value : ℕ) : value ≤ Nat.ofDigitChars 10 s value := by
  induction s generalizing value with
  | nil => exact Nat.le_of_eq Nat.ofDigitChars_nil.symm
  | cons c s ih =>
    rw [Nat.ofDigitChars_cons]
    exact Nat.le_trans (by omega) (ih _)

/-- The decimal digits of a number are digits. -/
theorem digits_toDigits (n : ℕ) : Digits (Nat.toDigits 10 n) :=
  ⟨Nat.toDigits_ne_nil, fun _ hc => Nat.isDigit_of_mem_toDigits (by decide) (by decide) hc⟩

/-- The decimal representation of a number is a numeral of it. -/
theorem denotes_toDigits (n : ℕ) : Denotes (Nat.toDigits 10 n) n :=
  ⟨_, Or.inl rfl, digits_toDigits n, Nat.ofDigitChars_ten_toDigits⟩

end Numeral
