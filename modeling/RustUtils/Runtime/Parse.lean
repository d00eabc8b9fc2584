import Mathlib.Algebra.Group.Nat.Defs
import Mathlib.Tactic.Common
import RustUtils.Text.Numeral

/-!
# Parsing numerals

`str::parse` for the unsigned integer types, on the characters of the string: an optional
plus sign and at least one decimal digit, without overflow. The parsed strings are exactly the
numerals of the numbers that fit the type (`parseUnsigned_eq_some_iff`). `str::trim` is written for
ASCII strings.
-/

namespace RustUtils

/-- The digits of a numeral of at most `bits` bits, read from the left. -/
def parseDigits (bits : ℕ) : List Char → ℕ → Option ℕ
  | [], value => some value
  | c :: cs, value =>
    if c.isDigit then
      let next := value * 10 + (c.toNat - '0'.toNat)
      if next < 2 ^ bits then parseDigits bits cs next else none
    else none

/-- `str::parse` for an unsigned integer of `bits` bits. -/
def parseUnsigned (bits : ℕ) : List Char → Option ℕ
  | [] => none
  | ['+'] => none
  | '+' :: digits => parseDigits bits digits 0
  | digits => parseDigits bits digits 0

/-- The white space of an ASCII string. -/
def isAsciiWhitespace (c : Char) : Bool := c = ' ' || (9 ≤ c.toNat && c.toNat ≤ 13)

/-- `str::trim` on an ASCII string. -/
def trim (s : List Char) : List Char :=
  ((s.dropWhile isAsciiWhitespace).reverse.dropWhile isAsciiWhitespace).reverse

theorem not_isAsciiWhitespace_of_isDigit {c : Char} (h : c.isDigit = true) :
    isAsciiWhitespace c = false := by
  obtain ⟨hge, -⟩ := Char.isDigit_iff_toNat.mp h
  have hzero : '0'.toNat = 48 := rfl
  rw [isAsciiWhitespace, Bool.or_eq_false_iff, decide_eq_false_iff_not, Bool.and_eq_false_iff,
    decide_eq_false_iff_not, decide_eq_false_iff_not]
  refine ⟨?_, Or.inr (by omega)⟩
  rintro rfl
  contradiction

/-- White space is dropped from the front, up to a character that is none. -/
theorem dropWhile_isAsciiWhitespace {space s : List Char}
    (hspace : ∀ c ∈ space, isAsciiWhitespace c = true)
    (hs : ∀ c ∈ s.head?, isAsciiWhitespace c = false) :
    (space ++ s).dropWhile isAsciiWhitespace = s := by
  rw [List.dropWhile_append_of_pos hspace]
  cases s with
  | nil => rfl
  | cons c s => exact List.dropWhile_cons_of_neg (by simp [hs c rfl])

/-- White space around a string without any is trimmed. -/
theorem trim_append {before s after : List Char}
    (hbefore : ∀ c ∈ before, isAsciiWhitespace c = true)
    (hafter : ∀ c ∈ after, isAsciiWhitespace c = true) (hne : s ≠ [])
    (hs : ∀ c ∈ s, isAsciiWhitespace c = false) : trim (before ++ s ++ after) = s := by
  have hfront : (before ++ (s ++ after)).dropWhile isAsciiWhitespace = s ++ after := by
    obtain ⟨c, s, rfl⟩ := List.exists_cons_of_ne_nil hne
    refine dropWhile_isAsciiWhitespace hbefore fun d hd => ?_
    obtain rfl := Option.some_inj.mp hd
    exact hs c (.head s)
  have hback : (after.reverse ++ s.reverse).dropWhile isAsciiWhitespace = s.reverse := by
    refine dropWhile_isAsciiWhitespace (fun c hc => hafter c (List.mem_reverse.mp hc))
      fun c hc => hs c ?_
    exact List.mem_reverse.mp (List.mem_of_mem_head? hc)
  rw [trim, List.append_assoc, hfront, List.reverse_append, hback, List.reverse_reverse]

/-- Digits are read without overflow exactly if their value fits, for the partial results only
grow. -/
theorem parseDigits_eq_some_iff {bits : ℕ} {s : List Char} {value n : ℕ}
    (hvalue : value < 2 ^ bits) : parseDigits bits s value = some n ↔
      (∀ c ∈ s, c.isDigit = true) ∧ Nat.ofDigitChars 10 s value = n ∧ n < 2 ^ bits := by
  induction s generalizing value with
  | nil =>
    rw [parseDigits, Option.some_inj, Nat.ofDigitChars_nil]
    exact ⟨fun h => ⟨by simp, h, h ▸ hvalue⟩, fun h => h.2.1⟩
  | cons c s ih =>
    rw [Nat.ofDigitChars_cons, Nat.mul_comm 10 value, List.forall_mem_cons, parseDigits]
    simp only [Option.ite_none_right_eq_some]
    constructor
    · rintro ⟨hdigit, hnext, hrest⟩
      obtain ⟨hdigits, heq, hlt⟩ := (ih hnext).mp hrest
      exact ⟨⟨hdigit, hdigits⟩, heq, hlt⟩
    · rintro ⟨⟨hdigit, hdigits⟩, heq, hlt⟩
      have hnext := Nat.lt_of_le_of_lt (heq ▸ Numeral.le_ofDigitChars s _) hlt
      exact ⟨hdigit, hnext, (ih hnext).mpr ⟨hdigits, heq, hlt⟩⟩

/-- **A parsed string is a numeral** of a number that fits the type. -/
theorem parseUnsigned_eq_some_iff {bits : ℕ} {s : List Char} {n : ℕ} :
    parseUnsigned bits s = some n ↔ Numeral.Denotes s n ∧ n < 2 ^ bits := by
  have hread : ∀ digits : List Char, parseDigits bits digits 0 = some n ↔
      (∀ c ∈ digits, c.isDigit = true) ∧ Nat.ofDigitChars 10 digits 0 = n ∧ n < 2 ^ bits :=
    fun digits => parseDigits_eq_some_iff (Nat.two_pow_pos bits)
  unfold parseUnsigned
  split
  · refine iff_of_false (by simp) ?_
    rintro ⟨⟨digits, rfl | hsign, ⟨hne, -⟩, -⟩, -⟩
    · exact hne rfl
    · contradiction
  · refine iff_of_false (by simp) ?_
    rintro ⟨⟨digits, rfl | hsign, hdigits, -⟩, -⟩
    · exact hdigits.ne_plus rfl
    · exact hdigits.1 (List.cons.inj hsign).2.symm
  · next digits hne =>
    rw [hread]
    constructor
    · rintro ⟨hdigits, heq, hlt⟩
      exact ⟨⟨digits, Or.inr rfl, ⟨fun hnil => hne (hnil ▸ rfl), hdigits⟩, heq⟩, hlt⟩
    · rintro ⟨⟨digits', hplain | hsign, hdigits, heq⟩, hlt⟩
      · exact absurd hplain.symm hdigits.ne_plus
      · rw [(List.cons.inj hsign).2]
        exact ⟨hdigits.2, heq, hlt⟩
  · next hnil hplus hsigned =>
    rw [hread]
    constructor
    · rintro ⟨hdigits, heq, hlt⟩
      exact ⟨⟨s, Or.inl rfl, ⟨hnil, hdigits⟩, heq⟩, hlt⟩
    · rintro ⟨⟨digits, rfl | hsign, hdigits, heq⟩, hlt⟩
      · exact ⟨hdigits.2, heq, hlt⟩
      · exact absurd hsign (hsigned digits)

/-- A numeral is parsed if its number fits the type. -/
theorem parseUnsigned_of_denotes {s : List Char} {n : ℕ} (h : Numeral.Denotes s n) (bits : ℕ) :
    parseUnsigned bits s = if n < 2 ^ bits then some n else none := by
  split
  · next hlt => exact parseUnsigned_eq_some_iff.mpr ⟨h, hlt⟩
  · next hge =>
    refine Option.eq_none_iff_forall_ne_some.mpr fun m hm => ?_
    obtain ⟨hdenotes, hlt⟩ := parseUnsigned_eq_some_iff.mp hm
    exact hge (h.unique hdenotes ▸ hlt)

end RustUtils
