import Mathlib.Tactic.Common

/-!
# Splitting UTF-8 strings at byte offsets

A string is the list of its characters, and every character takes between one and four bytes of
its UTF-8 encoding. A byte offset need not be the boundary of a character: `Utf8.splitAt` splits a
string where it is one, and has no result elsewhere.
-/

namespace Utf8

/-- The length of a string in bytes. -/
def length : List Char → ℕ
  | [] => 0
  | c :: s => c.utf8Size + length s

/-- A string split at a byte offset, if the offset is the boundary of a character. -/
def splitAt (s : List Char) (mid : ℕ) : Option (List Char × List Char) :=
  if mid = 0 then some ([], s)
  else match s with
    | [] => none
    | c :: s =>
      if c.utf8Size ≤ mid then
        (splitAt s (mid - c.utf8Size)).map fun halves => (c :: halves.1, halves.2)
      else none

/-- The bytes of a concatenation. -/
@[simp]
theorem length_append (s t : List Char) : length (s ++ t) = length s + length t := by
  induction s with
  | nil => exact (Nat.zero_add _).symm
  | cons c s ih => rw [List.cons_append, length, length, ih, Nat.add_assoc]

theorem length_singleton (c : Char) : length [c] = c.utf8Size := rfl

theorem splitAt_zero (s : List Char) : splitAt s 0 = some ([], s) := by
  cases s <;> rfl

/-- A concatenation splits where it was joined. -/
theorem splitAt_append (l r : List Char) : splitAt (l ++ r) (length l) = some (l, r) := by
  induction l with
  | nil => exact splitAt_zero r
  | cons c l ih =>
    have hpos := c.utf8Size_pos
    rw [List.cons_append, splitAt, length, if_neg (by omega), if_pos (Nat.le_add_right _ _),
      Nat.add_sub_cancel_left, ih, Option.map_some]

/-- **A string is split exactly at the boundaries of its characters.** -/
theorem splitAt_eq_some_iff {s l r : List Char} {mid : ℕ} :
    splitAt s mid = some (l, r) ↔ s = l ++ r ∧ length l = mid := by
  refine ⟨fun h => ?_, ?_⟩
  · induction s generalizing mid l with
    | nil =>
      rw [splitAt] at h
      obtain ⟨hzero, h⟩ := Option.ite_none_right_eq_some.mp h
      obtain ⟨rfl, rfl⟩ := Prod.mk.inj (Option.some_inj.mp h)
      exact ⟨rfl, hzero.symm⟩
    | cons c s ih =>
      rw [splitAt] at h
      split at h
      · next hzero =>
        obtain ⟨rfl, rfl⟩ := Prod.mk.inj (Option.some_inj.mp h)
        exact ⟨rfl, hzero.symm⟩
      · obtain ⟨hle, h⟩ := Option.ite_none_right_eq_some.mp h
        obtain ⟨halves, hhalves, heq⟩ := Option.map_eq_some_iff.mp h
        obtain ⟨rfl, rfl⟩ := Prod.mk.inj heq
        obtain ⟨rfl, hlength⟩ := ih hhalves
        exact ⟨rfl, by rw [length, hlength, Nat.add_sub_cancel' hle]⟩
  · rintro ⟨rfl, rfl⟩
    exact splitAt_append l r

/-- The ASCII characters are those of a single byte. -/
theorem utf8Size_eq_one_iff {c : Char} : c.utf8Size = 1 ↔ c.toNat < 128 := by
  rw [Char.utf8Size_eq_one_iff, UInt32.le_iff_toNat_le]
  exact Nat.lt_succ_iff.symm

/-- The last byte of a string is a character of its own only if it is ASCII. -/
theorem splitAt_length_sub_one (s : List Char) (c : Char) :
    splitAt (s ++ [c]) (length (s ++ [c]) - 1) =
      if c.utf8Size = 1 then some (s, [c]) else none := by
  have hpos := c.utf8Size_pos
  rw [length_append, length_singleton]
  split
  · next hone =>
    rw [hone, Nat.add_sub_cancel]
    exact splitAt_append s [c]
  · next hne =>
    -- a boundary inside the last character would cut it
    refine Option.eq_none_iff_forall_ne_some.mpr fun ⟨l, r⟩ hsplit => ?_
    obtain ⟨happend, hlength⟩ := splitAt_eq_some_iff.mp hsplit
    have htotal := congrArg length happend
    rw [length_append, length_append, length_singleton] at htotal
    rcases r.eq_nil_or_concat with rfl | ⟨r, d, rfl⟩
    · rw [length] at htotal
      omega
    · rw [List.concat_eq_append, ← List.append_assoc] at happend
      obtain ⟨-, hlast⟩ := List.append_inj' happend rfl
      obtain rfl := List.singleton_inj.mp hlast
      rw [List.concat_eq_append, length_append, length_singleton] at htotal
      omega

end Utf8
