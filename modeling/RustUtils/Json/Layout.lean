import Mathlib.Algebra.Ring.Int.Defs
import Mathlib.Data.List.Induction
import Mathlib.Tactic.Common

/-!
# String literals and brackets in arbitrary bytes

Bytes that need not be JSON still have string literals: a literal is opened by a quote outside all
literals, and closed by the first quote after it that is preceded, inside the literal, by an
even-length run of backslashes. `openLiteral` is the content of the literal that is open at the end
of some bytes, and `openLiteral_eq_some_iff` says so without the recursion.

`outside` are the bytes outside all literals, and `balance` counts the brackets among them, the
opening ones up and the closing ones down.
-/

namespace Json

/-! ### Literals -/

/-- The length of the run of backslashes at the end. -/
def trailingBackslashes (body : List UInt8) : ℕ := (body.reverse.takeWhile (· = 0x5C)).length

/-- A quote after `body` closes the literal. -/
def Closes (body : List UInt8) : Prop := trailingBackslashes body % 2 = 0

instance (body : List UInt8) : Decidable (Closes body) :=
  inferInstanceAs (Decidable (trailingBackslashes body % 2 = 0))

/-- What one more byte does to the literal that is open, if there is one. -/
def literalAfter (literal : Option (List UInt8)) (byte : UInt8) : Option (List UInt8) :=
  match literal with
  | none => if byte = 0x22 then some [] else none
  | some body => if byte = 0x22 ∧ Closes body then none else some (body ++ [byte])

/-- The content of the literal that is open at the end of the bytes, if there is one. -/
def openLiteral (data : List UInt8) : Option (List UInt8) := data.foldl literalAfter none

@[simp]
theorem openLiteral_nil : openLiteral [] = none := rfl

/-- One more byte moves the open literal on. -/
@[simp]
theorem openLiteral_snoc (data : List UInt8) (byte : UInt8) :
    openLiteral (data ++ [byte]) = literalAfter (openLiteral data) byte := by
  rw [openLiteral, List.foldl_append, ← openLiteral, List.foldl_cons, List.foldl_nil]

/-- A backslash adds to the trailing ones, every other byte ends them. -/
private theorem trailingBackslashes_snoc (body : List UInt8) (byte : UInt8) :
    trailingBackslashes (body ++ [byte]) =
      if byte = 0x5C then trailingBackslashes body + 1 else 0 := by
  rw [trailingBackslashes, List.reverse_append, List.reverse_singleton, List.singleton_append,
    List.takeWhile_cons]
  by_cases hbyte : byte = 0x5C <;> simp [hbyte, trailingBackslashes]

/-- A backslash that is not itself escaped makes the next quote part of the literal, and any other
byte leaves the next quote to close it. -/
theorem closes_snoc_iff {body : List UInt8} {byte : UInt8} :
    Closes (body ++ [byte]) ↔ byte ≠ 0x5C ∨ ¬Closes body := by
  rw [Closes, Closes, trailingBackslashes_snoc]
  by_cases hbyte : byte = 0x5C
  · rw [if_pos hbyte]
    simp only [ne_eq, hbyte, not_true_eq_false, false_or]
    omega
  · simp [hbyte]

/-- **The open literal.** The literal with content `body` is open at the end of the bytes exactly
if they end with a quote outside all literals and `body`, and no quote in `body` closes it. -/
theorem openLiteral_eq_some_iff {data body : List UInt8} :
    openLiteral data = some body ↔ ∃ before, data = before ++ 0x22 :: body ∧
      openLiteral before = none ∧ ∀ xs ys, body = xs ++ 0x22 :: ys → ¬Closes xs := by
  induction data using List.reverseRecOn generalizing body with
  | nil => simp
  | append_singleton data byte ih =>
    rw [openLiteral_snoc]
    constructor
    · intro h
      cases hliteral : openLiteral data with
      | none =>
        -- the byte opens a literal
        simp only [hliteral, literalAfter, Option.ite_none_right_eq_some, Option.some_inj] at h
        obtain ⟨rfl, rfl⟩ := h
        exact ⟨data, rfl, hliteral, fun xs ys hnil => by simp at hnil⟩
      | some content =>
        -- the byte belongs to the literal
        simp only [hliteral, literalAfter, Option.ite_none_left_eq_some, Option.some_inj] at h
        obtain ⟨hopen, rfl⟩ := h
        obtain ⟨before, rfl, hbefore, hcontent⟩ := ih.mp hliteral
        refine ⟨before, by simp, hbefore, fun xs ys hsplit hcloses => ?_⟩
        rcases List.eq_nil_or_concat ys with rfl | ⟨ys, last, rfl⟩
        · obtain ⟨rfl, hbyte⟩ := List.append_inj' hsplit rfl
          exact hopen ⟨by simpa using hbyte, hcloses⟩
        · rw [List.concat_eq_append, ← List.cons_append, ← List.append_assoc] at hsplit
          exact hcontent xs ys (List.append_inj' hsplit rfl).1 hcloses
    · rintro ⟨before, hsplit, hbefore, hbody⟩
      rcases List.eq_nil_or_concat body with rfl | ⟨content, last, rfl⟩
      · obtain ⟨rfl, hbyte⟩ := List.append_inj' hsplit rfl
        obtain rfl : byte = 0x22 := by simpa using hbyte
        rw [hbefore, literalAfter, if_pos rfl]
      · rw [List.concat_eq_append] at hsplit hbody ⊢
        rw [← List.cons_append, ← List.append_assoc] at hsplit
        obtain ⟨hdata, hlast⟩ := List.append_inj' hsplit rfl
        obtain rfl : byte = last := by simpa using hlast
        have hcontent : openLiteral data = some content :=
          ih.mpr ⟨before, hdata, hbefore, fun xs ys hxs => hbody xs (ys ++ [byte]) (by simp [hxs])⟩
        rw [hcontent, literalAfter, if_neg]
        rintro ⟨rfl, hcloses⟩
        exact hbody content [] rfl hcloses

/-! ### Brackets -/

/-- The bytes outside all literals, with the quotes that open them. -/
def outside (data : List UInt8) : List UInt8 :=
  (data.zipIdx.filter fun p => (openLiteral (data.take p.2)).isNone).map Prod.fst

/-- What a byte counts. -/
def bracketValue (byte : UInt8) : ℤ :=
  if byte = 0x7B ∨ byte = 0x5B then 1 else if byte = 0x7D ∨ byte = 0x5D then -1 else 0

/-- The opening brackets outside all literals, less the closing ones. -/
def balance (data : List UInt8) : ℤ := ((outside data).map bracketValue).sum

@[simp]
theorem balance_nil : balance [] = 0 := rfl

/-- One more byte is outside the literals if none is open before it. -/
private theorem outside_snoc (data : List UInt8) (byte : UInt8) :
    outside (data ++ [byte]) =
      outside data ++ if (openLiteral data).isNone then [byte] else [] := by
  have hearlier : ∀ p ∈ data.zipIdx,
      (openLiteral ((data ++ [byte]).take p.2)).isNone = (openLiteral (data.take p.2)).isNone := by
    intro p hp
    rw [List.take_append_of_le_length (Nat.le_of_lt (List.snd_lt_of_mem_zipIdx hp))]
  rw [outside, List.zipIdx_append, List.filter_append, List.filter_congr hearlier, List.map_append,
    ← outside]
  cases hliteral : (openLiteral data).isNone <;> simp [hliteral]

/-- A byte counts if it is outside all literals. -/
theorem balance_snoc (data : List UInt8) (byte : UInt8) :
    balance (data ++ [byte]) =
      balance data + if (openLiteral data).isNone then bracketValue byte else 0 := by
  rw [balance, outside_snoc, List.map_append, List.sum_append, ← balance]
  split <;> simp

example : balance [0x7B, 0x5B, 0x22, 0x7D, 0x5C, 0x22, 0x5D, 0x22] = 2 := by decide

end Json
