import Mathlib.Tactic.Common

/-!
# Secrets

`Secret` hides a value, and compares two of them byte by byte without stopping at a difference. The
loop is written with its accumulator and with its indexing, which is `none` where it would panic.
Since an or of bytes is zero only if all of them are, no difference cancels another one, and
`Secret.ctEq_eq` makes the comparison decide equality of the bytes.
-/

namespace RustUtils

/-- `AsRef<[u8]>`. -/
class AsRef (α : Type) where
  asRef : α → List UInt8

/-- `Secret`. -/
structure Secret (α : Type) where
  /-- `Secret::new`. -/
  new ::
  /-- `Secret::expose`. -/
  expose : α

/-- The loop of `constant_time_eq` over the indices: the differences of the bytes are collected in
`diff`, and an index out of bounds is a panic. -/
def accumulateDiff (a b : List UInt8) : List ℕ → UInt8 → Option UInt8
  | [], diff => some diff
  | i :: is, diff => do
    let x ← a[i]?
    let y ← b[i]?
    accumulateDiff a b is (diff ||| (x ^^^ y))

/-- `constant_time_eq`. -/
def constantTimeEq (a b : List UInt8) : Option Bool :=
  if a.length ≠ b.length then some false
  else do
    let diff ← accumulateDiff a b (List.range a.length) 0
    some (diff = 0)

/-- `Secret::ct_eq`. -/
def Secret.ctEq {α : Type} [AsRef α] (s other : Secret α) : Option Bool :=
  constantTimeEq (AsRef.asRef s.expose) (AsRef.asRef other.expose)

/-- Over indices in bounds the loop ends, and its accumulator is zero exactly if it was and the
bytes agree at all of them. -/
private theorem accumulateDiff_spec {a b : List UInt8} {is : List ℕ}
    (hbounds : ∀ i ∈ is, i < a.length ∧ i < b.length) (diff : UInt8) :
    ∃ d, accumulateDiff a b is diff = some d ∧
      (d = 0 ↔ diff = 0 ∧ ∀ i ∈ is, a[i]? = b[i]?) := by
  induction is generalizing diff with
  | nil => exact ⟨diff, rfl, by simp⟩
  | cons i is ih =>
    obtain ⟨⟨ha, hb⟩, hrest⟩ := List.forall_mem_cons.mp hbounds
    obtain ⟨d, hd, hzero⟩ := ih hrest (diff ||| (a[i] ^^^ b[i]))
    refine ⟨d, ?_, ?_⟩
    · rw [accumulateDiff, List.getElem?_eq_getElem ha, List.getElem?_eq_getElem hb]
      exact hd
    · rw [hzero, UInt8.or_eq_zero_iff, UInt8.xor_eq_zero_iff, List.forall_mem_cons,
        List.getElem?_eq_getElem ha, List.getElem?_eq_getElem hb, Option.some_inj, and_assoc]

/-- The comparison of byte strings decides equality, and does not panic. -/
private theorem constantTimeEq_eq (a b : List UInt8) :
    constantTimeEq a b = some (decide (a = b)) := by
  by_cases hlength : a.length = b.length
  · have hbounds : ∀ i ∈ List.range a.length, i < a.length ∧ i < b.length := by
      intro i hi
      have hlt := List.mem_range.mp hi
      exact ⟨hlt, hlength ▸ hlt⟩
    obtain ⟨d, hd, hzero⟩ := accumulateDiff_spec hbounds 0
    have heq : d = 0 ↔ a = b := by
      rw [hzero]
      refine ⟨fun ⟨_, hall⟩ => List.ext_getElem? fun i => ?_, by rintro rfl; simp⟩
      by_cases hi : i < a.length
      · exact hall i (List.mem_range.mpr hi)
      · rw [List.getElem?_eq_none (by omega), List.getElem?_eq_none (by omega)]
    rw [constantTimeEq, if_neg (not_not_intro hlength), hd, Option.bind_eq_bind, Option.bind_some]
    simp only [heq]
  · have hne : a ≠ b := fun heq => hlength (congrArg List.length heq)
    rw [constantTimeEq, if_pos hlength, decide_eq_false hne]

/-- **`ct_eq` decides equality of the bytes**, of any lengths, and never indexes out of bounds. -/
theorem Secret.ctEq_eq {α : Type} [AsRef α] (s other : Secret α) :
    s.ctEq other = some (decide (AsRef.asRef s.expose = AsRef.asRef other.expose)) :=
  constantTimeEq_eq _ _

end RustUtils
