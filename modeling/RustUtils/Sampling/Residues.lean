import Mathlib.Data.Int.CardIntervalMod

/-!
# Drawing from an interval by remainders

A source takes the values below `sources`, each as good as any other, and `f` makes a draw of it.
`UniformBelow f sources bound` says that the draws fill `[0, bound)` evenly: every value is drawn
from some source, no other is, and the numbers of sources of any two values differ by one at most.
There is at most one such interval (`UniformBelow.unique`), and taking the remainder fills the one
below the modulus (`uniformBelow_mod`).
-/

namespace Sampling

/-- The draws fill `[0, bound)` evenly. -/
structure UniformBelow (f : ℕ → ℕ) (sources bound : ℕ) : Prop where
  attained : ∀ v < bound, ∃ c < sources, f c = v
  below : ∀ c < sources, f c < bound
  even : ∀ v < bound, ∀ w < bound,
    Nat.count (fun c => f c = v) sources ≤ Nat.count (fun c => f c = w) sources + 1

variable {f g : ℕ → ℕ} {sources bound bound' : ℕ}

/-- Draws matter on the sources only. -/
theorem UniformBelow.congr (hf : UniformBelow f sources bound) (h : ∀ c < sources, f c = g c) :
    UniformBelow g sources bound := by
  have hcount : ∀ v, Nat.count (fun c => g c = v) sources = Nat.count (fun c => f c = v) sources :=
    fun v => Nat.le_antisymm (Nat.count_mono_left fun c hc hv => (h c hc).trans hv)
      (Nat.count_mono_left fun c hc hv => (h c hc).symm.trans hv)
  refine ⟨fun v hv => ?_, fun c hc => h c hc ▸ hf.below c hc, fun v hv w hw => ?_⟩
  · obtain ⟨c, hc, rfl⟩ := hf.attained v hv
    exact ⟨c, hc, (h c hc).symm⟩
  · rw [hcount, hcount]
    exact hf.even v hv w hw

theorem UniformBelow.bound_le (h : UniformBelow f sources bound)
    (h' : UniformBelow f sources bound') : bound ≤ bound' := by
  refine Nat.le_of_not_lt fun hlt => ?_
  obtain ⟨c, hc, hfc⟩ := h.attained bound' hlt
  exact Nat.lt_irrefl bound' (hfc ▸ h'.below c hc)

/-- The interval is determined by the draws. -/
theorem UniformBelow.unique (h : UniformBelow f sources bound)
    (h' : UniformBelow f sources bound') : bound = bound' :=
  Nat.le_antisymm (h.bound_le h') (h'.bound_le h)

/-- Remainders fill the interval below the modulus, if there are enough sources. -/
theorem uniformBelow_mod {m : ℕ} (hm : 0 < m) (hle : m ≤ sources) :
    UniformBelow (· % m) sources m := by
  have hcount : ∀ v < m, Nat.count (fun c => c % m = v) sources =
      sources / m + if v < sources % m then 1 else 0 := by
    intro v hv
    have hcard := Nat.count_modEq_card sources hm v
    simp only [Nat.ModEq, Nat.mod_eq_of_lt hv] at hcard
    exact hcard
  refine ⟨fun v hv => ⟨v, Nat.lt_of_lt_of_le hv hle, Nat.mod_eq_of_lt hv⟩,
    fun c _ => Nat.mod_lt c hm, fun v hv w hw => ?_⟩
  rw [hcount v hv, hcount w hw]
  split_ifs <;> omega

end Sampling
