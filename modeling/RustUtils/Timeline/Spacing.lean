import Mathlib.Algebra.Order.Floor.Div
import Mathlib.Tactic.Common

/-!
# Spaced timelines

`Spaced m ts`: any two entries of the timeline `ts`, in order, are at least `m` apart. It
is a statement about all pairs; `spaced_snoc_iff` reduces an extension at the end to one
comparison with the last entry, which is all a program ever makes.

A spaced timeline cannot crowd: a half-open interval of length `len` holds at most
`len ⌈/⌉ m` of its entries (`Spaced.length_le_ceilDiv`).

`Apart gaps ts` gives every gap a bound of its own. The bounds add up from any entry to any later
one (`Apart.sum_le`), and a bound for all of them spaces the timeline (`Apart.spaced`).
-/

namespace Timeline

/-- Any two entries, in order, are at least `m` apart. -/
def Spaced (m : ℕ) (ts : List ℕ) : Prop := ts.Pairwise fun s t => s + m ≤ t

variable {m : ℕ} {ts : List ℕ}

@[simp]
theorem spaced_nil : Spaced m [] := List.Pairwise.nil

/-- Extending a spaced timeline: the last entry is the latest, so it is the only one the
new entry has to be compared with. -/
theorem spaced_snoc_iff {t : ℕ} :
    Spaced m (ts ++ [t]) ↔ Spaced m ts ∧ ∀ s, ts.getLast? = some s → s + m ≤ t := by
  rw [Spaced, List.pairwise_append]
  constructor
  · rintro ⟨hts, -, hcross⟩
    exact ⟨hts, fun s hs => hcross s (List.mem_of_getLast? hs) t (by simp)⟩
  · rintro ⟨hts, hlast⟩
    refine ⟨hts, List.pairwise_singleton _ t, fun s hs t' ht' => ?_⟩
    obtain rfl := List.mem_singleton.mp ht'
    -- the last entry stands between every earlier one and the new one
    obtain ⟨ys, last, rfl⟩ := (List.eq_nil_or_concat' ts).resolve_left (List.ne_nil_of_mem hs)
    have hl : last + m ≤ t' := hlast last (by simp)
    rcases List.mem_append.mp hs with hs | hs
    · have hsl : s + m ≤ last := (List.pairwise_append.mp hts).2.2 s hs last (by simp)
      omega
    · obtain rfl := List.mem_singleton.mp hs
      exact hl

theorem Spaced.sublist {us : List ℕ} (h : Spaced m ts) (hsub : us.Sublist ts) : Spaced m us :=
  List.Pairwise.sublist hsub h

/-- Every further entry pushes the end of the timeline by at least `m`. -/
private theorem Spaced.add_length_mul_lt {t b : ℕ} (h : Spaced m (t :: ts))
    (hb : ∀ u ∈ t :: ts, u < b) : t + ts.length * m < b := by
  induction ts generalizing t with
  | nil => simpa using hb t (by simp)
  | cons u ts ih =>
    have htu : t + m ≤ u := (List.pairwise_cons.mp h).1 u (by simp)
    have hrest : u + ts.length * m < b :=
      ih (List.pairwise_cons.mp h).2 fun v hv => hb v (List.mem_cons_of_mem _ hv)
    rw [List.length_cons, Nat.succ_mul]
    omega

/-- **No crowding.** A half-open interval of length `len` holds at most `len ⌈/⌉ m` entries
of a timeline whose entries are at least `m` apart. -/
theorem Spaced.length_le_ceilDiv (hm : 0 < m) (h : Spaced m ts) {a len : ℕ}
    (hmem : ∀ t ∈ ts, a ≤ t ∧ t < a + len) : ts.length ≤ len ⌈/⌉ m := by
  cases ts with
  | nil => exact Nat.zero_le _
  | cons t ts =>
    -- from the first entry on, the others take up `ts.length * m` of the interval
    have hend : t + ts.length * m < a + len := h.add_length_mul_lt fun u hu => (hmem u hu).2
    have hstart : a ≤ t := (hmem t (by simp)).1
    by_contra hlt
    have hle : len ⌈/⌉ m ≤ ts.length := by
      rw [List.length_cons] at hlt
      omega
    have hlen : len ≤ m * ts.length := (ceilDiv_le_iff_le_mul hm).mp hle
    rw [Nat.mul_comm] at hlen
    omega

/-! ### Timelines with a bound for each gap -/

/-- Between entry `k` and the next one is at least gap `k`. -/
def Apart (gaps ts : List ℕ) : Prop :=
  ∀ (k : ℕ) a b, ts[k]? = some a → ts[k + 1]? = some b → ∃ g, gaps[k]? = some g ∧ a + g ≤ b

variable {gaps : List ℕ}

theorem apart_singleton (t : ℕ) : Apart gaps [t] := fun k a b _ hb => by simp at hb

theorem Apart.left (h : Apart gaps ts) (more : List ℕ) : Apart (gaps ++ more) ts := by
  intro k a b ha hb
  obtain ⟨g, hg, hle⟩ := h k a b ha hb
  exact ⟨g, (List.getElem?_append_left (List.getElem?_eq_some_iff.mp hg).1).trans hg, hle⟩

theorem Apart.init {t : ℕ} (h : Apart gaps (ts ++ [t])) : Apart gaps ts := by
  intro k a b ha hb
  have hk := (List.getElem?_eq_some_iff.mp ha).1
  have hk' := (List.getElem?_eq_some_iff.mp hb).1
  exact h k a b ((List.getElem?_append_left hk).trans ha) ((List.getElem?_append_left hk').trans hb)

/-- A later last entry is as far apart. -/
theorem Apart.later {t t' : ℕ} (h : Apart gaps (ts ++ [t])) (hle : t ≤ t') :
    Apart gaps (ts ++ [t']) := by
  intro k a b ha hb
  have hk : k + 1 < (ts ++ [t']).length := (List.getElem?_eq_some_iff.mp hb).1
  rw [List.length_append, List.length_singleton] at hk
  have hlt : k < ts.length := by omega
  rw [List.getElem?_append_left hlt] at ha
  rcases Nat.lt_or_ge (k + 1) ts.length with hlast | hlast
  · rw [List.getElem?_append_left hlast] at hb
    exact h.init k a b ha hb
  · obtain rfl : t' = b := by
      rw [List.getElem?_append_right hlast] at hb
      simpa [show k + 1 - ts.length = 0 by omega] using hb
    have hnext : (ts ++ [t])[k + 1]? = some t := by
      rw [List.getElem?_append_right hlast]
      simp [show k + 1 - ts.length = 0 by omega]
    obtain ⟨g, hg, hgap⟩ := h k a t ((List.getElem?_append_left hlt).trans ha) hnext
    exact ⟨g, hg, hgap.trans hle⟩

/-- One more entry, behind a gap of its own. -/
theorem Apart.snoc {a g t : ℕ} (h : Apart gaps (ts ++ [a])) (hlength : gaps.length = ts.length)
    (hle : a + g ≤ t) : Apart (gaps ++ [g]) (ts ++ [a] ++ [t]) := by
  intro k b c hb hc
  have hk : k + 1 < (ts ++ [a] ++ [t]).length := (List.getElem?_eq_some_iff.mp hc).1
  simp only [List.length_append, List.length_singleton] at hk
  rcases Nat.lt_or_ge k ts.length with hlt | hge
  · have hboth : k + 1 < (ts ++ [a]).length := by
      rw [List.length_append, List.length_singleton]
      omega
    rw [List.getElem?_append_left (Nat.lt_of_succ_lt hboth)] at hb
    rw [List.getElem?_append_left hboth] at hc
    exact h.left [g] k b c hb hc
  · obtain rfl : k = ts.length := by omega
    have hb' : a = b := by simpa using hb
    have hc' : t = c := by simpa using hc
    subst hb' hc'
    exact ⟨g, by simp [← hlength], hle⟩

/-- The gaps add up. -/
theorem Apart.sum_le (h : Apart gaps ts) {j k a b : ℕ} (hjk : j ≤ k) (ha : ts[j]? = some a)
    (hb : ts[k]? = some b) : a + ((gaps.take k).drop j).sum ≤ b := by
  induction k, hjk using Nat.le_induction generalizing b with
  | base =>
    obtain rfl := Option.some_inj.mp (ha.symm.trans hb)
    have hnil : (gaps.take j).drop j = [] := List.drop_eq_nil_of_le (List.length_take_le _ _)
    rw [hnil]
    simp
  | succ k hjk ih =>
    have hk : k < ts.length := Nat.lt_of_succ_lt (List.getElem?_eq_some_iff.mp hb).1
    obtain ⟨g, hg, hle⟩ := h k ts[k] b (List.getElem?_eq_getElem hk) hb
    have hlater := ih (List.getElem?_eq_getElem hk)
    have hlength : j ≤ (gaps.take k).length := by
      rw [List.length_take]
      have := (List.getElem?_eq_some_iff.mp hg).1
      omega
    rw [List.take_add_one, hg, Option.toList_some, List.drop_append_of_le_length hlength,
      List.sum_append, List.sum_singleton]
    omega

/-- A bound for all gaps spaces the timeline. -/
theorem Apart.spaced (h : Apart gaps ts) (hm : ∀ g ∈ gaps, m ≤ g) : Spaced m ts := by
  refine List.pairwise_iff_getElem.mpr fun i j hi hj hij => ?_
  obtain ⟨g, hg, hle⟩ := h i ts[i] ts[i + 1] (List.getElem?_eq_getElem hi)
    (List.getElem?_eq_getElem (by omega))
  have hlater := h.sum_le (show i + 1 ≤ j from hij) (List.getElem?_eq_getElem (by omega))
    (List.getElem?_eq_getElem hj)
  have hgap := hm g (List.mem_of_getElem? hg)
  omega

end Timeline
