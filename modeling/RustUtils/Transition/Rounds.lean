import Mathlib.Algebra.Group.Nat.Defs
import Mathlib.Order.Bounds.Defs
import Mathlib.Order.Lattice.Nat
import Mathlib.Tactic.Common

/-!
# Loops of numbered rounds

A loop makes numbered rounds on a state until one of them stops it, and at most as many as its
budget. `Rounds.start` is the state in which a round starts if no earlier one stops the loop,
and `Rounds.last` the number of rounds after the first: the least at which a round stops or the
budget is used up (`Rounds.isLeast_last`).

`Rounds.eq_last` is the loop rule. A function on states that a round which does not stop leaves
unchanged has, at the beginning of the loop, the value it has at the last round, so what a loop
returns is what its last round returns. `Rounds.trace` collects what the rounds leave behind.
-/

namespace Transition

universe u v w

/-- Numbered rounds on a state. -/
structure Rounds (σ : Type u) where
  /-- The round, started in this state, stops the loop. -/
  stops : ℕ → σ → Bool
  /-- The state after the round, if it does not. -/
  next : ℕ → σ → σ

namespace Rounds

variable {σ : Type u} {β : Type v} {ε : Type w} (R : Rounds σ)

/-- The state in which round `k + j` starts, if round `k` starts in `s` and no round before it
stops the loop. -/
def start : ℕ → σ → ℕ → σ
  | _, s, 0 => s
  | k, s, j + 1 => start (k + 1) (R.next k s) j

/-- How many rounds the loop makes after round `k`, with `n` further ones to go. -/
def last : ℕ → ℕ → σ → ℕ
  | 0, _, _ => 0
  | n + 1, k, s => if R.stops k s then 0 else last n (k + 1) (R.next k s) + 1

/-- What the rounds of the loop leave behind. -/
def trace (leaves : ℕ → σ → List ε) : ℕ → ℕ → σ → List ε
  | 0, k, s => leaves k s
  | n + 1, k, s => leaves k s ++ if R.stops k s then [] else trace leaves n (k + 1) (R.next k s)

variable {R}

/-- The state of a round is the one its predecessor leaves. -/
theorem start_succ (k : ℕ) (s : σ) (j : ℕ) :
    R.start k s (j + 1) = R.next (k + j) (R.start k s j) := by
  induction j generalizing k s with
  | zero => rfl
  | succ j ih => rw [start, ih (k + 1) (R.next k s), Nat.add_right_comm, Nat.add_assoc, start]

theorem last_of_stops {n k : ℕ} {s : σ} (h : R.stops k s = true) : R.last n k s = 0 := by
  cases n with
  | zero => rfl
  | succ n => rw [last, if_pos h]

theorem last_of_not_stops {n k : ℕ} {s : σ} (h : R.stops k s = false) :
    R.last (n + 1) k s = R.last n (k + 1) (R.next k s) + 1 := by
  rw [last, if_neg (by simp [h])]

theorem trace_of_stops {leaves : ℕ → σ → List ε} {n k : ℕ} {s : σ} (h : R.stops k s = true) :
    R.trace leaves n k s = leaves k s := by
  cases n with
  | zero => rfl
  | succ n => rw [trace, if_pos h, List.append_nil]

theorem last_le (n k : ℕ) (s : σ) : R.last n k s ≤ n := by
  induction n generalizing k s with
  | zero => exact le_rfl
  | succ n ih =>
    rw [last]
    split
    · exact Nat.zero_le _
    · exact Nat.succ_le_succ (ih (k + 1) (R.next k s))

/-- The last round stops the loop, or uses up the budget. -/
theorem stops_last (n k : ℕ) (s : σ) :
    R.last n k s = n ∨ R.stops (k + R.last n k s) (R.start k s (R.last n k s)) = true := by
  induction n generalizing k s with
  | zero => exact Or.inl rfl
  | succ n ih =>
    cases hstops : R.stops k s with
    | true =>
      rw [last_of_stops hstops]
      exact Or.inr hstops
    | false =>
      rw [last_of_not_stops hstops, start]
      refine (ih (k + 1) (R.next k s)).imp (congrArg (· + 1)) fun h => ?_
      rwa [← Nat.add_assoc, Nat.add_right_comm]

/-- No round before the last one stops the loop. -/
theorem not_stops_of_lt {n k j : ℕ} {s : σ} (h : j < R.last n k s) :
    R.stops (k + j) (R.start k s j) = false := by
  induction n generalizing k s j with
  | zero => exact absurd h (Nat.not_lt_zero j)
  | succ n ih =>
    cases hstops : R.stops k s with
    | true =>
      rw [last_of_stops hstops] at h
      exact absurd h (Nat.not_lt_zero j)
    | false =>
      rw [last_of_not_stops hstops] at h
      cases j with
      | zero => exact hstops
      | succ j =>
        rw [start, ← Nat.add_assoc, Nat.add_right_comm]
        exact ih (Nat.lt_of_succ_lt_succ h)

/-- **The loop makes the least number of rounds** after which a round stops it or the budget is
used up. -/
theorem isLeast_last (n k : ℕ) (s : σ) :
    IsLeast {j | j = n ∨ R.stops (k + j) (R.start k s j) = true} (R.last n k s) := by
  refine ⟨stops_last n k s, fun j hj => Nat.le_of_not_lt fun hlt => ?_⟩
  rcases hj with rfl | hstops
  · exact absurd (last_le j k s) (Nat.not_le_of_lt hlt)
  · rw [not_stops_of_lt hlt] at hstops
    contradiction

/-- **The least round with a reason** to be the last one: the rounds are numbered from one, and
the reasons are that the round stops the loop or that it uses up the budget. -/
theorem isLeast_reason {P : ℕ → σ → Prop} {n : ℕ} {s : σ}
    (hstops : ∀ i s, i ≤ n + 1 → i = n + 1 ∨ R.stops i s = true → P i s)
    (hreason : ∀ i s, P i s → R.stops i s = true ∨ i = n + 1) :
    IsLeast {i | 0 < i ∧ P i (R.start 1 s (i - 1))} (R.last n 1 s + 1) := by
  obtain ⟨hmem, hmin⟩ := R.isLeast_last n 1 s
  refine ⟨⟨Nat.succ_pos _, hstops _ _ (Nat.succ_le_succ (R.last_le n 1 s)) ?_⟩, ?_⟩
  · rw [Nat.add_sub_cancel, Nat.add_comm _ 1]
    exact hmem.imp_left fun hlast => by rw [hlast, Nat.add_comm]
  · rintro i ⟨hi, hP⟩
    obtain ⟨j, rfl⟩ : ∃ j, i = 1 + j := ⟨i - 1, by omega⟩
    rw [Nat.add_sub_cancel_left] at hP
    rw [Nat.add_comm 1 j]
    exact Nat.succ_le_succ (hmin ((hreason _ _ hP).symm.imp_left fun hbudget => by omega))

/-- **The loop rule.** -/
theorem eq_last {f : ℕ → ℕ → σ → β}
    (h : ∀ n k s, R.stops k s = false → f (n + 1) k s = f n (k + 1) (R.next k s))
    (n k : ℕ) (s : σ) :
    f n k s = f (n - R.last n k s) (k + R.last n k s) (R.start k s (R.last n k s)) := by
  induction n generalizing k s with
  | zero => rfl
  | succ n ih =>
    cases hstops : R.stops k s with
    | true =>
      rw [last_of_stops hstops]
      rfl
    | false =>
      rw [h n k s hstops, ih, last_of_not_stops hstops, start, Nat.add_sub_add_right,
        Nat.add_right_comm, Nat.add_assoc]

/-- What the loop leaves behind, round by round. -/
theorem trace_eq (leaves : ℕ → σ → List ε) (n k : ℕ) (s : σ) :
    R.trace leaves n k s =
      (List.range (R.last n k s + 1)).flatMap fun j => leaves (k + j) (R.start k s j) := by
  induction n generalizing k s with
  | zero => simp [trace, last, start]
  | succ n ih =>
    rw [trace]
    cases hstops : R.stops k s with
    | true => simp [last_of_stops hstops, start]
    | false =>
      rw [last_of_not_stops hstops, List.range_succ_eq_map, List.flatMap_cons, List.flatMap_map, ih]
      simp only [Bool.false_eq_true, if_false, start, Nat.add_zero, Nat.succ_eq_add_one,
        Nat.add_assoc, Nat.add_comm 1]

theorem leaves_isPrefix_trace (leaves : ℕ → σ → List ε) (n k : ℕ) (s : σ) :
    leaves k s <+: R.trace leaves n k s := by
  cases n with
  | zero => exact List.prefix_rfl
  | succ n => exact List.prefix_append _ _

/-- Two consecutive rounds leave their marks next to each other. -/
theorem append_isInfix_trace (leaves : ℕ → σ → List ε) {n k j : ℕ} {s : σ}
    (h : j < R.last n k s) :
    leaves (k + j) (R.start k s j) ++ leaves (k + j + 1) (R.start k s (j + 1)) <:+:
      R.trace leaves n k s := by
  induction n generalizing k s j with
  | zero => exact absurd h (Nat.not_lt_zero j)
  | succ n ih =>
    cases hstops : R.stops k s with
    | true =>
      rw [last_of_stops hstops] at h
      exact absurd h (Nat.not_lt_zero j)
    | false =>
      rw [last_of_not_stops hstops] at h
      rw [trace, if_neg (by simp [hstops])]
      cases j with
      | zero =>
        obtain ⟨rest, hrest⟩ := R.leaves_isPrefix_trace leaves n (k + 1) (R.next k s)
        rw [← hrest, ← List.append_assoc]
        exact (List.prefix_append _ _).isInfix
      | succ j =>
        have hlater := ih (Nat.lt_of_succ_lt_succ h)
        rw [Nat.add_right_comm, Nat.add_assoc k] at hlater
        exact hlater.trans (List.suffix_append _ _).isInfix

end Rounds

end Transition
