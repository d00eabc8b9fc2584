import Mathlib.Data.List.Induction
import Mathlib.Order.Lattice
import Mathlib.Tactic.Common

/-!
# Rolling windows over a timeline

A `Recency` says which earlier entries of a timeline still count at a given moment. The two
laws are all a rolling window needs: a later entry counts at least as long as an earlier
one, and an entry that has stopped counting never counts again.

`Recency.record` is the usual lazy implementation, a queue that receives the new entry at
its back and loses stale entries from its front only. `Recency.recent` is its meaning, the
entries of the whole timeline that still count at the last one. On a sorted timeline the
two agree (`Recency.record_recent`), so nothing that is thrown away is ever needed again.

`Recency.countP_le_of_forall_recent` turns a bound on `recent` at every moment into a bound
on any set of entries that count at each other's moments, in particular on every closed
interval as long as the window.
-/

namespace Timeline

variable {α : Type*} [LinearOrder α]

/-- When an entry of a timeline still counts: `fresh now t` for the entry `t` at the moment
`now`. -/
structure Recency (α : Type*) [LinearOrder α] where
  /-- The entry `t` still counts at `now`. -/
  fresh : α → α → Bool
  /-- An entry counts at its own moment. -/
  fresh_self : ∀ t, fresh t t = true
  /-- Later entries count at least as long as earlier ones. -/
  fresh_of_le : ∀ {now t t'}, t ≤ t' → fresh now t = true → fresh now t' = true
  /-- An entry that counts now has counted ever since. -/
  fresh_of_ge : ∀ {now now' t}, now ≤ now' → fresh now' t = true → fresh now t = true

namespace Recency

variable (w : Recency α)

/-- Append an entry and drop stale entries from the front, as long as the front is stale. -/
def record (h : List α) (now : α) : List α :=
  (h ++ [now]).dropWhile fun t => !w.fresh now t

/-- The entries of a timeline that count at its last moment. -/
def recent (ts : List α) : List α :=
  match ts.getLast? with
  | none => []
  | some now => ts.filter (w.fresh now)

@[simp]
theorem recent_nil : w.recent [] = [] := rfl

@[simp]
theorem recent_snoc (ts : List α) (now : α) :
    w.recent (ts ++ [now]) = (ts ++ [now]).filter (w.fresh now) := by
  simp [recent]

/-- On a sorted list the stale entries are at the front: dropping them there is the same as
dropping them everywhere. -/
theorem dropWhile_stale_eq_filter {ts : List α} (hts : ts.Pairwise (· ≤ ·)) (now : α) :
    (ts.dropWhile fun t => !w.fresh now t) = ts.filter (w.fresh now) := by
  induction ts with
  | nil => rfl
  | cons t ts ih =>
    rw [List.pairwise_cons] at hts
    by_cases ht : w.fresh now t = true
    · -- a fresh entry at the front makes all later ones fresh, so nothing is dropped
      have hall : ∀ u ∈ t :: ts, w.fresh now u = true := by
        intro u hu
        rcases List.mem_cons.mp hu with rfl | hu
        · exact ht
        · exact w.fresh_of_le (hts.1 u hu) ht
      rw [List.filter_eq_self.mpr hall, List.dropWhile_cons_of_neg (by simp [ht])]
    · rw [List.dropWhile_cons_of_pos (by simp [ht]), List.filter_cons_of_neg ht]
      exact ih hts.2

/-- **The lazy queue is the window.** Recording the next entry of a sorted timeline in the
window so far gives the window of the longer timeline: an entry pruned at an earlier moment
would be stale now as well. -/
theorem record_recent {ts : List α} {now : α} (hts : (ts ++ [now]).Pairwise (· ≤ ·)) :
    w.record (w.recent ts) now = w.recent (ts ++ [now]) := by
  rw [recent_snoc, record]
  induction ts using List.reverseRecOn with
  | nil => simpa using w.dropWhile_stale_eq_filter (List.pairwise_singleton _ now) now
  | append_singleton ts last =>
    have hle : last ≤ now := by
      rw [List.pairwise_append] at hts
      exact hts.2.2 last (by simp) now (by simp)
    have hsub : (w.recent (ts ++ [last]) ++ [now]).Sublist (ts ++ [last] ++ [now]) := by
      rw [recent_snoc]
      exact (List.filter_sublist).append_right _
    -- both sides are filters now, and they differ in the freshness at the earlier moment only
    rw [w.dropWhile_stale_eq_filter (hts.sublist hsub), recent_snoc, List.filter_append,
      List.filter_append (ts ++ [last]), List.filter_filter]
    congr 1
    refine List.filter_congr fun t _ => ?_
    cases hnow : w.fresh now t with
    | false => rfl
    | true => rw [w.fresh_of_ge hle hnow]; rfl

/-- **Bounded at every moment, bounded in every interval.** If at every moment of the
timeline at most `cap` entries count, then at most `cap` entries satisfy a property whose
instances all count at each other's moments. -/
theorem countP_le_of_forall_recent {ts : List α} {cap : ℕ}
    (hcap : ∀ xs, xs <+: ts → (w.recent xs).length ≤ cap) {q : α → Bool}
    (hts : ts.Pairwise (· ≤ ·))
    (hq : ∀ t t', q t = true → q t' = true → t ≤ t' → w.fresh t' t = true) :
    ts.countP q ≤ cap := by
  induction ts using List.reverseRecOn with
  | nil => exact Nat.zero_le _
  | append_singleton ts last ih =>
    by_cases hlast : q last = true
    · -- the last instance of `q` sees all the others as fresh
      refine Nat.le_trans ?_ (hcap _ List.prefix_rfl)
      rw [recent_snoc, ← List.countP_eq_length_filter]
      refine List.countP_mono_left fun t ht hqt => hq t last hqt hlast ?_
      rcases List.mem_append.mp ht with ht | ht
      · exact (List.pairwise_append.mp hts).2.2 t ht last (by simp)
      · exact (List.mem_singleton.mp ht).le
    · have hsplit : (ts ++ [last]).countP q = ts.countP q := by simp [hlast]
      rw [hsplit]
      exact ih (fun xs hxs => hcap xs (hxs.trans (List.prefix_append _ _)))
        (List.pairwise_append.mp hts).1

/-- The window first holds more than `cap` entries at the last moment of the timeline. -/
def FirstExceeds (cap : ℕ) (ts : List α) : Prop :=
  cap < (w.recent ts).length ∧ ∀ xs, xs <+: ts → xs ≠ ts → (w.recent xs).length ≤ cap

/-- Up to `cap` entries the window cannot exceed `cap`. -/
theorem length_recent_le (ts : List α) : (w.recent ts).length ≤ ts.length := by
  rw [recent]
  cases ts.getLast? with
  | none => exact Nat.zero_le _
  | some now => exact List.length_filter_le _ _

/-- The window that never forgets. -/
def unbounded : Recency α where
  fresh _ _ := true
  fresh_self _ := rfl
  fresh_of_le _ h := h
  fresh_of_ge _ h := h

@[simp]
theorem recent_unbounded (ts : List α) : (unbounded (α := α)).recent ts = ts := by
  induction ts using List.reverseRecOn with
  | nil => rfl
  | append_singleton ts last => simp [unbounded]

/-- Without forgetting, the window first exceeds `cap` at entry number `cap + 1`. -/
theorem length_of_firstExceeds_unbounded {cap : ℕ} {ts : List α}
    (h : (unbounded (α := α)).FirstExceeds cap ts) : ts.length = cap + 1 := by
  obtain ⟨hlt, hpre⟩ := h
  rw [recent_unbounded] at hlt
  -- the check one entry earlier has passed
  have hne : ts.take (ts.length - 1) ≠ ts := by
    intro heq
    have := congrArg List.length heq
    rw [List.length_take] at this
    omega
  have hle := hpre _ (List.take_prefix _ _) hne
  rw [recent_unbounded, List.length_take] at hle
  omega

end Recency

end Timeline
