import Mathlib.Data.List.Induction
import Mathlib.Tactic.Common

/-!
# Journals of tasks

The history of an interleaving, with every entry under the number of the task that made it.
`Journal.entries` is the history of one task. Interleavings differ in the order in which
they mix these histories and in nothing else: `Journal.perm_flatMap` says that a journal in
which every task has made its own entries is a rearrangement of all of them.
-/

namespace Transition

universe u v

/-- A history whose entries carry the number of the task that made them. -/
abbrev Journal (ε : Type u) := List (ℕ × ε)

namespace Journal

variable {ε : Type u} {α : Type v}

/-- The entries of task `i`, in order. -/
def entries (j : Journal ε) (i : ℕ) : List ε :=
  j.filterMap fun e => if e.1 = i then some e.2 else none

/-- What task `i` adds to a journal. -/
def tag (i : ℕ) (es : List ε) : Journal ε := es.map fun e => (i, e)

theorem mem_entries {j : Journal ε} {i : ℕ} {e : ε} : e ∈ j.entries i ↔ (i, e) ∈ j := by
  rw [entries, List.mem_filterMap]
  constructor
  · rintro ⟨⟨k, e'⟩, hmem, h⟩
    obtain ⟨hk, he⟩ := Option.ite_none_right_eq_some.mp h
    exact hk ▸ Option.some_inj.mp he ▸ hmem
  · exact fun hmem => ⟨(i, e), hmem, if_pos rfl⟩

@[simp]
theorem entries_append (j k : Journal ε) (i : ℕ) :
    entries (j ++ k) i = j.entries i ++ k.entries i :=
  List.filterMap_append

/-- What a task adds shows at that task only. -/
@[simp]
theorem entries_tag (i k : ℕ) (es : List ε) : (tag i es).entries k = if k = i then es else [] := by
  rw [tag, entries, List.filterMap_map]
  by_cases h : k = i
  · subst h
    rw [if_pos rfl, show ((fun e : ℕ × ε => if e.1 = k then some e.2 else none) ∘
      fun e => (k, e)) = some from funext fun e => if_pos rfl, List.filterMap_some]
  · rw [if_neg h, List.filterMap_eq_nil_iff]
    exact fun e _ => if_neg (Ne.symm h)

/-- What one task has entered, looked at through a function. -/
theorem entries_map {δ : Type v} (j : Journal ε) (f : ε → δ) (i : ℕ) :
    entries (j.map fun e => (e.1, f e.2)) i = (j.entries i).map f := by
  rw [entries, List.filterMap_map, entries, List.map_filterMap]
  congr 1
  funext e
  by_cases he : e.1 = i <;> simp [he]

/-- The entries of one task, taken out of a journal. -/
theorem map_filter_eq (j : Journal ε) (i : ℕ) :
    (j.filter fun e => e.1 = i).map Prod.snd = j.entries i := by
  rw [entries, ← List.filterMap_eq_map, List.filterMap_filter]
  congr 1
  funext e
  simp

/-- What is left of a journal when one task is taken out. -/
theorem entries_filter_ne (j : Journal ε) (i k : ℕ) :
    entries (j.filter fun e => e.1 ≠ i) k = if k = i then [] else j.entries k := by
  rw [entries, List.filterMap_filter]
  by_cases hk : k = i
  · rw [if_pos hk, List.filterMap_eq_nil_iff]
    intro e _
    by_cases he : e.1 = i <;> simp [he, hk]
  · rw [if_neg hk, entries]
    congr 1
    funext e
    by_cases he : e.1 = k <;> simp [he, hk]

/-- **A journal is a rearrangement of the histories of its tasks.** -/
theorem perm_flatMap {j : Journal ε} {xs : List α} {f : α → List ε}
    (h : ∀ i, j.entries i = (xs[i]?).elim [] f) : (j.map Prod.snd).Perm (xs.flatMap f) := by
  induction xs using List.reverseRecOn generalizing j with
  | nil =>
    have hnil : j = [] := by
      refine List.eq_nil_iff_forall_not_mem.mpr fun e he => ?_
      have hentry : e.2 ∈ j.entries e.1 := mem_entries.mpr he
      rw [h e.1] at hentry
      exact List.not_mem_nil hentry
    rw [hnil]
    exact .nil
  | append_singleton xs x ih =>
    -- the entries of the last task on one side, all others on the other
    have hothers : ((j.filter fun e => e.1 ≠ xs.length).map Prod.snd).Perm (xs.flatMap f) := by
      refine ih fun i => ?_
      rw [entries_filter_ne]
      by_cases hi : i = xs.length
      · rw [if_pos hi, List.getElem?_eq_none (Nat.le_of_eq hi.symm), Option.elim_none]
      · rw [if_neg hi, h]
        rcases Nat.lt_or_gt_of_ne hi with hlt | hgt
        · rw [List.getElem?_append_left hlt]
        · rw [List.getElem?_eq_none (by simp; omega), List.getElem?_eq_none (by omega)]
    have hlast : (j.filter fun e => e.1 = xs.length).map Prod.snd = f x := by
      rw [map_filter_eq, h, List.getElem?_concat_length, Option.elim_some]
    have hsplit := (List.filter_append_perm (fun e : ℕ × ε => e.1 ≠ xs.length) j).map Prod.snd
    simp only [ne_eq, decide_not, Bool.not_not, List.map_append] at hsplit hothers
    rw [hlast] at hsplit
    rw [List.flatMap_append, List.flatMap_singleton]
    exact hsplit.symm.trans (hothers.append_right _)

/-- **Counting by tasks.** Where every task has made one entry with a property or none, the entries
with this property are as many as the tasks that have made one. -/
theorem countP_eq {j : Journal ε} {xs : List α} {f : α → List ε} {p : ε → Bool} {q : α → Bool}
    (h : ∀ i, j.entries i = (xs[i]?).elim [] f)
    (hone : ∀ x ∈ xs, (f x).countP p = if q x then 1 else 0) :
    j.countP (fun e => p e.2) = xs.countP q := by
  have hperm := (perm_flatMap h).countP_eq p
  rw [List.countP_map] at hperm
  refine hperm.trans ?_
  clear h hperm
  induction xs with
  | nil => rfl
  | cons x xs ih =>
    rw [List.flatMap_cons, List.countP_append, hone x List.mem_cons_self, List.countP_cons,
      ih fun y hy => hone y (List.mem_cons_of_mem _ hy), Nat.add_comm]

end Journal

end Transition
