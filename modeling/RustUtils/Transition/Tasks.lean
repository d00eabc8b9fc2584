import Mathlib.Algebra.GroupWithZero.Nat
import Mathlib.Data.List.Perm.Subperm
import RustUtils.Transition.Machine

/-!
# Tasks over a shared state

A `TaskSystem` is a shared state, a main party that moves on it and spawns tasks, and the
steps a task makes on its own phase and the shared state. Its machine performs the moves in
any order, so a run is an interleaving of the main party and of all tasks spawned so far.
Tasks are numbered in the order of their spawning.

`TaskSystem.step_iff` is the inversion of a move. Statements about one task are made with
`Config.look`, an attribute of the phase of task `i` with a default for tasks that do not
exist yet: `look_spawn` says that a spawn does not change it, and `look_act` that a step
changes it at the task that makes the step only. `TaskSystem.task_induct` is the induction
on the steps of one task, for what a phase remembers of them.
-/

namespace Transition

universe u v w x y

/-- The shared state and the phase of every task. -/
structure Config (μ : Type u) (φ : Type v) where
  shared : μ
  tasks : List φ
  deriving DecidableEq

/-- A shared state, a main party and the tasks it spawns. -/
structure TaskSystem (μ : Type u) (φ : Type v) (γ : Type w) (α : Type x) where
  /-- The shared state at the start; there are no tasks then. -/
  init : μ
  /-- A move of the main party, which may look at the tasks, with the phases of the tasks it
  spawns. -/
  main : Config μ φ → γ → Option (μ × List φ)
  /-- A step of task `i` from its phase. -/
  act : μ → ℕ → φ → α → Option (μ × φ)

/-- A move of the main party or a step of a task. -/
inductive Move (γ : Type w) (α : Type x) where
  | main (g : γ)
  | act (i : ℕ) (a : α)
  deriving DecidableEq

variable {μ : Type u} {φ : Type v} {γ : Type w} {α : Type x} {β : Type y}

/-! ### Looking at one task -/

namespace Config

/-- An attribute of task `i`, or the default when there is no such task. -/
def look (f : φ → β) (d : β) (c : Config μ φ) (i : ℕ) : β := (c.tasks[i]?).elim d f

theorem look_of_getElem? {f : φ → β} {d : β} {c : Config μ φ} {i : ℕ} {p : φ}
    (h : c.tasks[i]? = some p) : c.look f d i = f p := by
  rw [look, h, Option.elim_some]

theorem look_of_le {f : φ → β} {d : β} {c : Config μ φ} {i : ℕ} (h : c.tasks.length ≤ i) :
    c.look f d i = d := by
  rw [look, List.getElem?_eq_none h, Option.elim_none]

/-- A property that shows is the property of a task. -/
theorem exists_of_look {f : φ → Bool} {c : Config μ φ} {i : ℕ} (h : c.look f false i = true) :
    ∃ p, c.tasks[i]? = some p ∧ f p = true := by
  rw [look] at h
  cases hp : c.tasks[i]? with
  | none => rw [hp] at h; exact absurd h Bool.false_ne_true
  | some p => rw [hp] at h; exact ⟨p, rfl, h⟩

/-- Spawned tasks whose attribute is the default do not show. -/
theorem look_spawn {f : φ → β} {d : β} {c : Config μ φ} {s : μ} {spawned : List φ}
    (h : ∀ p ∈ spawned, f p = d) (i : ℕ) :
    look f d ⟨s, c.tasks ++ spawned⟩ i = c.look f d i := by
  by_cases hi : i < c.tasks.length
  · rw [look, look, List.getElem?_append_left hi]
  · rw [look_of_le (Nat.le_of_not_lt hi), look,
      List.getElem?_append_right (Nat.le_of_not_lt hi)]
    cases hp : spawned[i - c.tasks.length]? with
    | none => rfl
    | some p => exact h p (List.mem_of_getElem? hp)

/-- A spawned task shows at its own number. -/
theorem look_snoc {f : φ → β} {d : β} {c : Config μ φ} {s : μ} {p : φ} (i : ℕ) :
    look f d ⟨s, c.tasks ++ [p]⟩ i = if i = c.tasks.length then f p else c.look f d i := by
  rcases Nat.lt_trichotomy i c.tasks.length with hi | rfl | hi
  · rw [if_neg (Nat.ne_of_lt hi), look, look, List.getElem?_append_left hi]
  · rw [if_pos rfl, look, List.getElem?_concat_length, Option.elim_some]
  · have hlen : (c.tasks ++ [p]).length ≤ i := List.length_append ▸ hi
    rw [if_neg (Nat.ne_of_gt hi), look_of_le (Nat.le_of_lt hi), look_of_le hlen]

/-- A step of a task shows at that task only. -/
theorem look_act {f : φ → β} {d : β} {c : Config μ φ} {s : μ} {i : ℕ} {p p' : φ}
    (h : c.tasks[i]? = some p) (j : ℕ) :
    look f d ⟨s, c.tasks.set i p'⟩ j = if j = i then f p' else c.look f d j := by
  have hi : i < c.tasks.length := (List.getElem?_eq_some_iff.mp h).1
  by_cases hj : j = i
  · subst hj
    rw [if_pos rfl, look, List.getElem?_set_self hi, Option.elim_some]
  · rw [if_neg hj, look, List.getElem?_set_ne (Ne.symm hj), look]

/-- A step that keeps an attribute of its task keeps the attributes of all tasks. -/
theorem map_act {f : φ → β} {c : Config μ φ} {i : ℕ} {p q : φ} (h : c.tasks[i]? = some p)
    (hf : f q = f p) : (c.tasks.set i q).map f = c.tasks.map f := by
  have hget : (c.tasks.map f)[i]? = some (f q) := by rw [List.getElem?_map, h, hf]; rfl
  obtain ⟨hi, hget⟩ := List.getElem?_eq_some_iff.mp hget
  rw [List.map_set, ← hget, List.set_getElem_self]

/-- Counting the tasks with a property, across a step of one of them. -/
theorem countP_act {f : φ → Bool} {c : Config μ φ} {i : ℕ} {p q : φ}
    (h : c.tasks[i]? = some p) :
    (c.tasks.set i q).countP f + (if f p then 1 else 0) =
      c.tasks.countP f + if f q then 1 else 0 := by
  obtain ⟨hi, hget⟩ := List.getElem?_eq_some_iff.mp h
  have hmem : f p = true → 0 < c.tasks.countP f := fun hp =>
    List.countP_pos_iff.mpr ⟨p, hget ▸ List.getElem_mem hi, hp⟩
  rw [List.countP_set hi, hget]
  split <;> rename_i hp
  · have := hmem hp
    omega
  · omega

/-- Counting tasks by their numbers. -/
theorem countP_range (f : φ → Bool) (c : Config μ φ) :
    (List.range c.tasks.length).countP (c.look f false) = c.tasks.countP f := by
  obtain ⟨s, tasks⟩ := c
  induction tasks using List.reverseRecOn with
  | nil => rfl
  | append_singleton tasks p ih =>
    have hlook : ∀ i, look f false ⟨s, tasks ++ [p]⟩ i =
        if i = tasks.length then f p else look f false ⟨s, tasks⟩ i :=
      look_snoc (c := ⟨s, tasks⟩)
    rw [List.length_append, List.length_singleton, List.range_succ, List.countP_append,
      List.countP_append, List.countP_singleton, List.countP_singleton, hlook, if_pos rfl, ← ih]
    congr 1
    refine List.countP_congr fun i hi => ?_
    rw [hlook, if_neg (Nat.ne_of_lt (List.mem_range.mp hi))]

/-- Distinct numbers of tasks with a property are at most as many as these tasks. -/
theorem length_le_countP {f : φ → Bool} {c : Config μ φ} {is : List ℕ} (hnodup : is.Nodup)
    (h : ∀ i ∈ is, c.look f false i = true) : is.length ≤ c.tasks.countP f := by
  rw [← countP_range, List.countP_eq_length_filter]
  refine (hnodup.subperm fun i hi => List.mem_filter.mpr ⟨List.mem_range.mpr ?_, h i hi⟩).length_le
  obtain ⟨p, hp, -⟩ := exists_of_look (h i hi)
  exact (List.getElem?_eq_some_iff.mp hp).1

/-- Summing an attribute of the tasks, across a step of one of them. -/
theorem sum_act {f : φ → ℕ} {c : Config μ φ} {i : ℕ} {p q : φ} (h : c.tasks[i]? = some p) :
    ((c.tasks.set i q).map f).sum + f p = (c.tasks.map f).sum + f q := by
  obtain ⟨hi, hget⟩ := List.getElem?_eq_some_iff.mp h
  have hsplit : c.tasks = c.tasks.take i ++ p :: c.tasks.drop (i + 1) := by
    rw [← hget, List.getElem_cons_drop, List.take_append_drop]
  rw [List.set_eq_take_append_cons_drop, if_pos hi]
  conv_rhs => rw [hsplit]
  simp only [List.map_append, List.map_cons, List.sum_append, List.sum_cons]
  omega

end Config

/-! ### The machine of a task system -/

namespace TaskSystem

variable (T : TaskSystem μ φ γ α)

/-- One move of the system. -/
def step (c : Config μ φ) : Move γ α → Option (Config μ φ)
  | .main g => (T.main c g).map fun r => ⟨r.1, c.tasks ++ r.2⟩
  | .act i a =>
    (c.tasks[i]?).bind fun p =>
      (T.act c.shared i p a).map fun r => ⟨r.1, c.tasks.set i r.2⟩

/-- All interleavings of the main party and its tasks. -/
def machine : Machine (Config μ φ) (Move γ α) where
  init := ⟨T.init, []⟩
  step := T.step

/-- What one move can do. -/
inductive Step (c : Config μ φ) : Move γ α → Config μ φ → Prop
  | main {g : γ} {s : μ} {spawned : List φ} (hmain : T.main c g = some (s, spawned)) :
      Step c (.main g) ⟨s, c.tasks ++ spawned⟩
  | act {i : ℕ} {a : α} {p p' : φ} {s : μ} (htask : c.tasks[i]? = some p)
      (hact : T.act c.shared i p a = some (s, p')) : Step c (.act i a) ⟨s, c.tasks.set i p'⟩

/-- The machine makes exactly the moves of the relation. -/
theorem step_iff {c c' : Config μ φ} {m : Move γ α} :
    T.machine.step c m = some c' ↔ T.Step c m c' := by
  constructor
  · intro h
    cases m with
    | main g =>
      obtain ⟨⟨s, spawned⟩, hmain, rfl⟩ := Option.map_eq_some_iff.mp h
      exact .main hmain
    | act i a =>
      obtain ⟨p, htask, hp⟩ := Option.bind_eq_some_iff.mp h
      obtain ⟨⟨s, p'⟩, hact, rfl⟩ := Option.map_eq_some_iff.mp hp
      exact .act htask hact
  · intro h
    cases h with
    | main hmain => exact Option.map_eq_some_iff.mpr ⟨_, hmain, rfl⟩
    | act htask hact =>
      exact Option.bind_eq_some_iff.mpr ⟨_, htask, Option.map_eq_some_iff.mpr ⟨_, hact, rfl⟩⟩

/-! ### The steps of one task -/

/-- The steps of task `i` in a history. -/
def acts (i : ℕ) (ls : List (Move γ α)) : List α :=
  ls.filterMap fun
    | .main _ => none
    | .act j a => if j = i then some a else none

theorem mem_acts {i : ℕ} {a : α} {ls : List (Move γ α)} : a ∈ acts i ls ↔ .act i a ∈ ls := by
  rw [acts, List.mem_filterMap]
  constructor
  · rintro ⟨m, hm, heq⟩
    split at heq
    · contradiction
    · rw [Option.ite_none_right_eq_some, Option.some_inj] at heq
      obtain ⟨rfl, rfl⟩ := heq
      exact hm
  · exact fun hm => ⟨.act i a, hm, if_pos rfl⟩

theorem acts_snoc_act {i j : ℕ} {a : α} {ls : List (Move γ α)} :
    acts i (ls ++ [.act j a]) = if j = i then acts i ls ++ [a] else acts i ls := by
  by_cases hj : j = i <;> simp [acts, List.filterMap_append, hj]

theorem acts_snoc_main {i : ℕ} {g : γ} {ls : List (Move γ α)} :
    acts i (ls ++ [.main g]) = acts i ls := by
  simp [acts, List.filterMap_append]

/-- Only spawned tasks make steps. -/
theorem acts_eq_nil {ls : List (Move γ α)} {c : Config μ φ} (h : T.machine.Run ls c) :
    ∀ i, c.tasks.length ≤ i → acts i ls = [] := by
  refine h.induct (I := fun ls c => ∀ i, c.tasks.length ≤ i → acts i ls = [])
    (fun _ _ => rfl) fun ls l c c' _ hI hl i hi => ?_
  obtain ⟨hmain⟩ | ⟨htask, hact⟩ := (T.step_iff).mp hl
  · rw [acts_snoc_main]
    exact hI i (Nat.le_trans (by simp) hi)
  · rename_i j a p p' s
    have hj : j < c.tasks.length := (List.getElem?_eq_some_iff.mp htask).1
    rw [List.length_set] at hi
    rw [acts_snoc_act, if_neg (by omega)]
    exact hI i hi

/-- **Induction on the steps of one task.** A relation between the steps a task has made and
its phase that holds when the task is spawned and survives its own steps holds in every run,
however the steps are interleaved. -/
theorem task_induct {I : List α → φ → Prop}
    (spawn : ∀ ls c g s spawned, T.machine.Run ls c → T.main c g = some (s, spawned) →
      ∀ p ∈ spawned, I [] p)
    (act : ∀ s i p a s' p' as, I as p → T.act s i p a = some (s', p') → I (as ++ [a]) p')
    {ls : List (Move γ α)} {c : Config μ φ} (h : T.machine.Run ls c) :
    ∀ i p, c.tasks[i]? = some p → I (acts i ls) p := by
  refine h.induct (I := fun ls c => ∀ i p, c.tasks[i]? = some p → I (acts i ls) p)
    (by simp [machine]) fun ls l c c' hrun hI hl i p hp => ?_
  obtain ⟨hmain⟩ | ⟨htask, hact⟩ := (T.step_iff).mp hl
  · rw [acts_snoc_main]
    by_cases hi : i < c.tasks.length
    · rw [List.getElem?_append_left hi] at hp
      exact hI i p hp
    · rw [List.getElem?_append_right (Nat.le_of_not_lt hi)] at hp
      rw [T.acts_eq_nil hrun i (Nat.le_of_not_lt hi)]
      exact spawn _ _ _ _ _ hrun hmain p (List.mem_of_getElem? hp)
  · rename_i j a q q' s
    rw [acts_snoc_act]
    by_cases hj : j = i
    · subst hj
      have hlt : j < c.tasks.length := (List.getElem?_eq_some_iff.mp htask).1
      rw [List.getElem?_set_self hlt] at hp
      obtain rfl := Option.some_inj.mp hp
      rw [if_pos rfl]
      exact act _ _ _ _ _ _ _ (hI j q htask) hact
    · rw [List.getElem?_set_ne hj] at hp
      rw [if_neg hj]
      exact hI i p hp

end TaskSystem

end Transition
