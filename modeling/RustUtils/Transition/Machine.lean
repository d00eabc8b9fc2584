import Mathlib.Data.List.Induction
import Mathlib.Tactic.Common

/-!
# Partial machines and their runs

A `Machine` is a state type, an initial state and a partial step function: `step s l` is
the state after the labelled step `l`, or `none` where `l` is not enabled in `s`. All the
nondeterminism of the modelled system sits in the choice of the label, so an interleaving
is a list of labels and every statement about "any order of steps" quantifies over lists.

`M.exec s ls` performs a list of labels from `s`; `M.Run ls s` says that `ls` is a run from
the initial state ending in `s`. Two induction principles carry the invariants:
`Machine.Run.induct` grows a run at its end, so that an invariant may speak about the whole
history, and `Machine.exec_preserves` moves a state property along an arbitrary execution.
`Machine.Run.exists_stuck` continues a run to its end where a measure decreases with every
step. `Machine.exec_map` is the functional simulation rule, `Machine.exec_filterMap` the one for a
machine that makes some of the steps only, and `Machine.observe` collects what a run makes
visible.
-/

namespace Transition

universe u v w u' v'

/-- A state machine with a partial, deterministic step function: the label resolves every
choice the environment has. -/
structure Machine (σ : Type u) (ℓ : Type v) where
  /-- The state a run starts in. -/
  init : σ
  /-- The state after a label, or `none` where the label is not enabled. -/
  step : σ → ℓ → Option σ

namespace Machine

variable {σ : Type u} {ℓ : Type v} (M : Machine σ ℓ)

/-! ### Executions -/

/-- Perform a list of labels from a state, stopping with `none` at the first one that is
not enabled. -/
def exec : σ → List ℓ → Option σ
  | s, [] => some s
  | s, l :: ls => (M.step s l).bind fun s' => exec s' ls

@[simp]
theorem exec_nil (s : σ) : M.exec s [] = some s := rfl

theorem exec_cons_iff {s s'' : σ} {l : ℓ} {ls : List ℓ} :
    M.exec s (l :: ls) = some s'' ↔ ∃ s', M.step s l = some s' ∧ M.exec s' ls = some s'' := by
  rw [exec, Option.bind_eq_some_iff]

theorem exec_append_iff {s s'' : σ} {xs ys : List ℓ} :
    M.exec s (xs ++ ys) = some s'' ↔ ∃ s', M.exec s xs = some s' ∧ M.exec s' ys = some s'' := by
  induction xs generalizing s with
  | nil => simp
  | cons l xs ih =>
    rw [List.cons_append, exec_cons_iff]
    constructor
    · rintro ⟨s₁, hl, h⟩
      obtain ⟨s', hx, hy⟩ := ih.mp h
      exact ⟨s', (M.exec_cons_iff).mpr ⟨s₁, hl, hx⟩, hy⟩
    · rintro ⟨s', hlx, hy⟩
      obtain ⟨s₁, hl, hx⟩ := (M.exec_cons_iff).mp hlx
      exact ⟨s₁, hl, ih.mpr ⟨s', hx, hy⟩⟩

theorem exec_snoc_iff {s s'' : σ} {l : ℓ} {ls : List ℓ} :
    M.exec s (ls ++ [l]) = some s'' ↔ ∃ s', M.exec s ls = some s' ∧ M.step s' l = some s'' := by
  rw [exec_append_iff]
  refine exists_congr fun s' => and_congr_right fun _ => ?_
  rw [exec_cons_iff]
  simp

/-- A property that every step of the list preserves holds at the end of the execution. -/
theorem exec_preserves {P : σ → Prop} {ls : List ℓ}
    (hstep : ∀ s, ∀ l ∈ ls, ∀ s', P s → M.step s l = some s' → P s') {s s' : σ}
    (hs : P s) (h : M.exec s ls = some s') : P s' := by
  induction ls generalizing s with
  | nil => simpa [← Option.some_inj.mp h] using hs
  | cons l ls ih =>
    obtain ⟨s₁, hl, hls⟩ := (M.exec_cons_iff).mp h
    exact ih (fun s l' hl' => hstep s l' (List.mem_cons_of_mem _ hl'))
      (hstep s l List.mem_cons_self s₁ hs hl) hls

/-- Every step of an execution relates its two ends. -/
def Steps (R : σ → σ → Prop) : σ → List ℓ → Prop
  | _, [] => True
  | s, l :: ls => ∀ s', M.step s l = some s' → R s s' ∧ Steps R s' ls

/-- A state property under which every step keeps the property and relates its two ends
relates the two ends of every step of an execution. -/
theorem steps_of_invariant {P : σ → Prop} {R : σ → σ → Prop} {ls : List ℓ}
    (hstep : ∀ s, ∀ l ∈ ls, ∀ s', P s → M.step s l = some s' → R s s' ∧ P s') {s : σ}
    (hs : P s) : M.Steps R s ls := by
  induction ls generalizing s with
  | nil => trivial
  | cons l ls ih =>
    intro s' hl
    obtain ⟨hR, hP⟩ := hstep s l List.mem_cons_self s' hs hl
    exact ⟨hR, ih (fun s l' hl' => hstep s l' (List.mem_cons_of_mem _ hl')) hP⟩

/-- In an execution whose steps all relate their two ends, so does each of them. -/
theorem Steps.related {R : σ → σ → Prop} {xs ys : List ℓ} {l : ℓ} {s m m' : σ}
    (h : M.Steps R s (xs ++ l :: ys)) (hx : M.exec s xs = some m) (hl : M.step m l = some m') :
    R m m' := by
  induction xs generalizing s with
  | nil =>
    obtain rfl := Option.some_inj.mp hx
    exact (h m' hl).1
  | cons a xs ih =>
    obtain ⟨s₁, ha, hxs⟩ := (M.exec_cons_iff).mp hx
    exact ih (h s₁ ha).2 hxs

/-! ### Runs -/

/-- The list of labels is a run from the initial state that ends in `s`. -/
def Run (ls : List ℓ) (s : σ) : Prop := M.exec M.init ls = some s

instance [DecidableEq σ] (ls : List ℓ) (s : σ) : Decidable (M.Run ls s) :=
  inferInstanceAs (Decidable (M.exec M.init ls = some s))

variable {M}

theorem Run.snoc {ls : List ℓ} {l : ℓ} {s s' : σ} (h : M.Run ls s) (hl : M.step s l = some s') :
    M.Run (ls ++ [l]) s' :=
  (M.exec_snoc_iff).mpr ⟨s, h, hl⟩

/-- A run may be cut anywhere. -/
theorem run_append_iff {xs ys : List ℓ} {s : σ} :
    M.Run (xs ++ ys) s ↔ ∃ s', M.Run xs s' ∧ M.exec s' ys = some s :=
  M.exec_append_iff

theorem Run.append {xs ys : List ℓ} {s s' : σ} (h : M.Run xs s) (hy : M.exec s ys = some s') :
    M.Run (xs ++ ys) s' :=
  run_append_iff.mpr ⟨s, h, hy⟩

/-- **Run induction.** A relation between histories and states that holds of the empty
history and survives every enabled step holds of every run. The step case may use that the
history so far is itself a run. -/
theorem Run.induct {I : List ℓ → σ → Prop} (nil : I [] M.init)
    (snoc : ∀ ls l s s', M.Run ls s → I ls s → M.step s l = some s' → I (ls ++ [l]) s')
    {ls : List ℓ} {s : σ} (h : M.Run ls s) : I ls s := by
  induction ls using List.reverseRecOn generalizing s with
  | nil =>
    obtain rfl : M.init = s := Option.some_inj.mp h
    exact nil
  | append_singleton ls l ih =>
    obtain ⟨s₁, hls, hl⟩ := (M.exec_snoc_iff).mp h
    exact snoc ls l s₁ s hls (ih hls) hl

/-- State invariants: what holds initially and is preserved by every step holds at the end
of every run. -/
theorem Run.invariant {P : σ → Prop} (hinit : P M.init)
    (hstep : ∀ s l s', P s → M.step s l = some s' → P s') {ls : List ℓ} {s : σ}
    (h : M.Run ls s) : P s :=
  h.induct (I := fun _ s => P s) hinit fun _ l s s' _ hs hl => hstep s l s' hs hl

/-! ### Termination -/

/-- No label is enabled. -/
def Stuck (M : Machine σ ℓ) (s : σ) : Prop := ∀ l, M.step s l = none

/-- A measure that every step decreases bounds the length of every run. -/
theorem Run.length_add_le {f : σ → ℕ}
    (hstep : ∀ s l s', M.step s l = some s' → f s' < f s) {ls : List ℓ} {s : σ}
    (h : M.Run ls s) : ls.length + f s ≤ f M.init := by
  refine h.induct (I := fun ls s => ls.length + f s ≤ f M.init) (by simp) ?_
  intro ls l s s' _ hle hl
  have := hstep s l s' hl
  rw [List.length_append, List.length_singleton]
  omega

/-- Where such a measure exists, every run goes on until no label is enabled. -/
theorem Run.exists_stuck {f : σ → ℕ} (hstep : ∀ s l s', M.step s l = some s' → f s' < f s)
    {ls : List ℓ} {s : σ} (h : M.Run ls s) :
    ∃ more s', M.Run (ls ++ more) s' ∧ M.Stuck s' := by
  induction hn : f s using Nat.strongRecOn generalizing ls s with
  | ind n ih =>
    by_cases hstuck : M.Stuck s
    · exact ⟨[], s, by rwa [List.append_nil], hstuck⟩
    · obtain ⟨l, hl⟩ := not_forall.mp hstuck
      obtain ⟨s', hl'⟩ := Option.ne_none_iff_exists'.mp hl
      obtain ⟨more, s'', hrun, hend⟩ := ih (f s') (hn ▸ hstep s l s' hl') (h.snoc hl') rfl
      refine ⟨l :: more, s'', ?_, hend⟩
      rwa [List.append_assoc, List.singleton_append] at hrun

variable (M) in
/-- Under an invariant, a measure that no step increases and that the steps of one kind decrease
bounds the number of these in an execution. -/
theorem exec_countP_add_le {f : σ → ℕ} {I : σ → Prop} {P : ℓ → Bool} {ls : List ℓ}
    (hstep : ∀ s, ∀ l ∈ ls, ∀ s', I s → M.step s l = some s' →
      I s' ∧ f s' + (if P l then 1 else 0) ≤ f s)
    {s s' : σ} (hs : I s) (h : M.exec s ls = some s') : ls.countP P + f s' ≤ f s := by
  induction ls generalizing s with
  | nil =>
    obtain rfl := Option.some_inj.mp h
    simp
  | cons l ls ih =>
    obtain ⟨s₁, hl, hrest⟩ := (M.exec_cons_iff).mp h
    obtain ⟨hs₁, hle⟩ := hstep s l List.mem_cons_self s₁ hs hl
    have hlater := ih (fun s l' hl' => hstep s l' (List.mem_cons_of_mem _ hl')) hs₁ hrest
    rw [List.countP_cons]
    omega

variable (M) in
/-- A measure that certain steps decrease bounds the length of the executions made of them. -/
theorem exec_length_add_le {f : σ → ℕ} {P : ℓ → Prop}
    (hstep : ∀ s l s', P l → M.step s l = some s' → f s' < f s) {ls : List ℓ}
    (hls : ∀ l ∈ ls, P l) {s s' : σ} (h : M.exec s ls = some s') : ls.length + f s' ≤ f s := by
  have hall : ls.countP (fun _ => true) = ls.length := congrFun List.countP_true ls
  rw [← hall]
  exact M.exec_countP_add_le (I := fun _ => True)
    (fun s l hl s' _ hstep' => ⟨trivial, hstep s l s' (hls l hl) hstep'⟩) trivial h

/-! ### Functional simulation -/

variable (M)

/-- A state map and a label map that commute with single steps commute with whole
executions. -/
theorem exec_map {τ : Type u'} {κ : Type v'} {N : Machine τ κ} {f : σ → τ} {g : ℓ → κ}
    (hstep : ∀ s l s', M.step s l = some s' → N.step (f s) (g l) = some (f s')) {s s' : σ}
    {ls : List ℓ} (h : M.exec s ls = some s') : N.exec (f s) (ls.map g) = some (f s') := by
  induction ls generalizing s with
  | nil => simp [Option.some_inj.mp h]
  | cons l ls ih =>
    obtain ⟨s₁, hl, hls⟩ := (M.exec_cons_iff).mp h
    exact (N.exec_cons_iff).mpr ⟨f s₁, hstep s l s₁ hl, ih hls⟩

/-- **Simulation with silent steps.** A relation that every step keeps, either by a step of the
other machine or while that one does nothing, is kept by whole executions. -/
theorem exec_filterMap {τ : Type u'} {κ : Type v'} {N : Machine τ κ} {R : σ → τ → Prop}
    {g : ℓ → Option κ}
    (hstep : ∀ s t l s', R s t → M.step s l = some s' →
      match g l with
      | none => R s' t
      | some k => ∃ t', N.step t k = some t' ∧ R s' t')
    {s s' : σ} {t : τ} {ls : List ℓ} (hR : R s t) (h : M.exec s ls = some s') :
    ∃ t', N.exec t (ls.filterMap g) = some t' ∧ R s' t' := by
  induction ls generalizing s t with
  | nil =>
    obtain rfl := Option.some_inj.mp h
    exact ⟨t, rfl, hR⟩
  | cons l ls ih =>
    obtain ⟨s₁, hl, hls⟩ := (M.exec_cons_iff).mp h
    have hone := hstep s t l s₁ hR hl
    cases hg : g l with
    | none =>
      rw [hg] at hone
      rw [List.filterMap_cons_none hg]
      exact ih hone hls
    | some k =>
      rw [hg] at hone
      obtain ⟨t₁, hk, hR₁⟩ := hone
      obtain ⟨t', hks, hR'⟩ := ih hR₁ hls
      rw [List.filterMap_cons_some hg]
      exact ⟨t', (N.exec_cons_iff).mpr ⟨t₁, hk, hks⟩, hR'⟩

/-! ### Observations -/

variable {ο : Type w} (obs : σ → ℓ → List ο)

/-- What a run makes visible: the observations of its steps, each made in the state the
step starts from, in order. -/
def observe : σ → List ℓ → List ο
  | _, [] => []
  | s, l :: ls =>
    obs s l ++ match M.step s l with
      | some s' => observe s' ls
      | none => []

@[simp]
theorem observe_nil (s : σ) : M.observe obs s [] = [] := rfl

/-- One more step adds what is observed of it. -/
theorem observe_snoc {s s' : σ} {l : ℓ} {ls : List ℓ} (h : M.exec s ls = some s') :
    M.observe obs s (ls ++ [l]) = M.observe obs s ls ++ obs s' l := by
  induction ls generalizing s with
  | nil =>
    obtain rfl := Option.some_inj.mp h
    simp only [List.nil_append, observe]
    cases M.step s l <;> simp
  | cons a ls ih =>
    obtain ⟨s₁, ha, hls⟩ := (M.exec_cons_iff).mp h
    simp only [List.cons_append, observe, ha, ih hls, List.append_assoc]

end Machine

end Transition
