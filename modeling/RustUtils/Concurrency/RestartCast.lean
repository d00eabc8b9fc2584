import RustUtils.Concurrency.RestartCause

/-!
# The cast in the budget check

The budget check of `Supervisor::run` compares the length of the restart history as a `u32`. The
loop gives up at the first check that finds more than the cap, so the history holds one exit more
than the cap at most (`length_le_excess`), and below the largest `u32` the cast changes nothing. A
cap of `u32::MAX` is different: no remainder exceeds it, the check always passes, and the loop
restarts on and on (`exists_run`). `budget_cast_iff` puts the two together.
-/

namespace RustUtils

open Transition Timeline

namespace Supervisor

variable (p : Supervisor)

/-! ### The history is bounded by the cap -/

/-- The exits the loop may have recorded above the cap. -/
def Pc.excess : Pc → ℕ
  | .budget | .returned _ => 1
  | _ => 0

private theorem Pc.excess_le_one (pc : Pc) : pc.excess ≤ 1 := by
  unfold excess
  split <;> decide

private theorem length_prune_le (now : ℕ) (window : Duration) (history : List ℕ) :
    (prune now window history).length ≤ history.length := by
  rw [prune_eq_dropWhile]
  exact (List.dropWhile_sublist _).length_le

private theorem length_recordExit_le (history : List ℕ) (now : ℕ) :
    (p.recordExit history now).length ≤ history.length + 1 := by
  rw [recordExit]
  cases p.restartWindow with
  | none => exact (List.length_append).le
  | some window => exact Nat.le_trans (length_prune_le now window _) (List.length_append).le

variable {p} {cap : NonZeroU32}

/-- The check against a cap below the largest `u32`, on a history that is one too long at most. -/
private theorem budgetExceeded_iff_of_le (hcap : p.maxRestarts = some cap)
    (hsmall : cap.val + 1 < 2 ^ 32)
    {history : List ℕ} (h : history.length ≤ cap.val + 1) :
    p.budgetExceeded history = true ↔ cap.val < history.length := by
  rw [p.budgetExceeded_iff (Nat.lt_of_le_of_lt h hsmall), hcap]
  simp

/-- Below the largest `u32` the history exceeds the cap by one exit at most, and only until the
check is made. -/
private theorem length_le_excess (hcap : p.maxRestarts = some cap) (hsmall : cap.val + 1 < 2 ^ 32)
    {ls : List Label} {s : State} (h : p.machine.Run ls s) :
    s.restartHistory.length ≤ cap.val + s.pc.excess := by
  refine h.invariant (P := fun s => s.restartHistory.length ≤ cap.val + s.pc.excess)
    (Nat.zero_le _) ?_
  intro s l s' ih hl
  cases (p.step_iff).mp hl with
  | cancel => exact ih
  | record hpc hclock =>
    rw [hpc] at ih
    exact Nat.le_trans (p.length_recordExit_le _ _) (Nat.succ_le_succ ih)
  | budget hpc =>
    rw [hpc] at ih
    have hcheck := budgetExceeded_iff_of_le hcap hsmall ih
    cases hexceeded : p.budgetExceeded s.restartHistory with
    | true => exact ih
    | false =>
      rw [hexceeded] at hcheck
      exact Nat.le_of_not_lt fun hlt => absurd (hcheck.mpr hlt) Bool.false_ne_true
  | checkTop hpc | spawn hpc hclock | factoryPanic hpc | join hpc | checkJoin hpc
  | healthy hpc hclock | classify hpc | backoff hpc hclock | poll hpc hclock =>
    rw [hpc] at ih
    exact Nat.le_trans ih (Nat.le_add_right _ _)

/-! ### Runs under the largest cap -/

/-- No remainder exceeds the largest `u32`. -/
private theorem budgetExceeded_eq_false (hcap : p.maxRestarts = some cap)
    (hlarge : 2 ^ 32 ≤ cap.val + 1)
    (history : List ℕ) : p.budgetExceeded history = false := by
  have hmod : history.length % 2 ^ 32 < 2 ^ 32 := Nat.mod_lt _ (by decide)
  rw [budgetExceeded, hcap]
  exact decide_eq_false (by omega)

/-- If no check fails, any number of exits is recorded in some run. -/
private theorem exists_run (hnever : ∀ history, p.budgetExceeded history = false) (n : ℕ) :
    ∃ ls s, p.machine.Run ls s ∧ s.pc = .loopTop ∧ s.cancelled = false ∧
      (exits ls).length = n := by
  induction n with
  | zero => exact ⟨[], p.machine.init, rfl, rfl, rfl, rfl⟩
  | succ n ih =>
    obtain ⟨ls, s, hrun, hpc, hc, hlength⟩ := ih
    let r : Round := ⟨s.clock, .ok (.error connectionLost), s.clock, 0⟩
    have hround := hrun.append (exec_round (r := r) hpc hc le_rfl le_rfl rfl)
    rw [hnever, if_neg Bool.false_ne_true] at hround
    obtain ⟨pause, hpause, hquiet⟩ := exec_backoff (p := p) (s := ⟨false, s.clock,
      p.recordExit s.restartHistory s.clock, p.streakAfter s.consecutive r, .backoff⟩) rfl rfl 0
    refine ⟨ls ++ r.labels ++ pause, _, hround.append hpause, rfl, rfl, ?_⟩
    rw [List.append_assoc, exits_append, (r.makes.append hquiet).exits_eq, List.length_append,
      hlength]
    rfl

/-! ### The cast -/

/-- Without a window the history holds all exits. -/
private theorem restartHistory_eq_exits (hwindow : p.restartWindow = none) {ls : List Label}
    {s : State}
    (h : p.machine.Run ls s) : s.restartHistory = exits ls := by
  rw [p.restartHistory_eq_recent h, recency, hwindow]
  exact Recency.recent_unbounded _

/-- The budget check of a state has the truth value of the exact comparison. -/
def CastExact (p : Supervisor) (cap : NonZeroU32) (s : State) : Prop :=
  p.budgetExceeded s.restartHistory = true ↔ cap.val < s.restartHistory.length

private theorem castExact_iff (hcap : p.maxRestarts = some cap) {ls : List Label} {s : State}
    (h : p.machine.Run ls s) :
    p.CastExact cap s ↔ cap.val + 1 < 2 ^ 32 ∨ s.restartHistory.length < 2 ^ 32 := by
  have hbound := cap.property.2
  by_cases hsmall : cap.val + 1 < 2 ^ 32
  · have hle : s.restartHistory.length ≤ cap.val + 1 :=
      Nat.le_trans (length_le_excess hcap hsmall h) (Nat.add_le_add_left (Pc.excess_le_one _) _)
    exact iff_of_true (budgetExceeded_iff_of_le hcap hsmall hle) (Or.inl hsmall)
  · -- the check always passes, so it is exact as long as the history does not exceed the cap
    rw [CastExact, budgetExceeded_eq_false hcap (by omega), or_iff_right hsmall]
    simp only [Bool.false_eq_true, false_iff]
    omega

/-- The loop gives up exactly at the exit number `cap + 1`: no run has more exits, and one whose
last check is made has given up if and only if it has this many. -/
def GivesUpAfter (p : Supervisor) (cap : NonZeroU32) : Prop :=
  ∀ ls s, p.machine.Run ls s → (exits ls).length ≤ cap.val + 1 ∧
    (s.pc ≠ .budget → (s.pc.exhausted = true ↔ (exits ls).length = cap.val + 1))

private theorem givesUpAfter_iff (hcap : p.maxRestarts = some cap)
    (hwindow : p.restartWindow = none) :
    p.GivesUpAfter cap ↔ cap.val + 1 < 2 ^ 32 := by
  constructor
  · intro hgives
    by_contra hlarge
    obtain ⟨ls, s, hrun, hpc, -, hlength⟩ := exists_run (p := p)
      (budgetExceeded_eq_false hcap (Nat.le_of_not_lt hlarge)) (cap.val + 1)
    have hexhausted := ((hgives ls s hrun).2 (by simp [hpc])).mpr hlength
    simp [hpc, Pc.exhausted] at hexhausted
  · intro hsmall ls s hrun
    have hle : (exits ls).length ≤ cap.val + 1 := by
      rw [← restartHistory_eq_exits hwindow hrun]
      exact Nat.le_trans (length_le_excess hcap hsmall hrun)
        (Nat.add_le_add_left (Pc.excess_le_one _) _)
    refine ⟨hle, fun hpc => ?_⟩
    rw [(p.checked_of_run hrun (Nat.lt_of_le_of_lt hle hsmall)).last hpc,
      ← p.restartHistory_eq_recent hrun, restartHistory_eq_exits hwindow hrun, hcap]
    simp only [Option.some.injEq, exists_eq_left']
    omega

/-- **When the budget check survives its cast.** With a cap, the check of a reachable state is the
exact comparison if and only if the cap is not the largest `u32` or the history is shorter than
`2^32`. Without a window the loop gives up at the exit number `cap + 1` if and only if the cap is
not the largest `u32`. -/
theorem budget_cast_iff (hcap : p.maxRestarts = some cap) :
    (∀ ls s, p.machine.Run ls s →
      (p.CastExact cap s ↔ cap.val + 1 < 2 ^ 32 ∨ s.restartHistory.length < 2 ^ 32)) ∧
    (p.restartWindow = none → (p.GivesUpAfter cap ↔ cap.val + 1 < 2 ^ 32)) :=
  ⟨fun _ _ h => castExact_iff hcap h, givesUpAfter_iff hcap⟩

/-- A policy with a cap of one and no window. -/
theorem budget_cast_iff_once :
    { new with maxRestarts := some ⟨1, by decide, by decide⟩ }.GivesUpAfter
      ⟨1, by decide, by decide⟩ :=
  ((budget_cast_iff rfl).2 rfl).mpr (by decide)

/-- The default policy with the largest cap, `u32::MAX`. -/
def largestCap : Supervisor := { new with maxRestarts := some ⟨2 ^ 32 - 1, by decide, by decide⟩ }

/-- Under the largest cap some run records `2^32` exits, one more than the cap, and goes on. -/
theorem budget_cast_wraps :
    ∃ ls s, largestCap.machine.Run ls s ∧ s.pc = .loopTop ∧ (exits ls).length = 2 ^ 32 ∧
      s.restartHistory.length = 2 ^ 32 ∧ largestCap.budgetExceeded s.restartHistory = false := by
  have hnever := budgetExceeded_eq_false (p := largestCap) rfl (by decide)
  obtain ⟨ls, s, hrun, hpc, -, hlength⟩ := exists_run hnever (2 ^ 32)
  have hhistory : s.restartHistory = exits ls := restartHistory_eq_exits rfl hrun
  exact ⟨ls, s, hrun, hpc, hlength, hhistory ▸ hlength, hnever _⟩

end Supervisor

end RustUtils
