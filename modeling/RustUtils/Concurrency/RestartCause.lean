import RustUtils.Concurrency.RestartBudget

/-!
# The cause of an exhausted budget

When the restart budget is depleted, `Supervisor::run` returns a report of its own. The error of
the instance that exceeded the budget was dropped when its outcome was matched, several statements
earlier, so the returned report is the same whatever the instances returned
(`eq_budgetReport_of_exhausted`), and no run chains the last error into it
(`exhausted_drops_cause`).
-/

namespace RustUtils

open Transition

/-- The report keeps the cause: all frames of the cause lie beneath a `RetryExhausted` context. -/
def UtilsReport.ChainsBeneathExhausted (r cause : UtilsReport) : Prop :=
  ∃ above beneath, r.frames = above ++ .context .retryExhausted :: beneath ∧
    ∀ f ∈ cause.frames, f ∈ beneath

private theorem UtilsReport.frames_ne_nil (r : UtilsReport) : r.frames ≠ [] := by
  cases r <;> simp [frames]

/-- A fresh report with an attachment has nothing beneath its context. -/
private theorem UtilsReport.not_chains_of_fresh (msg : String) (cause : UtilsReport) :
    ¬((UtilsReport.new .retryExhausted).attach msg).ChainsBeneathExhausted cause := by
  rintro ⟨above, beneath, hframes, hcause⟩
  have hbeneath : beneath = [] := by
    simp only [frames] at hframes
    rcases above with _ | ⟨f, _ | ⟨g, above⟩⟩ <;> simp_all
  obtain ⟨f, hf⟩ := List.exists_mem_of_ne_nil _ cause.frames_ne_nil
  exact List.not_mem_nil (hbeneath ▸ hcause f hf)

namespace Supervisor

variable (p : Supervisor)

/-- The outcome of the last instance that was joined. -/
def lastOutcome (ls : List Label) : Option Outcome :=
  (ls.filterMap fun
    | .join outcome => some outcome
    | _ => none).getLast?

/-- `run` gives up in the budget check only. -/
private theorem Step.pc_of_exhausted {s s' : State} {l : Label} (h : p.Step s l s')
    (hexhausted : s'.pc.exhausted = true) :
    s'.pc = s.pc ∨ s'.pc = .returned (.error (p.budgetReport s.restartHistory)) := by
  cases h with
  | cancel => exact Or.inl rfl
  | budget hpc =>
    refine Or.inr (if_pos ?_)
    refine Bool.eq_true_of_not_eq_false fun hwithin => ?_
    simp [hwithin, Pc.exhausted] at hexhausted
  | classify hpc => simp [p.exhausted_classifyOutcome] at hexhausted
  | poll hpc hclock => simp [exhausted_afterPoll] at hexhausted
  | checkTop hpc | checkJoin hpc | backoff hpc hclock =>
    dsimp only at hexhausted
    split at hexhausted <;> simp [Pc.exhausted] at hexhausted
  | spawn hpc hclock | factoryPanic hpc | join hpc | healthy hpc hclock | record hpc hclock =>
    simp [Pc.exhausted] at hexhausted

/-- The report of an exhausted budget is made from the policy and the restart history alone. -/
private theorem eq_budgetReport_of_exhausted {ls : List Label} {s : State} (h : p.machine.Run ls s)
    {r : UtilsReport} (hpc : s.pc = .returned (.error r))
    (hctx : r.currentContext = .retryExhausted) : ∃ history, r = p.budgetReport history := by
  have hinv := h.invariant (P := fun s => s.pc.exhausted = true →
    ∃ history, s.pc = .returned (.error (p.budgetReport history))) ?_ ?_
  · obtain ⟨history, hreport⟩ := hinv (Pc.exhausted_iff.mpr ⟨r, hpc, hctx⟩)
    rw [hpc] at hreport
    exact ⟨history, by simpa using hreport⟩
  · intro hinit
    simp [machine, Pc.exhausted] at hinit
  · intro s l s' ih hl hexhausted
    rcases Step.pc_of_exhausted p ((p.step_iff).mp hl) hexhausted with hsame | hgaveUp
    · exact hsame ▸ ih (hsame ▸ hexhausted)
    · exact ⟨_, hgaveUp⟩

/-- No run that ends with `RetryExhausted` reports a cause, whatever report this is. -/
private theorem not_chains_of_exhausted {ls : List Label} {s : State} {r : UtilsReport}
    (hrun : p.machine.Run ls s) (hpc : s.pc = .returned (.error r))
    (hctx : r.currentContext = .retryExhausted) (cause : UtilsReport) :
    ¬r.ChainsBeneathExhausted cause := by
  obtain ⟨history, rfl⟩ := p.eq_budgetReport_of_exhausted hrun hpc hctx
  exact UtilsReport.not_chains_of_fresh _ cause

/-- **The cause is never reported.** In every run that ends with `RetryExhausted` after an instance
that returned an error, the returned report does not have the frames of this error beneath its
context. -/
theorem exhausted_drops_cause {ls : List Label} {s : State} {r : UtilsReport}
    (hrun : p.machine.Run ls s) (hpc : s.pc = .returned (.error r))
    (hctx : r.currentContext = .retryExhausted) (cause : UtilsReport) :
    lastOutcome ls = some (.ok (.error cause)) → ¬r.ChainsBeneathExhausted cause :=
  fun _ => p.not_chains_of_exhausted hrun hpc hctx cause

/-- What an instance returns when its connection is lost. -/
def connectionLost : UtilsReport := (UtilsReport.new .network).attach "connection lost"

/-- One round of the loop whose instance returns an error and exits at `now`. -/
def errorRound (now : ℕ) : List Label :=
  [.checkTop, .spawn now, .join (.ok (.error connectionLost)), .checkJoin, .healthy now, .classify,
    .record now, .budget]

/-- Two errors, at `5` and `7`, with a budget of one restart. -/
def twoErrors : List Label := errorRound 5 ++ [.backoff 5 0] ++ errorRound 7

/-- The state the two errors lead to. -/
def afterTwoErrors : State :=
  ⟨false, 7, [5, 7], 1, .returned (.error (tightPolicy.budgetReport [5, 7]))⟩

theorem exhausted_drops_cause_twoErrors :
    ¬(tightPolicy.budgetReport [5, 7]).ChainsBeneathExhausted connectionLost := by
  have hrun : tightPolicy.machine.Run twoErrors afterTwoErrors := by decide +kernel
  exact tightPolicy.exhausted_drops_cause hrun rfl rfl connectionLost (by decide +kernel)

/-- The two errors exhaust the budget, and the second one is not in the report. -/
theorem twoErrors_lose_the_cause :
    tightPolicy.machine.Run twoErrors afterTwoErrors ∧
      (tightPolicy.budgetReport [5, 7]).currentContext = .retryExhausted ∧
      lastOutcome twoErrors = some (.ok (.error connectionLost)) ∧
      ¬(tightPolicy.budgetReport [5, 7]).ChainsBeneathExhausted connectionLost := by
  refine ⟨by decide +kernel, rfl, by decide +kernel, ?_⟩
  exact UtilsReport.not_chains_of_fresh _ connectionLost

end Supervisor

end RustUtils
