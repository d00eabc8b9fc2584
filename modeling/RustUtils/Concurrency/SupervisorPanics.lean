import RustUtils.Concurrency.SupervisorCancellation

/-!
# Panics under `Supervisor::run`

The code of the caller runs in two places: in the call of `factory`, on the task of the supervisor
itself, and in the future it returns, on a task of its own. A panic of the future is an outcome of
the join, and `Counted` says what becomes of it: from the join on, either the loop is still on its
way to the bookkeeping, or a cancelled token has ended it, or the policy has terminated it with an
error, or the exit has been recorded. Where panics are restarted nothing distinguishes one from an
instance that returned an error (`run_panicAsError`). A panic of the call unwinds `run`, whatever
the policy says, so the panics are contained exactly in the runs without one (`contained_iff`).
-/

namespace RustUtils

open Transition

namespace Supervisor

variable (p : Supervisor)

/-- The instance has panicked. -/
def panicked : Outcome → Bool
  | .error err => err.isPanic
  | .ok _ => false

/-- The statements at which code of the caller has panicked. -/
def Label.panics : Label → Bool
  | .factoryPanic _ => true
  | .join outcome => panicked outcome
  | _ => false

/-! ### What becomes of a panic -/

/-- The loop has joined a panicked instance and not recorded its exit yet. -/
def PanicPending : Pc → Prop
  | .checkJoin _ outcome | .healthy _ outcome | .classify outcome => panicked outcome = true
  | .record => p.restartOnPanic = true
  | _ => False

/-- What has become of a panic: `upTo` are the labels up to the panic, and the other two arguments
those after it and the statement the loop stands at. -/
inductive Counted (upTo : List Label) : List Label → Pc → Prop
  /-- No exit has been recorded and no instance spawned since. -/
  | pending {after : List Label} {pc : Pc} (hpc : p.PanicPending pc) (hexits : exits after = [])
      (hinstances : instances after = 0) : Counted upTo after pc
  /-- The token was cancelled at the join check of the instance. -/
  | shutDown {quiet rest : List Label} (hinstances : instances quiet = 0)
      (hcancel : .cancel ∈ upTo ++ quiet) :
      Counted upTo (quiet ++ [.checkJoin] ++ rest) (.returned (.ok ()))
  | terminated {after : List Label} {r : UtilsReport} (hpolicy : p.restartOnPanic = false)
      (hctx : r.currentContext = .concurrency) : Counted upTo after (.returned (.error r))
  /-- The exit is the next one that was recorded. -/
  | recorded {quiet rest : List Label} {now : ℕ} {pc : Pc} (hpolicy : p.restartOnPanic = true)
      (hexits : exits quiet = []) (hinstances : instances quiet = 0) :
      Counted upTo (quiet ++ [.record now] ++ rest) pc

variable {p}

/-- The match on a panic goes on to the bookkeeping, or returns an error. -/
private theorem classifyOutcome_of_panicked {outcome : Outcome} (h : panicked outcome = true) :
    ∃ err, p.classifyOutcome outcome =
      if p.restartOnPanic then .record else .returned (.error (p.panicReport err)) := by
  cases outcome with
  | ok result => contradiction
  | error err =>
    refine ⟨err, ?_⟩
    rw [classifyOutcome, if_pos (show err.isPanic = true from h)]
    cases p.restartOnPanic <;> rfl

/-- A panic stays pending at a label that records and spawns nothing. -/
private theorem Counted.pending_snoc {upTo after : List Label} {pc : Pc} {l : Label}
    (hpc : p.PanicPending pc) (hexits : exits after = []) (hinstances : instances after = 0)
    (hrecord : exits [l] = []) (hspawn : instances [l] = 0) : p.Counted upTo (after ++ [l]) pc := by
  refine .pending hpc ?_ ?_
  · rw [exits_append, hexits, hrecord, List.append_nil]
  · rw [instances_append, hinstances, hspawn]

/-- A pending panic after one more step. -/
private theorem Counted.step_pending {upTo after : List Label} {s s' : State} {l : Label}
    (hrun : p.machine.Run (upTo ++ after) s) (hpc : p.PanicPending s.pc)
    (hexits : exits after = []) (hinstances : instances after = 0) (hl : p.step s l = some s') :
    p.Counted upTo (after ++ [l]) s'.pc := by
  cases (p.step_iff).mp hl with
  | cancel => exact .pending_snoc hpc hexits hinstances rfl rfl
  | @checkJoin startedAt outcome hcheck =>
    cases hc : s.cancelled with
    | true =>
      rw [← List.append_nil (after ++ _)]
      exact .shutDown hinstances ((p.cancelled_iff hrun).mp hc)
    | false =>
      rw [hcheck] at hpc
      exact .pending_snoc hpc hexits hinstances rfl rfl
  | @healthy now startedAt outcome hhealthy hclock =>
    rw [hhealthy] at hpc
    exact .pending_snoc hpc hexits hinstances rfl rfl
  | @classify outcome hclassify =>
    rw [hclassify] at hpc
    obtain ⟨err, hmatch⟩ := classifyOutcome_of_panicked (p := p) hpc
    rw [hmatch]
    cases hpolicy : p.restartOnPanic with
    | true => exact .pending_snoc hpolicy hexits hinstances rfl rfl
    | false => exact .terminated hpolicy rfl
  | record hrecord hclock =>
    rw [hrecord] at hpc
    rw [← List.append_nil (after ++ _)]
    exact .recorded hpc hexits hinstances
  | _ hother => simp [hother, PanicPending] at hpc

/-- What has become of a panic stays so, or goes one step on. -/
private theorem Counted.step {upTo after : List Label} {s s' : State} {l : Label}
    (hrun : p.machine.Run (upTo ++ after) s) (h : p.Counted upTo after s.pc)
    (hl : p.step s l = some s') : p.Counted upTo (after ++ [l]) s'.pc := by
  have hexec : p.machine.exec s [l] = some s' := (p.machine.exec_cons_iff).mpr ⟨s', hl, rfl⟩
  generalize hpc : s.pc = pc at h
  cases h with
  | pending hpending hexits hinstances =>
    exact .step_pending hrun (hpc ▸ hpending) hexits hinstances hl
  | shutDown hinstances hcancel =>
    rw [p.returned_of_exec hexec hpc, List.append_assoc]
    exact .shutDown hinstances hcancel
  | terminated hpolicy hctx =>
    rw [p.returned_of_exec hexec hpc]
    exact .terminated hpolicy hctx
  | recorded hpolicy hexits hinstances =>
    rw [List.append_assoc]
    exact .recorded hpolicy hexits hinstances

/-- A panic of a future is counted. -/
private theorem counted_of_join {before after : List Label} {outcome : Outcome} {s : State}
    (hrun : p.machine.Run (before ++ [.join outcome] ++ after) s)
    (hpanicked : panicked outcome = true) :
    p.Counted (before ++ [.join outcome]) after s.pc := by
  induction after using List.reverseRecOn generalizing s with
  | nil =>
    rw [List.append_nil] at hrun
    obtain ⟨s₁, -, hl⟩ := (p.machine.exec_snoc_iff).mp hrun
    cases (p.step_iff).mp hl with
    | join hpc => exact .pending hpanicked rfl rfl
  | append_singleton after l ih =>
    rw [← List.append_assoc] at hrun
    obtain ⟨s₁, h₁, hl⟩ := (p.machine.exec_snoc_iff).mp hrun
    exact (ih h₁).step h₁ hl

/-! ### Panics and errors -/

/-- An outcome with an error in place of a panic. -/
def panicAsError (report : UtilsReport) : Outcome → Outcome
  | .error err => if err.isPanic then .ok (.error report) else .error err
  | outcome => outcome

def Label.panicAsError (report : UtilsReport) : Label → Label
  | .join outcome => .join (Supervisor.panicAsError report outcome)
  | l => l

def Pc.panicAsError (report : UtilsReport) : Pc → Pc
  | .checkJoin startedAt outcome => .checkJoin startedAt (Supervisor.panicAsError report outcome)
  | .healthy startedAt outcome => .healthy startedAt (Supervisor.panicAsError report outcome)
  | .classify outcome => .classify (Supervisor.panicAsError report outcome)
  | pc => pc

/-- The state with an error in place of a panic that the loop has not matched yet. -/
def State.panicAsError (report : UtilsReport) (s : State) : State :=
  { s with pc := s.pc.panicAsError report }

/-- The match does not distinguish a panic that is to be restarted from an error. -/
private theorem classifyOutcome_panicAsError (hpolicy : p.restartOnPanic = true)
    (report : UtilsReport)
    (outcome : Outcome) : p.classifyOutcome (panicAsError report outcome) =
      (p.classifyOutcome outcome).panicAsError report := by
  match outcome with
  | .ok (.ok ()) =>
    cases hok : p.restartOnOk <;> simp [panicAsError, classifyOutcome, hok, Pc.panicAsError]
  | .ok (.error _) => rfl
  | .error err =>
    cases herr : err.isPanic <;>
      simp [panicAsError, classifyOutcome, herr, hpolicy, Pc.panicAsError]

private theorem panicAsError_afterPoll (report : UtilsReport) (sleep : Sleep Unit) :
    (afterPoll sleep).panicAsError report = afterPoll sleep := by
  rcases afterPoll_cases sleep with h | h | h <;> rw [h] <;> rfl

/-- With an error in place of each panic the loop makes the same step. -/
private theorem step_panicAsError (hpolicy : p.restartOnPanic = true) (report : UtilsReport)
    {s s' : State} {l : Label} (hl : p.step s l = some s') :
    p.step (s.panicAsError report) (l.panicAsError report) = some (s'.panicAsError report) := by
  cases (p.step_iff).mp hl with
  | classify hpc =>
    simp [step, Label.panicAsError, State.panicAsError, hpc, Pc.panicAsError,
      classifyOutcome_panicAsError hpolicy]
  | @poll now sleep hpc hclock =>
    have hsleeping : (Pc.sleeping sleep).panicAsError report = .sleeping sleep := rfl
    simp [step, Label.panicAsError, State.panicAsError, hpc, hsleeping, hclock,
      panicAsError_afterPoll]
  | checkTop hpc | checkJoin hpc | budget hpc =>
    simp only [step, Label.panicAsError, State.panicAsError, hpc, Pc.panicAsError]
    split <;> rfl
  | backoff hpc hclock =>
    simp only [step, Label.panicAsError, State.panicAsError, hpc, Pc.panicAsError, if_pos hclock]
    split <;> rfl
  | _ => simp_all [step, Label.panicAsError, State.panicAsError, Pc.panicAsError]

/-- **A restarted panic is an exit like any other**: with an error in place of each panic, the run
goes the same way. -/
theorem run_panicAsError (hpolicy : p.restartOnPanic = true) (report : UtilsReport)
    {ls : List Label} {s : State} (hrun : p.machine.Run ls s) :
    p.machine.Run (ls.map (Label.panicAsError report)) (s.panicAsError report) :=
  p.machine.exec_map (N := p.machine) (f := State.panicAsError report)
    (fun _ _ _ hl => step_panicAsError hpolicy report hl) hrun

/-! ### Containment -/

private theorem classifyOutcome_ne_unwound (outcome : Outcome) (msg : String) :
    p.classifyOutcome outcome ≠ .unwound msg := by
  rcases p.classifyOutcome_cases outcome with h | ⟨result, h, -⟩ <;> rw [h] <;>
    exact Pc.noConfusion

private theorem afterPoll_ne_unwound (sleep : Sleep Unit) (msg : String) :
    afterPoll sleep ≠ .unwound msg := by
  rcases afterPoll_cases sleep with h | h | h <;> rw [h] <;> exact Pc.noConfusion

/-- Only a panic of the call of `factory` unwinds. -/
private theorem Step.unwound_iff {s s' : State} {l : Label} (h : p.Step s l s') (msg : String) :
    s'.pc = .unwound msg ↔ s.pc = .unwound msg ∨ l = .factoryPanic msg := by
  cases h with
  | cancel => simp
  | factoryPanic hpc => simp [hpc]
  | classify hpc => simp [hpc, classifyOutcome_ne_unwound]
  | poll hpc hclock => simp [hpc, afterPoll_ne_unwound]
  | checkTop hpc | checkJoin hpc | budget hpc | backoff hpc hclock =>
    simp only [hpc, reduceCtorEq, or_self, iff_false]
    split <;> exact Pc.noConfusion
  | _ hpc => simp [hpc]

/-- `run` has unwound exactly if a call of `factory` has panicked. -/
private theorem factoryPanic_mem_iff {ls : List Label} {s : State} (hrun : p.machine.Run ls s)
    (msg : String) : .factoryPanic msg ∈ ls ↔ s.pc = .unwound msg := by
  refine hrun.induct (I := fun ls s => .factoryPanic msg ∈ ls ↔ s.pc = .unwound msg)
    (by simp [machine]) ?_
  intro ls l s s' _ ih hl
  rw [List.mem_append, List.mem_singleton, ih, eq_comm (a := Label.factoryPanic msg)]
  exact (((p.step_iff).mp hl).unwound_iff msg).symm

/-- The panics of the caller's code are contained: `run` has not unwound, every panic has counted as
a panicked instance, and where panics are restarted it does not differ from any other exit. -/
structure Contained (p : Supervisor) (ls : List Label) (s : State) : Prop where
  notUnwound : ∀ msg, s.pc ≠ .unwound msg
  counted : ∀ before l after, ls = before ++ [l] ++ after → l.panics = true →
    p.Counted (before ++ [l]) after s.pc
  likeErrors : p.restartOnPanic = true → ∀ report,
    p.machine.Run (ls.map (Label.panicAsError report)) (s.panicAsError report)

/-- **When a supervisor contains the panics.** In a run of any policy the panics of the caller's
code are contained if and only if no call of `factory` has panicked. -/
theorem contained_iff {ls : List Label} {s : State} (hrun : p.machine.Run ls s) :
    p.Contained ls s ↔ ∀ msg, .factoryPanic msg ∉ ls := by
  constructor
  · intro h msg hmem
    exact h.notUnwound msg ((factoryPanic_mem_iff hrun msg).mp hmem)
  · intro h
    refine ⟨fun msg hpc => h msg ((factoryPanic_mem_iff hrun msg).mpr hpc), ?_,
      fun hpolicy report => run_panicAsError hpolicy report hrun⟩
    rintro before l after rfl hpanics
    match l with
    | .factoryPanic msg => exact absurd (by simp) (h msg)
    | .join outcome => exact counted_of_join hrun hpanics

/-- Three panics of instances, the last of which exhausts the budget. -/
theorem contained_iff_threeCrashes :
    tightPolicy.Contained threeCrashes
      ⟨false, 22, [20, 22], 2, .returned (.error (tightPolicy.budgetReport [20, 22]))⟩ := by
  have hrun : tightPolicy.machine.Run threeCrashes
      ⟨false, 22, [20, 22], 2, .returned (.error (tightPolicy.budgetReport [20, 22]))⟩ := by
    decide +kernel
  exact (contained_iff hrun).mpr fun msg => by simp [threeCrashes, crashRound]

/-- A panic of the first call of `factory` unwinds the default policy, which restarts on panic. -/
theorem factoryPanic_not_contained :
    new.machine.Run [.checkTop, .factoryPanic "boom"] ⟨false, 0, [], 0, .unwound "boom"⟩ ∧
      new.restartOnPanic = true ∧
      ¬new.Contained [.checkTop, .factoryPanic "boom"] ⟨false, 0, [], 0, .unwound "boom"⟩ :=
  ⟨by decide, rfl, fun h => h.notUnwound "boom" rfl⟩

end Supervisor

end RustUtils
