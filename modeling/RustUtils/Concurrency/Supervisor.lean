import RustUtils.Backoff
import RustUtils.Runtime.Task
import RustUtils.Transition.Machine

/-!
# `Supervisor::run`

The supervision loop as a machine. `Pc` is the statement the loop stands at, with the local
variables that are live there, and every label is one statement executed or one move of the
environment: `cancel` fires the token at any point whatsoever, and the labels of statements
that read a clock carry the reading, which is never earlier than the previous one.

The bottom of the file is the inversion of the step function: `step_iff` says once what each
statement can do, and all invariants of the loop are derived from it.
-/

namespace RustUtils

open Transition

/-- `Supervisor`: the restart policy. -/
structure Supervisor where
  name : Option String
  maxRestarts : Option NonZeroU32
  restartWindow : Option Duration
  baseBackoff : Duration
  maxBackoff : Duration
  jitter : Bool
  restartOnOk : Bool
  restartOnPanic : Bool

namespace Supervisor

/-- `Supervisor::new`: unlimited restarts, 200ms base backoff, 30s cap, full jitter, restart
on everything. -/
def new : Supervisor where
  name := none
  maxRestarts := none
  restartWindow := none
  baseBackoff := Duration.fromNanos 200000000
  maxBackoff := Duration.fromSecs 30
  jitter := true
  restartOnOk := true
  restartOnPanic := true

/-- The statement `run` stands at. -/
inductive Pc where
  /-- The token check at the top of the loop. -/
  | loopTop
  /-- The instance is about to be spawned. -/
  | spawn
  /-- Awaiting the instance spawned at `runStartedAt`. -/
  | join (runStartedAt : ℕ)
  /-- The token check after the join. -/
  | checkJoin (runStartedAt : ℕ) (outcome : Outcome)
  /-- The healthy-run heuristic. -/
  | healthy (runStartedAt : ℕ) (outcome : Outcome)
  /-- The match on the outcome. -/
  | classify (outcome : Outcome)
  /-- Recording the exit and pruning the history. -/
  | record
  /-- The budget check. -/
  | budget
  /-- The backoff computation. -/
  | backoff
  /-- Suspended in `sleep_or_cancel`. -/
  | sleeping (sleep : Sleep Unit)
  /-- `run` has returned. -/
  | returned (result : UtilsResult Unit)
  /-- `run` has unwound with a panic of its caller's `factory`. -/
  | unwound (msg : String)
  deriving DecidableEq

/-- The local state of `run`, the token and the clock. -/
structure State where
  /-- The token is cancelled. -/
  cancelled : Bool
  /-- The latest clock reading. -/
  clock : ℕ
  restartHistory : List ℕ
  /-- A `u32`. -/
  consecutive : ℕ
  pc : Pc
  deriving DecidableEq

/-- One statement of `run`, or a move of its environment. -/
inductive Label where
  /-- The environment cancels the token. -/
  | cancel
  | checkTop
  | spawn (now : ℕ)
  /-- The call of `factory` panics. -/
  | factoryPanic (msg : String)
  /-- The instance ends and its handle is joined. -/
  | join (outcome : Outcome)
  | checkJoin
  | healthy (now : ℕ)
  | classify
  | record (now : ℕ)
  | budget
  | backoff (now : ℕ) (wall : ℤ)
  | poll (now : ℕ)
  deriving DecidableEq

variable (p : Supervisor)

/-! ### The pieces of the loop body -/

/-- The label used in messages. -/
def displayName : String := p.name.getD "supervisor"

/-- The report of a panic that is not to be restarted. -/
def panicReport (err : JoinError) : UtilsReport :=
  let name := p.displayName
  let panicMsg := err.display
  ((UtilsReport.new .concurrency).attach
    s!"supervised task [{name}] panicked and restart_on_panic is disabled").attach
    s!"panic: {panicMsg}"

/-- The report of a join failure that is neither a panic nor expected. -/
def joinReport (err : JoinError) : UtilsReport :=
  let name := p.displayName
  ((UtilsReport.new .concurrency).attach s!"supervised task [{name}] join failed").attach
    err.display

/-- The match on the outcome: the terminal outcomes return, all others go on to the
bookkeeping of a restart. -/
def classifyOutcome : Outcome → Pc
  | .ok (.ok ()) => if !p.restartOnOk then .returned (.ok ()) else .record
  | .ok (.error _) => .record
  | .error err =>
    if err.isPanic then
      if !p.restartOnPanic then .returned (.error (p.panicReport err)) else .record
    else .returned (.error (p.joinReport err))

/-- The pruning loop: pop the front while it is older than the window. -/
def prune (now : ℕ) (window : Duration) : List ℕ → List ℕ
  | [] => []
  | front :: rest =>
    if window.toNanos < durationSince now front then prune now window rest else front :: rest

/-- Push the exit time and prune. -/
def recordExit (history : List ℕ) (now : ℕ) : List ℕ :=
  match p.restartWindow with
  | some window => prune now window (history ++ [now])
  | none => history ++ [now]

/-- The budget check; the length is cast to `u32`. -/
def budgetExceeded (history : List ℕ) : Bool :=
  match p.maxRestarts with
  | some cap => cap.val < history.length % 2 ^ 32
  | none => false

/-- The report of an exhausted budget. -/
def budgetReport (history : List ℕ) : UtilsReport :=
  let name := p.displayName
  let count := history.length
  let windowNote := match p.restartWindow with
    | some window => " within " ++ window.debug
    | none => ""
  let cap := match p.maxRestarts with
    | some cap => cap.val
    | none => 0
  (UtilsReport.new .retryExhausted).attach
    s!"supervisor [{name}] exhausted restart budget: {count} restarts{windowNote} exceeds cap {cap}"

/-- Where the loop goes from a polled sleep. -/
def afterPoll : Sleep Unit → Pc
  | .done true => .loopTop
  | .done false => .returned (.ok ())
  | sleep => .sleeping sleep

/-- The consecutive count after one more restart, a saturating `u32` increment. -/
def bump (consecutive : ℕ) : ℕ := min (consecutive + 1) (2 ^ 32 - 1)

/-- The delay before the next restart. -/
def sleepFor (consecutive : ℕ) (wall : ℤ) : Duration :=
  computeDelay p.baseBackoff p.maxBackoff consecutive p.jitter wall

/-! ### The step function -/

/-- One labelled step of `run`. -/
def step (s : State) (l : Label) : Option State :=
  match l, s.pc with
  | .cancel, _ => some { s with cancelled := true }
  | .checkTop, .loopTop =>
    some { s with pc := if s.cancelled then .returned (.ok ()) else .spawn }
  | .spawn now, .spawn =>
    if s.clock ≤ now then some { s with clock := now, pc := .join now } else none
  | .factoryPanic msg, .spawn => some { s with pc := .unwound msg }
  | .join outcome, .join startedAt => some { s with pc := .checkJoin startedAt outcome }
  | .checkJoin, .checkJoin startedAt outcome =>
    some { s with
      pc := if s.cancelled then .returned (.ok ()) else .healthy startedAt outcome }
  | .healthy now, .healthy startedAt outcome =>
    if s.clock ≤ now then
      some { s with
        clock := now
        consecutive :=
          if p.maxBackoff.toNanos ≤ durationSince now startedAt then 0 else s.consecutive
        pc := .classify outcome }
    else none
  | .classify, .classify outcome => some { s with pc := p.classifyOutcome outcome }
  | .record now, .record =>
    if s.clock ≤ now then
      some { s with
        clock := now, restartHistory := p.recordExit s.restartHistory now, pc := .budget }
    else none
  | .budget, .budget =>
    some { s with
      pc := if p.budgetExceeded s.restartHistory then
          .returned (.error (p.budgetReport s.restartHistory))
        else .backoff }
  | .backoff now wall, .backoff =>
    if s.clock ≤ now then
      some { s with
        clock := now
        consecutive := bump s.consecutive
        pc := if (p.sleepFor (bump s.consecutive) wall).isZero then .loopTop
          else .sleeping (Sleep.start (some ()) (p.sleepFor (bump s.consecutive) wall) now) }
    else none
  | .poll now, .sleeping sleep =>
    if s.clock ≤ now then
      some { s with clock := now, pc := afterPoll (sleep.poll (fun _ => s.cancelled) now) }
    else none
  | _, _ => none

/-- `run` as a machine: fresh local state, a token that is not cancelled and a clock at its
origin. A token cancelled before the call is a `cancel` taken first. -/
def machine : Machine State Label where
  init := ⟨false, 0, [], 0, .loopTop⟩
  step := p.step

@[simp]
theorem machine_step (s : State) (l : Label) : p.machine.step s l = p.step s l := rfl

/-! ### Inversion of the step function -/

/-- What one step can do, as a relation with one constructor for each statement. -/
inductive Step (s : State) : Label → State → Prop
  | cancel : Step s .cancel { s with cancelled := true }
  | checkTop (hpc : s.pc = .loopTop) :
      Step s .checkTop { s with pc := if s.cancelled then .returned (.ok ()) else .spawn }
  | spawn {now : ℕ} (hpc : s.pc = .spawn) (hclock : s.clock ≤ now) :
      Step s (.spawn now) { s with clock := now, pc := .join now }
  | factoryPanic {msg : String} (hpc : s.pc = .spawn) :
      Step s (.factoryPanic msg) { s with pc := .unwound msg }
  | join {startedAt : ℕ} {outcome : Outcome} (hpc : s.pc = .join startedAt) :
      Step s (.join outcome) { s with pc := .checkJoin startedAt outcome }
  | checkJoin {startedAt : ℕ} {outcome : Outcome} (hpc : s.pc = .checkJoin startedAt outcome) :
      Step s .checkJoin
        { s with pc := if s.cancelled then .returned (.ok ()) else .healthy startedAt outcome }
  | healthy {now startedAt : ℕ} {outcome : Outcome} (hpc : s.pc = .healthy startedAt outcome)
      (hclock : s.clock ≤ now) :
      Step s (.healthy now) { s with
        clock := now
        consecutive :=
          if p.maxBackoff.toNanos ≤ durationSince now startedAt then 0 else s.consecutive
        pc := .classify outcome }
  | classify {outcome : Outcome} (hpc : s.pc = .classify outcome) :
      Step s .classify { s with pc := p.classifyOutcome outcome }
  | record {now : ℕ} (hpc : s.pc = .record) (hclock : s.clock ≤ now) :
      Step s (.record now) { s with
        clock := now, restartHistory := p.recordExit s.restartHistory now, pc := .budget }
  | budget (hpc : s.pc = .budget) :
      Step s .budget { s with
        pc := if p.budgetExceeded s.restartHistory then
            .returned (.error (p.budgetReport s.restartHistory))
          else .backoff }
  | backoff {now : ℕ} {wall : ℤ} (hpc : s.pc = .backoff) (hclock : s.clock ≤ now) :
      Step s (.backoff now wall) { s with
        clock := now
        consecutive := bump s.consecutive
        pc := if (p.sleepFor (bump s.consecutive) wall).isZero then .loopTop
          else .sleeping (Sleep.start (some ()) (p.sleepFor (bump s.consecutive) wall) now) }
  | poll {now : ℕ} {sleep : Sleep Unit} (hpc : s.pc = .sleeping sleep) (hclock : s.clock ≤ now) :
      Step s (.poll now)
        { s with clock := now, pc := afterPoll (sleep.poll (fun _ => s.cancelled) now) }

/-- The step function makes exactly the steps of the relation. -/
theorem step_iff {s s' : State} {l : Label} : p.step s l = some s' ↔ p.Step s l s' := by
  constructor
  · intro h
    unfold step at h
    split at h
    all_goals simp only [Option.ite_none_right_eq_some, Option.some_inj, reduceCtorEq] at h
    all_goals obtain ⟨_, rfl⟩ := h
    all_goals constructor <;> assumption
  · intro h
    cases h <;> simp_all [step]

/-- The match on an outcome goes on to the bookkeeping, or returns. Its errors are its own. -/
theorem classifyOutcome_cases (outcome : Outcome) :
    p.classifyOutcome outcome = .record ∨
      ∃ result, p.classifyOutcome outcome = .returned result ∧
        ∀ r, result = .error r → r.currentContext = .concurrency := by
  unfold classifyOutcome
  split
  · split
    · exact Or.inr ⟨_, rfl, fun r hr => by contradiction⟩
    · exact Or.inl rfl
  · exact Or.inl rfl
  · split_ifs
    · exact Or.inr ⟨_, rfl, fun r hr => by rw [← Except.error.inj hr]; rfl⟩
    · exact Or.inl rfl
    · exact Or.inr ⟨_, rfl, fun r hr => by rw [← Except.error.inj hr]; rfl⟩

/-- A polled sleep has elapsed, has been cancelled, or is still pending. -/
theorem afterPoll_cases (sleep : Sleep Unit) : afterPoll sleep = .loopTop ∨
    afterPoll sleep = .returned (.ok ()) ∨ afterPoll sleep = .sleeping sleep := by
  unfold afterPoll
  split
  · exact Or.inl rfl
  · exact Or.inr (Or.inl rfl)
  · exact Or.inr (Or.inr rfl)

end Supervisor

end RustUtils
