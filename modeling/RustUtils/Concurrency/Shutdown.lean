import RustUtils.Runtime.Duration
import RustUtils.Runtime.Task
import RustUtils.Transition.Tasks

/-!
# `ShutdownController`

A controller is a pair of references, to a cancellation token and to a task tracker, and a
clone copies the references. The main party makes the calls of the API on any clone; every
call of `spawn`, `spawn_critical` or `trigger_on_signal` spawns a task. A critical task is
modelled together with the inner task its wrapper spawns, so a phase of it says where both
of them are.

A task touches the shared state in two ways only: it cancels its token, or it leaves its
tracker when its tracked future completes or is dropped (`Effect`). A call of `shutdown`
cancels the token, closes the tracker, begins to wait, and returns when the wait has resolved,
which it does at the first moment at which the tracker is closed and nothing is tracked. At its
deadline it counts the tracked tasks and reports them instead. Each of these is a move of its own,
so that anything can happen in between.
-/

namespace RustUtils

open Transition

/-- `ShutdownController`: references to its token and to its tracker. -/
structure ShutdownController where
  token : ℕ
  tracker : ℕ
  deriving DecidableEq

namespace ShutdownController

/-! ### Tokens, trackers and calls of `shutdown` -/

/-- `TaskTracker`. -/
structure Tracker where
  closed : Bool
  /-- The tasks whose tracked future has neither completed nor been dropped. -/
  tracked : List ℕ
  deriving DecidableEq

/-- What `wait()` waits for. -/
def Tracker.drained (t : Tracker) : Bool := t.closed && t.tracked.isEmpty

/-- Where a call of `shutdown` stands. -/
inductive CallPhase where
  /-- The token is cancelled, and the tracker is not closed yet. -/
  | cancelled
  /-- The tracker is closed, and `wait()` is not called yet. -/
  | closed
  /-- Awaiting `wait()` under the timeout. -/
  | waiting (resolved : Bool)
  /-- The timeout has elapsed, and the tracked tasks are not counted yet. -/
  | timedOut
  | returned (result : UtilsResult Unit)
  deriving DecidableEq

/-- The phase after a moment at which the tracker is drained, if it is: a pending wait
resolves, and stays resolved. -/
def CallPhase.resolve (drained : Bool) : CallPhase → CallPhase
  | .waiting resolved => .waiting (resolved || drained)
  | p => p

/-- The phase at the deadline: `timeout` polls the wait before its timer. -/
def CallPhase.expired (resolved : Bool) : CallPhase :=
  if resolved then .returned (.ok ()) else .timedOut

/-- A call of `shutdown`. -/
structure ShutdownCall where
  controller : ShutdownController
  timeout : Duration
  phase : CallPhase
  deriving DecidableEq

/-- What the controllers share. -/
structure Shared where
  /-- The clones of the controller. -/
  controllers : List ShutdownController
  /-- The tokens, by reference: is the token cancelled. -/
  tokens : List Bool
  trackers : List Tracker
  calls : List ShutdownCall
  deriving DecidableEq

namespace Shared

variable (s : Shared)

/-- `CancellationToken::is_cancelled`. -/
def isCancelled (token : ℕ) : Bool := s.tokens.getD token false

/-- `CancellationToken::cancel`. -/
def cancel (token : ℕ) : Shared := { s with tokens := s.tokens.set token true }

/-- The tracker behind a reference. -/
def tracker (r : ℕ) : Tracker := s.trackers.getD r ⟨false, []⟩

/-- Resolve the waits on a drained tracker. -/
def settle : Shared :=
  { s with
    calls := s.calls.map fun c =>
      { c with phase := c.phase.resolve (s.tracker c.controller.tracker).drained } }

/-- A task becomes tracked. -/
def track (r i : ℕ) : Shared :=
  { s with trackers := s.trackers.modify r fun t => { t with tracked := i :: t.tracked } }

/-- A tracked future completes or is dropped. -/
def untrack (r i : ℕ) : Shared :=
  settle { s with trackers := s.trackers.modify r fun t => { t with tracked := t.tracked.erase i } }

/-- `TaskTracker::close`. -/
def close (r : ℕ) : Shared :=
  settle { s with trackers := s.trackers.modify r fun t => { t with closed := true } }

/-- `shutdown` is called. -/
def addCall (c : ShutdownCall) : Shared := { s with calls := s.calls ++ [c] }

/-- Move a call of `shutdown` to its next phase. -/
def setCall (k : ℕ) (c : ShutdownCall) : Shared := { s with calls := s.calls.set k c }

/-- Where call `k` of `shutdown` stands. -/
def callPhase (k : ℕ) : Option CallPhase := (s.calls[k]?).map ShutdownCall.phase

end Shared

/-! ### Tasks -/

/-- Where a task of the controller stands. -/
inductive Phase where
  /-- The future passed to `spawn` runs. -/
  | running
  /-- It has returned, panicked or been dropped. -/
  | ended
  /-- The wrapper of `spawn_critical` is not polled yet and owns the future. -/
  | fresh
  /-- The wrapper awaits the inner task, which runs the future. -/
  | awaiting
  /-- The inner task has ended, and the wrapper is to be resumed. -/
  | innerEnded (outcome : Outcome)
  /-- The wrapper has matched the outcome. -/
  | matched (outcome : Outcome)
  /-- The wrapper has ended. -/
  | exited (outcome : Outcome)
  /-- The wrapper was aborted before its first poll, and the future dropped with it. -/
  | dropped
  /-- The wrapper was aborted while it awaited the inner task, which is detached and runs. -/
  | detached
  /-- The detached inner task has ended. -/
  | detachedEnded (outcome : Outcome)
  /-- The wrapper was aborted when the inner task had ended. -/
  | abandoned (outcome : Outcome)
  /-- A listener of `trigger_on_signal` waits for a signal. -/
  | listening
  /-- It has received one and cancelled the token. -/
  | signalled
  | listenerEnded
  deriving DecidableEq

/-- One step of a task. -/
inductive Act where
  /-- The future passed to `spawn` returns. -/
  | finish
  /-- It panics, or a listener fails to install its handler. -/
  | panic
  /-- `abort` on the handle drops the future of the task. -/
  | abort
  /-- The first poll of the wrapper spawns the inner task. -/
  | start
  | innerEnd (outcome : Outcome)
  /-- The wrapper is resumed and matches the outcome. -/
  | resume
  /-- The tracked future completes. -/
  | exit
  /-- The process receives a termination signal. -/
  | signal
  deriving DecidableEq

/-- What a step does to the shared state. -/
inductive Effect where
  | none
  /-- `token.cancel()`. -/
  | cancel
  /-- The task leaves its tracker. -/
  | untrack
  deriving DecidableEq

/-- The outcomes of the inner task on which the wrapper cancels the token: an error, a
panic, and defensively any other failure to join. -/
def failed : Outcome → Bool
  | .ok (.ok ()) => false
  | .ok (.error _) => true
  | .error _ => true

/-- One step of a task: its effect and its next phase. -/
def transition : Act → Phase → Option (Effect × Phase)
  | .finish, .running => some (.untrack, .ended)
  | .panic, .running => some (.untrack, .ended)
  | .abort, .running => some (.untrack, .ended)
  | .start, .fresh => some (.none, .awaiting)
  | .innerEnd outcome, .awaiting => some (.none, .innerEnded outcome)
  | .resume, .innerEnded outcome =>
    some (if failed outcome then .cancel else .none, .matched outcome)
  | .exit, .matched outcome => some (.untrack, .exited outcome)
  | .abort, .fresh => some (.untrack, .dropped)
  -- The `JoinHandle` of the inner task is dropped with the wrapper, and detaches it.
  | .abort, .awaiting => some (.untrack, .detached)
  | .abort, .innerEnded outcome => some (.untrack, .abandoned outcome)
  | .innerEnd outcome, .detached => some (.none, .detachedEnded outcome)
  | .signal, .listening => some (.cancel, .signalled)
  | .exit, .signalled => some (.untrack, .listenerEnded)
  | .panic, .listening => some (.untrack, .listenerEnded)
  | _, _ => none

/-- A task, with the references it has captured. -/
structure Task where
  controller : ShutdownController
  phase : Phase
  deriving DecidableEq

/-! ### The calls of the API -/

/-- A call of the API, or a step of a pending `shutdown`. -/
inductive Move where
  | clone (h : ℕ)
  | trigger (h : ℕ)
  | spawn (h : ℕ)
  | spawnCritical (h : ℕ)
  | triggerOnSignal (h : ℕ)
  /-- `shutdown` is called and cancels the token. -/
  | shutdown (h : ℕ) (timeout : Duration)
  /-- It closes the tracker. -/
  | close (k : ℕ)
  /-- It calls `wait()`. -/
  | wait (k : ℕ)
  /-- Its wait has resolved and it returns. -/
  | finish (k : ℕ)
  /-- Its deadline is reached. -/
  | deadline (k : ℕ)
  /-- It counts the tracked tasks and returns its report. -/
  | report (k : ℕ)
  deriving DecidableEq

/-- The configurations of a controller, its clones and its tasks. -/
abbrev State := Config Shared Task

/-- The moves of a controller, its clones and its tasks. -/
abbrev Label := Transition.Move Move Act

/-- The report of a timeout. -/
def timeoutReport (timeout : Duration) (remaining : ℕ) : UtilsReport :=
  (UtilsReport.new .concurrency).attach
    s!"shutdown timed out after {timeout.debug} with {remaining} task(s) still running"

/-- A call of the API. -/
def main (c : State) : Move → Option (Shared × List Task)
  | .clone h =>
    (c.shared.controllers[h]?).map fun ctl =>
      ({ c.shared with controllers := c.shared.controllers ++ [ctl] }, [])
  | .trigger h => (c.shared.controllers[h]?).map fun ctl => (c.shared.cancel ctl.token, [])
  | .spawn h =>
    (c.shared.controllers[h]?).map fun ctl =>
      (c.shared.track ctl.tracker c.tasks.length, [⟨ctl, .running⟩])
  | .spawnCritical h =>
    (c.shared.controllers[h]?).map fun ctl =>
      (c.shared.track ctl.tracker c.tasks.length, [⟨ctl, .fresh⟩])
  | .triggerOnSignal h =>
    (c.shared.controllers[h]?).map fun ctl =>
      (c.shared.track ctl.tracker c.tasks.length, [⟨ctl, .listening⟩])
  | .shutdown h timeout =>
    (c.shared.controllers[h]?).map fun ctl =>
      ((c.shared.cancel ctl.token).addCall ⟨ctl, timeout, .cancelled⟩, [])
  | .close k =>
    (c.shared.calls[k]?).bind fun call =>
      match call.phase with
      | .cancelled =>
        some ((c.shared.setCall k { call with phase := .closed }).close call.controller.tracker, [])
      | _ => none
  | .wait k =>
    (c.shared.calls[k]?).bind fun call =>
      match call.phase with
      | .closed =>
        let drained := (c.shared.tracker call.controller.tracker).drained
        some (c.shared.setCall k { call with phase := .waiting drained }, [])
      | _ => none
  | .finish k =>
    (c.shared.calls[k]?).bind fun call =>
      match call.phase with
      | .waiting true => some (c.shared.setCall k { call with phase := .returned (.ok ()) }, [])
      | _ => none
  | .deadline k =>
    (c.shared.calls[k]?).bind fun call =>
      match call.phase with
      | .waiting resolved =>
        some (c.shared.setCall k { call with phase := .expired resolved }, [])
      | _ => none
  | .report k =>
    (c.shared.calls[k]?).bind fun call =>
      match call.phase with
      | .timedOut =>
        let remaining := (c.shared.tracker call.controller.tracker).tracked.length
        some (c.shared.setCall k
          { call with phase := .returned (.error (timeoutReport call.timeout remaining)) }, [])
      | _ => none

/-- The effect of a step of task `i`. -/
def Effect.apply (e : Effect) (s : Shared) (i : ℕ) (t : Task) : Shared :=
  match e with
  | .none => s
  | .cancel => s.cancel t.controller.token
  | .untrack => s.untrack t.controller.tracker i

/-- `ShutdownController::new` and everything that can happen to it. -/
def system : TaskSystem Shared Task Move Act where
  init := ⟨[⟨0, 0⟩], [false], [⟨false, []⟩], []⟩
  main := main
  act s i t a := (transition a t.phase).map fun r => (r.1.apply s i t, { t with phase := r.2 })

/-- `ShutdownController::is_shutdown` on clone `h`. -/
def isShutdown (s : State) (h : ℕ) : Option Bool :=
  (s.shared.controllers[h]?).map fun ctl => s.shared.isCancelled ctl.token

/-! ### Inversion of the moves -/

/-- The references of the controller and of all its clones. -/
def root : ShutdownController := ⟨0, 0⟩

/-- Every clone and every call refers to the one token and the one tracker. -/
structure Shared.Wired (s : Shared) : Prop where
  controllers : ∀ ctl ∈ s.controllers, ctl = root
  tokens : s.tokens.length = 1
  trackers : s.trackers.length = 1
  calls : ∀ c ∈ s.calls, c.controller = root

/-- So does every task. -/
structure Wired (s : State) : Prop where
  shared : s.shared.Wired
  tasks : ∀ t ∈ s.tasks, t.controller = root

/-- What the calls that spawn a task start it with. -/
inductive Spawns : Move → Phase → Prop
  | spawn {h : ℕ} : Spawns (.spawn h) .running
  | spawnCritical {h : ℕ} : Spawns (.spawnCritical h) .fresh
  | triggerOnSignal {h : ℕ} : Spawns (.triggerOnSignal h) .listening

/-- What a call of the API can do. -/
inductive Calls (s : State) : Move → Shared → List Task → Prop
  | clone {h : ℕ} : Calls s (.clone h)
      { s.shared with controllers := s.shared.controllers ++ [root] } []
  | trigger {h : ℕ} : Calls s (.trigger h) (s.shared.cancel 0) []
  | spawn {g : Move} {p : Phase} (hg : Spawns g p) :
      Calls s g (s.shared.track 0 s.tasks.length) [⟨root, p⟩]
  | shutdown {h : ℕ} {timeout : Duration} : Calls s (.shutdown h timeout)
      ((s.shared.cancel 0).addCall ⟨root, timeout, .cancelled⟩) []
  | close {k : ℕ} {timeout : Duration}
      (hcall : s.shared.calls[k]? = some ⟨root, timeout, .cancelled⟩) :
      Calls s (.close k) ((s.shared.setCall k ⟨root, timeout, .closed⟩).close 0) []
  | wait {k : ℕ} {timeout : Duration}
      (hcall : s.shared.calls[k]? = some ⟨root, timeout, .closed⟩) :
      Calls s (.wait k)
        (s.shared.setCall k ⟨root, timeout, .waiting (s.shared.tracker 0).drained⟩) []
  | finish {k : ℕ} {timeout : Duration}
      (hcall : s.shared.calls[k]? = some ⟨root, timeout, .waiting true⟩) :
      Calls s (.finish k) (s.shared.setCall k ⟨root, timeout, .returned (.ok ())⟩) []
  | deadline {k : ℕ} {timeout : Duration} {resolved : Bool}
      (hcall : s.shared.calls[k]? = some ⟨root, timeout, .waiting resolved⟩) :
      Calls s (.deadline k) (s.shared.setCall k ⟨root, timeout, .expired resolved⟩) []
  | report {k : ℕ} {timeout : Duration}
      (hcall : s.shared.calls[k]? = some ⟨root, timeout, .timedOut⟩) :
      Calls s (.report k) (s.shared.setCall k ⟨root, timeout, .returned
        (.error (timeoutReport timeout (s.shared.tracker 0).tracked.length))⟩) []

/-- A move of the callers that the wired machine takes is one of `Calls`. -/
private theorem calls_of_main {s : State} {g : Move} {sh : Shared} {spawned : List Task}
    (hw : Wired s) (h : main s g = some (sh, spawned)) : Calls s g sh spawned := by
  have hcontroller : ∀ {i : ℕ} {ctl : ShutdownController},
      s.shared.controllers[i]? = some ctl → ctl = root :=
    fun hctl => hw.shared.controllers _ (List.mem_of_getElem? hctl)
  have hcallController : ∀ {k : ℕ} {c : ShutdownCall},
      s.shared.calls[k]? = some c → c.controller = root :=
    fun hc => hw.shared.calls _ (List.mem_of_getElem? hc)
  cases g with
  | clone i | trigger i | spawn i | spawnCritical i | triggerOnSignal i | shutdown i timeout =>
    -- the clone exists, and refers to the one token and tracker
    obtain ⟨ctl, hctl, heq⟩ := Option.map_eq_some_iff.mp h
    obtain rfl := hcontroller hctl
    obtain ⟨rfl, rfl⟩ := Prod.mk.inj heq
    first
      | exact .clone | exact .trigger | exact .spawn .spawn | exact .spawn .spawnCritical
      | exact .spawn .triggerOnSignal | exact .shutdown
  | close k | wait k | finish k | deadline k | report k =>
    -- the call exists, and stands where this move takes it up
    obtain ⟨⟨ctl, timeout, phase⟩, hcall, heq⟩ := Option.bind_eq_some_iff.mp h
    obtain rfl : ctl = root := hcallController hcall
    dsimp only at heq
    split at heq
    · obtain ⟨rfl, rfl⟩ := Prod.mk.inj (Option.some_inj.mp heq)
      first
        | exact .close hcall | exact .wait hcall | exact .finish hcall | exact .deadline hcall
        | exact .report hcall
    · contradiction

/-- What a step of a task can do. -/
inductive Transits : Act → Phase → Effect → Phase → Prop
  | finish : Transits .finish .running .untrack .ended
  | panic : Transits .panic .running .untrack .ended
  | abort : Transits .abort .running .untrack .ended
  | start : Transits .start .fresh .none .awaiting
  | innerEnd {outcome : Outcome} :
      Transits (.innerEnd outcome) .awaiting .none (.innerEnded outcome)
  | resumeFailed {outcome : Outcome} (hfailed : failed outcome = true) :
      Transits .resume (.innerEnded outcome) .cancel (.matched outcome)
  | resume {outcome : Outcome} (hfailed : failed outcome = false) :
      Transits .resume (.innerEnded outcome) .none (.matched outcome)
  | exit {outcome : Outcome} : Transits .exit (.matched outcome) .untrack (.exited outcome)
  | drop : Transits .abort .fresh .untrack .dropped
  | detach : Transits .abort .awaiting .untrack .detached
  | abandon {outcome : Outcome} :
      Transits .abort (.innerEnded outcome) .untrack (.abandoned outcome)
  | detachedEnd {outcome : Outcome} :
      Transits (.innerEnd outcome) .detached .none (.detachedEnded outcome)
  | signal : Transits .signal .listening .cancel .signalled
  | listenerExit : Transits .exit .signalled .untrack .listenerEnded
  | listenerPanic : Transits .panic .listening .untrack .listenerEnded

/-- A step of a task that the code takes is one of `Transits`. -/
private theorem transits_of_transition {a : Act} {p p' : Phase} {e : Effect}
    (h : transition a p = some (e, p')) : Transits a p e p' := by
  unfold transition at h
  split at h
  all_goals simp only [Option.some_inj, Prod.mk.injEq, reduceCtorEq] at h
  all_goals obtain ⟨rfl, rfl⟩ := h
  -- Resuming the wrapper splits on the outcome, the other steps have one result.
  case h_6 outcome =>
    cases hfailed : failed outcome
    · exact .resume hfailed
    · exact .resumeFailed hfailed
  all_goals constructor

/-- What one move can do. -/
inductive Step (s : State) : Label → State → Prop
  | main {g : Move} {sh : Shared} {spawned : List Task} (hcalls : Calls s g sh spawned) :
      Step s (.main g) ⟨sh, s.tasks ++ spawned⟩
  | act {i : ℕ} {a : Act} {p p' : Phase} {e : Effect} (htask : s.tasks[i]? = some ⟨root, p⟩)
      (htransits : Transits a p e p') :
      Step s (.act i a) ⟨e.apply s.shared i ⟨root, p⟩, s.tasks.set i ⟨root, p'⟩⟩

/-- In a wired state the machine takes no step but those of `Step`. -/
theorem step_of_wired {s s' : State} {l : Label} (hw : Wired s)
    (h : system.machine.step s l = some s') : Step s l s' := by
  obtain ⟨hmain⟩ | ⟨htask, hact⟩ := (system.step_iff).mp h
  · exact .main (calls_of_main hw hmain)
  · rename_i i a t t' sh
    obtain ⟨ctl, p⟩ := t
    obtain rfl : ctl = root := hw.tasks _ (List.mem_of_getElem? htask)
    obtain ⟨⟨e, p'⟩, htransition, heq⟩ := Option.map_eq_some_iff.mp hact
    obtain ⟨rfl, rfl⟩ := Prod.mk.inj heq
    exact .act htask (transits_of_transition htransition)

/-! ### The references along a run -/

namespace Shared.Wired

variable {s : Shared}

/-- Cancelling a token keeps the references. -/
private theorem cancel (hw : s.Wired) (token : ℕ) : (s.cancel token).Wired :=
  { hw with tokens := by rw [Shared.cancel, List.length_set, hw.tokens] }

/-- Changing a tracker keeps the references. -/
private theorem modify (hw : s.Wired) (r : ℕ) (f : Tracker → Tracker) :
    ({ s with trackers := s.trackers.modify r f } : Shared).Wired :=
  { hw with trackers := by rw [List.length_modify, hw.trackers] }

private theorem track (hw : s.Wired) (r i : ℕ) : (s.track r i).Wired := hw.modify r _

/-- Resolving the waits keeps the references. -/
private theorem settle (hw : s.Wired) : s.settle.Wired := by
  refine { hw with calls := fun c hc => ?_ }
  obtain ⟨c₀, hc₀, rfl⟩ := List.mem_map.mp hc
  exact hw.calls c₀ hc₀

private theorem untrack (hw : s.Wired) (r i : ℕ) : (s.untrack r i).Wired :=
  (hw.modify r _).settle

private theorem close (hw : s.Wired) (r : ℕ) : (s.close r).Wired :=
  (hw.modify r _).settle

/-- A new call of `shutdown` on the one controller keeps the references. -/
private theorem addCall (hw : s.Wired) {c : ShutdownCall} (hc : c.controller = root) :
    (s.addCall c).Wired := by
  refine { hw with calls := fun c' hc' => ?_ }
  rcases List.mem_append.mp hc' with hmem | hmem
  · exact hw.calls c' hmem
  · exact List.mem_singleton.mp hmem ▸ hc

/-- A call that moves on keeps the references if it stays on the one controller. -/
theorem setCall (hw : s.Wired) (k : ℕ) {c : ShutdownCall} (hc : c.controller = root) :
    (s.setCall k c).Wired := by
  refine { hw with calls := fun c' hc' => ?_ }
  rcases List.mem_or_eq_of_mem_set hc' with hmem | rfl
  · exact hw.calls c' hmem
  · exact hc

/-- What a step of a task does to the shared state keeps the references. -/
private theorem effect (hw : s.Wired) (e : Effect) (i : ℕ) (t : Task) : (e.apply s i t).Wired := by
  cases e with
  | none => exact hw
  | cancel => exact hw.cancel _
  | untrack => exact hw.untrack _ _

end Shared.Wired

/-- A move of the callers keeps the references of the shared state. -/
private theorem Calls.wired {s : State} {g : Move} {sh : Shared} {spawned : List Task}
    (hw : s.shared.Wired) (h : Calls s g sh spawned) : sh.Wired := by
  cases h with
  | clone =>
    refine { hw with controllers := fun ctl hctl => ?_ }
    rcases List.mem_append.mp hctl with hmem | hmem
    · exact hw.controllers ctl hmem
    · exact List.mem_singleton.mp hmem
  | trigger => exact hw.cancel 0
  | spawn hg => exact hw.track 0 _
  | shutdown => exact (hw.cancel 0).addCall rfl
  | close hcall => exact (hw.setCall _ rfl).close 0
  | wait hcall | finish hcall | deadline hcall | report hcall => exact hw.setCall _ rfl

/-- What a move of the callers spawns belongs to the one controller. -/
private theorem Calls.controller_eq {s : State} {g : Move} {sh : Shared} {spawned : List Task}
    (h : Calls s g sh spawned) : ∀ t ∈ spawned, t.controller = root := by
  cases h <;> simp

/-- Every step keeps the references. -/
theorem Wired.step {s s' : State} {l : Label} (hw : Wired s) (h : Step s l s') : Wired s' := by
  obtain ⟨hcalls⟩ | ⟨htask, htransits⟩ := h
  · refine ⟨hcalls.wired hw.shared, fun t ht => ?_⟩
    rcases List.mem_append.mp ht with hmem | hmem
    · exact hw.tasks t hmem
    · exact hcalls.controller_eq t hmem
  · refine ⟨hw.shared.effect _ _ _, fun t ht => ?_⟩
    rcases List.mem_or_eq_of_mem_set ht with hmem | rfl
    · exact hw.tasks t hmem
    · rfl

private theorem wired_init : Wired system.machine.init :=
  ⟨⟨by simp [system, TaskSystem.machine, root], rfl, rfl, by simp [system, TaskSystem.machine]⟩,
    by simp [TaskSystem.machine]⟩

/-- In every run all clones, calls and tasks refer to one token and one tracker. -/
theorem wired_of_run {ls : List Label} {s : State} (h : system.machine.Run ls s) : Wired s :=
  h.invariant wired_init fun _ _ _ hw hl => hw.step (step_of_wired hw hl)

/-- **Run induction for controllers.** A relation between histories and states that holds
at the start and survives every move holds of every run. -/
theorem run_induct {I : List Label → State → Prop} (nil : I [] system.machine.init)
    (snoc : ∀ ls l s s', system.machine.Run ls s → Wired s → I ls s → Step s l s' →
      I (ls ++ [l]) s')
    {ls : List Label} {s : State} (h : system.machine.Run ls s) : I ls s :=
  h.induct nil fun ls l s s' hrun hI hl =>
    snoc ls l s s' hrun (wired_of_run hrun) hI (step_of_wired (wired_of_run hrun) hl)

/-- What every step of an execution from a reachable configuration preserves holds at its
end. -/
theorem exec_preserves {P : State → Prop} {ls ys : List Label} {s s' : State}
    (hstep : ∀ m l m', Wired m → P m → Step m l m' → P m') (h : system.machine.Run ls s)
    (hy : system.machine.exec s ys = some s') (hs : P s) : P s' := by
  have hboth : ∀ m, ∀ l ∈ ys, ∀ m', Wired m ∧ P m → system.machine.step m l = some m' →
      Wired m' ∧ P m' := by
    rintro m l - m' ⟨hw, hm⟩ hl
    have hs := step_of_wired hw hl
    exact ⟨hw.step hs, hstep m l m' hw hm hs⟩
  exact (system.machine.exec_preserves hboth ⟨wired_of_run h, hs⟩ hy).2

/-! ### The tracker and the pending calls, operation by operation -/

namespace Shared

variable {s : Shared}

/-- The one tracker after a change of it. -/
private theorem Wired.tracker_modify (hw : s.Wired) (f : Tracker → Tracker) :
    ({ s with trackers := s.trackers.modify 0 f } : Shared).tracker 0 = f (s.tracker 0) := by
  obtain ⟨t, ht⟩ := List.length_eq_one_iff.mp hw.trackers
  simp [tracker, ht]

/-- A spawned task is tracked. -/
theorem Wired.tracker_track (hw : s.Wired) (i : ℕ) :
    (s.track 0 i).tracker 0 = { s.tracker 0 with tracked := i :: (s.tracker 0).tracked } :=
  hw.tracker_modify _

/-- A task whose guard is dropped is tracked no more. -/
theorem Wired.tracker_untrack (hw : s.Wired) (i : ℕ) :
    (s.untrack 0 i).tracker 0 =
      { s.tracker 0 with tracked := (s.tracker 0).tracked.erase i } :=
  hw.tracker_modify _

/-- A closed tracker keeps its tasks. -/
theorem Wired.tracker_close (hw : s.Wired) :
    (s.close 0).tracker 0 = { s.tracker 0 with closed := true } :=
  hw.tracker_modify _

/-- Where a call stands once the waits are resolved. -/
private theorem Wired.callPhase_settle (hw : s.Wired) (k : ℕ) :
    s.settle.callPhase k = (s.callPhase k).map (CallPhase.resolve (s.tracker 0).drained) := by
  rw [callPhase, Shared.settle, List.getElem?_map, callPhase, Option.map_map, Option.map_map]
  cases hc : s.calls[k]? with
  | none => rfl
  | some c => simp [hw.calls c (List.mem_of_getElem? hc), root]

/-- Where a call stands once a task is tracked no more. -/
theorem Wired.callPhase_untrack (hw : s.Wired) (i k : ℕ) :
    (s.untrack 0 i).callPhase k =
      (s.callPhase k).map (CallPhase.resolve ((s.untrack 0 i).tracker 0).drained) :=
  (hw.modify 0 _).callPhase_settle k

/-- Where a call stands once the tracker is closed. -/
theorem Wired.callPhase_close (hw : s.Wired) (k : ℕ) :
    (s.close 0).callPhase k =
      (s.callPhase k).map (CallPhase.resolve ((s.close 0).tracker 0).drained) :=
  (hw.modify 0 _).callPhase_settle k

theorem callPhase_of_call {k : ℕ} {c : ShutdownCall} (hc : s.calls[k]? = some c) :
    s.callPhase k = some c.phase := by
  rw [callPhase, hc, Option.map_some]

/-- A call that moves on leaves the others as they are. -/
theorem callPhase_setCall {k : ℕ} {c c' : ShutdownCall} (hc : s.calls[k]? = some c) (j : ℕ) :
    (s.setCall k c').callPhase j = if j = k then some c'.phase else s.callPhase j := by
  have hk : k < s.calls.length := (List.getElem?_eq_some_iff.mp hc).1
  by_cases hj : j = k
  · subst hj
    simp [callPhase, setCall, hk]
  · rw [if_neg hj, callPhase, setCall, List.getElem?_set_ne (Ne.symm hj), callPhase]

/-- A new call leaves the earlier ones as they are. -/
theorem callPhase_addCall {c : ShutdownCall} (j : ℕ) :
    (s.addCall c).callPhase j = if j = s.calls.length then some c.phase else s.callPhase j := by
  rw [callPhase, addCall, callPhase]
  rcases Nat.lt_trichotomy j s.calls.length with hj | rfl | hj
  · rw [if_neg (Nat.ne_of_lt hj), List.getElem?_append_left hj]
  · simp
  · have hlen : (s.calls ++ [c]).length ≤ j := by
      rw [List.length_append]
      exact hj
    rw [if_neg (Nat.ne_of_gt hj), List.getElem?_eq_none hlen,
      List.getElem?_eq_none (Nat.le_of_lt hj)]

end Shared

/-! ### What the phase of a task remembers -/

namespace Phase

/-- The wrapper of `spawn_critical` has been polled. -/
def started : Phase → Bool
  | awaiting | innerEnded _ | matched _ | exited _ | detached | detachedEnded _ | abandoned _ =>
    true
  | _ => false

/-- How the inner task has ended. -/
def outcome : Phase → Option Outcome
  | innerEnded o | matched o | exited o | detachedEnded o | abandoned o => some o
  | _ => none

/-- The wrapper was aborted. -/
def aborted : Phase → Bool
  | dropped | detached | detachedEnded _ | abandoned _ => true
  | _ => false

/-- The task was spawned by `spawn_critical`. -/
def critical : Phase → Bool
  | fresh | dropped => true
  | p => p.started

end Phase

/-- The phase of a task and the steps it has made. -/
structure Recorded (as : List Act) (p : Phase) : Prop where
  start_mem : .start ∈ as ↔ p.started = true
  innerEnd_mem : ∀ o, .innerEnd o ∈ as ↔ some o = p.outcome
  abort_mem : p.critical = true → (.abort ∈ as ↔ p.aborted = true)

/-- One more step of a task is remembered by its phase. -/
private theorem Recorded.snoc {as : List Act} {a : Act} {p p' : Phase} {e : Effect}
    (hr : Recorded as p) (h : Transits a p e p') : Recorded (as ++ [a]) p' := by
  obtain ⟨hstart, hend, habort⟩ := hr
  cases h <;>
    refine ⟨?_, fun o => ?_, fun _ => ?_⟩ <;>
    simp_all [Phase.started, Phase.outcome, Phase.aborted, Phase.critical]

/-- In every run the phase of a task remembers the steps it has made. -/
theorem recorded_of_run {ls : List Label} {s : State} (h : system.machine.Run ls s) {i : ℕ}
    {t : Task} (ht : s.tasks[i]? = some t) : Recorded (TaskSystem.acts i ls) t.phase := by
  refine system.task_induct (I := fun as t => Recorded as t.phase) ?_ ?_ h i t ht
  · intro ls c g sh spawned hrun hmain t hmem
    cases calls_of_main (wired_of_run hrun) hmain with
    | spawn hg =>
      obtain rfl := List.mem_singleton.mp hmem
      cases hg <;> exact ⟨by simp [Phase.started], by simp [Phase.outcome],
        by simp [Phase.aborted, Phase.critical, Phase.started]⟩
    | _ => simp at hmem
  · intro sh i t a sh' t' as hr hact
    obtain ⟨⟨e, p'⟩, htransition, heq⟩ := Option.map_eq_some_iff.mp hact
    obtain ⟨rfl, rfl⟩ := Prod.mk.inj heq
    exact hr.snoc (transits_of_transition htransition)

end ShutdownController

end RustUtils
