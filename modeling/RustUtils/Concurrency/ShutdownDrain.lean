import RustUtils.Concurrency.ShutdownTracker

/-!
# Draining a `ShutdownController`

What a caller of `shutdown` may conclude from its result, as three exact conditions.

* It blames the caller's own futures for a timeout, except where signal listeners alone
  have held the tracker since the wait began (`timeout_blames_callers_iff`).
* `Ok` means that the futures spawned before the call have ended, except for those whose
  wrapper was aborted while the inner task ran (`shutdown_drains_iff`).
* Closing the tracker keeps new tasks out exactly as long as nothing is spawned
  (`close_admits_none_iff`).
-/

namespace RustUtils

open Transition

namespace ShutdownController

variable {ls xs ys : List Label} {s s' m : State} {l : Label} {k : ℕ}

/-! ### Timeouts -/

/-- Call `k` waits for the tracker. -/
def Pending (s : State) (k : ℕ) : Prop :=
  ∃ resolved, s.shared.callPhase k = some (.waiting resolved)

/-- A call that has timed out waits no more. -/
private theorem not_pending_of_timedOut (h : s.shared.callPhase k = some .timedOut) :
    ¬ Pending s k := by
  rintro ⟨resolved, hk⟩
  rw [h] at hk
  cases hk

/-- Call `k` has returned `result`. -/
def Returned (s : State) (k : ℕ) (result : UtilsResult Unit) : Prop :=
  s.shared.callPhase k = some (.returned result)

/-- `Err(UtilsError::Concurrency)`. -/
def TimedOut (result : UtilsResult Unit) : Prop :=
  ∃ report, result = .error report ∧ report.currentContext = .concurrency

/-- Signal listeners run, and no future of the caller does. -/
def HeldByListeners (s : State) : Prop :=
  (∃ i, listenerRuns s i = true) ∧ ∀ i, callerRuns s i = false

/-- A call returns `Ok` exactly if its wait has resolved when it ends. -/
private theorem result_iff {t : State} {resolved : Bool} {result : UtilsResult Unit}
    (h : system.machine.Run ls s) (hk : s.shared.callPhase k = some (.waiting resolved))
    (hl : system.machine.step s l = some s') (hover : ¬ Pending s' k)
    (hexec : system.machine.exec s' ys = some t) (hreturned : Returned t k result) :
    result = .ok () ↔ resolved = true := by
  have hw := wired_of_run h
  have hphase := ((step_of_wired hw hl).call hw k).over hk fun r hr => hover ⟨r, hr⟩
  have hrun' := h.snoc hl
  unfold Returned at hreturned
  cases resolved with
  | true =>
    have hpassed := passed_of_exec hrun' hexec (k := k) (by rw [passed, hphase]; rfl)
    rw [passed, hreturned] at hpassed
    cases result with
    | ok u => exact iff_of_true rfl rfl
    | error report => contradiction
  | false =>
    have helapsed := elapsed_of_exec hrun' hexec (k := k) (by rw [elapsed, hphase]; rfl)
    rw [elapsed, hreturned] at helapsed
    cases result with
    | ok u => contradiction
    | error report => exact iff_of_false (by simp) Bool.false_ne_true

/-- What the tracker counts is the caller's or a listener. -/
private theorem callerRuns_or_listenerRuns {i : ℕ} (h : isTracked s i = true) :
    callerRuns s i = true ∨ listenerRuns s i = true := by
  obtain ⟨t, ht, htracked⟩ := Config.exists_of_look h
  rw [callerRuns, listenerRuns, Config.look_of_getElem? ht, Config.look_of_getElem? ht]
  exact Phase.callers_or_listener htracked

/-- A wait that has not resolved is held up by a task, and where it is not the caller's, by
listeners that have been there since the wait began. -/
private theorem heldByListeners_of_unresolved (h : system.machine.Run ls s)
    (hk : s.shared.callPhase k = some (.waiting false)) (hnone : ∀ i, callerRuns s i = false) :
    HeldByListeners s ∧ ¬ DrainedSince k ls := by
  have hsince : ¬ DrainedSince k ls := fun hd =>
    Bool.false_ne_true ((resolved_iff h hk).mpr hd)
  have hwait : .main (.wait k) ∈ ls := by
    rw [← entered_iff h, hk]
    rfl
  have htracked : ∃ i, isTracked s i = true := by
    by_contra hno
    refine hsince ⟨ls, [], s, by simp, h, hwait, fun i => ?_⟩
    exact Bool.eq_false_iff.mpr fun hi => hno ⟨i, hi⟩
  obtain ⟨i, hi⟩ := htracked
  rcases callerRuns_or_listenerRuns hi with hcaller | hlistener
  · exact absurd hcaller (by rw [hnone i]; exact Bool.false_ne_true)
  · exact ⟨⟨⟨i, hlistener⟩, hnone⟩, hsince⟩

/-- **Whom a timeout blames.** Let the wait of a call of `shutdown` end, because it has resolved or
its deadline is reached. What the call returns then or later is a timeout only because of a future
of the caller, and `Ok` when none of them runs, exactly if listeners do not hold the tracker alone,
or the tracker was drained since the wait began. -/
theorem timeout_blames_callers_iff {t : State} {result : UtilsResult Unit}
    (h : system.machine.Run ls s) (hpending : Pending s k)
    (hl : system.machine.step s l = some s') (hover : ¬ Pending s' k)
    (hexec : system.machine.exec s' ys = some t) (hreturned : Returned t k result) :
    ((TimedOut result → ∃ i, callerRuns s i = true) ∧
        ((∀ i, callerRuns s i = false) → result = .ok ())) ↔
      (HeldByListeners s → DrainedSince k ls) := by
  obtain ⟨resolved, hk⟩ := hpending
  have hresult : result = .ok () ↔ resolved = true := result_iff h hk hl hover hexec hreturned
  have hsince : resolved = true ↔ DrainedSince k ls := resolved_iff h hk
  constructor
  · rintro ⟨-, hok⟩ ⟨-, hnone⟩
    exact hsince.mp (hresult.mp (hok hnone))
  · intro hcond
    have hok : (∀ i, callerRuns s i = false) → result = .ok () := by
      intro hnone
      cases hr : resolved with
      | true => exact hresult.mpr hr
      | false =>
        obtain ⟨hheld, hnot⟩ := heldByListeners_of_unresolved h (hr ▸ hk) hnone
        exact absurd (hcond hheld) hnot
    refine ⟨?_, hok⟩
    rintro ⟨report, rfl, -⟩
    by_contra hno
    have hnone : ∀ i, callerRuns s i = false := fun i =>
      Bool.eq_false_iff.mpr fun hi => hno ⟨i, hi⟩
    exact absurd (hok hnone) (by simp)

/-- A task that outlives the timeout, beside a listener that gets no signal. -/
theorem timeout_blames_callers_iff_taskOutlives :
    ∃ s, system.machine.Run [.main (.spawn 0), .main (.triggerOnSignal 0),
      .main (.shutdown 0 (.fromNanos 5)), .main (.close 0), .main (.wait 0)] s ∧
      ∃ i, callerRuns s i = true := by
  let s : State := ⟨⟨[root], [true], [⟨true, [1, 0]⟩], [⟨root, .fromNanos 5, .waiting false⟩]⟩,
    [⟨root, .running⟩, ⟨root, .listening⟩]⟩
  have hrun : system.machine.Run [.main (.spawn 0), .main (.triggerOnSignal 0),
      .main (.shutdown 0 (.fromNanos 5)), .main (.close 0), .main (.wait 0)] s := by
    decide +kernel
  have hpending : Pending s 0 := ⟨false, rfl⟩
  let s' : State := ⟨s.shared.setCall 0 ⟨root, .fromNanos 5, .timedOut⟩, s.tasks⟩
  have hl : system.machine.step s (.main (.deadline 0)) = some s' := rfl
  have hover : ¬ Pending s' 0 := not_pending_of_timedOut rfl
  -- the task finishes before the tasks are counted
  let result : UtilsResult Unit := .error (timeoutReport (.fromNanos 5) 1)
  let t : State := ⟨⟨[root], [true], [⟨true, [1]⟩], [⟨root, .fromNanos 5, .returned result⟩]⟩,
    [⟨root, .ended⟩, ⟨root, .listening⟩]⟩
  have hexec : system.machine.exec s' [.act 0 .finish, .main (.report 0)] = some t := by
    decide +kernel
  have hreturned : Returned t 0 result := rfl
  have hnot : ¬ HeldByListeners s := fun hheld => absurd (hheld.2 0) (by decide)
  have hlaw := timeout_blames_callers_iff hrun hpending hl hover hexec hreturned
  exact ⟨s, hrun, (hlaw.mpr fun hheld => absurd hheld hnot).1 ⟨_, rfl, rfl⟩⟩

/-- A listener is installed, no signal comes, and the caller runs nothing: the call times
out all the same. -/
theorem timeout_of_listener :
    ∃ s s' t result, system.machine.Run [.main (.triggerOnSignal 0),
        .main (.shutdown 0 (.fromNanos 5)), .main (.close 0), .main (.wait 0)] s ∧ Pending s 0 ∧
      system.machine.step s (.main (.deadline 0)) = some s' ∧ ¬ Pending s' 0 ∧
      system.machine.exec s' [.main (.report 0)] = some t ∧ Returned t 0 result ∧
      TimedOut result ∧ ∀ i, callerRuns s i = false := by
  let s : State := ⟨⟨[root], [true], [⟨true, [0]⟩], [⟨root, .fromNanos 5, .waiting false⟩]⟩,
    [⟨root, .listening⟩]⟩
  refine ⟨s, _, _, _, by decide +kernel, ⟨false, rfl⟩, rfl, not_pending_of_timedOut rfl, rfl, rfl,
    ⟨_, rfl, rfl⟩, fun i => ?_⟩
  rcases i with _ | i <;> rfl

/-! ### Futures that outlive the drain -/

/-- The wrapper of critical task `i` was aborted, and its inner task has not ended. -/
def Orphaned (ls : List Label) (i : ℕ) : Prop :=
  .act i .start ∈ ls ∧ .act i .abort ∈ ls ∧ ∀ outcome, .act i (.innerEnd outcome) ∉ ls

private theorem detached_iff_orphaned (h : system.machine.Run ls s) {i : ℕ} {t : Task}
    (ht : s.tasks[i]? = some t) : t.phase = .detached ↔ Orphaned ls i := by
  obtain ⟨hstart, hend, habort⟩ := recorded_of_run h ht
  simp only [TaskSystem.mem_acts] at hstart hend habort
  have hcritical : t.phase.started = true → t.phase.critical = true := by
    cases t.phase <;> simp [Phase.started, Phase.critical]
  simp only [Orphaned, hstart, hend]
  constructor
  · intro hp
    rw [hp] at habort ⊢
    exact ⟨rfl, (habort rfl).mpr rfl, by simp [Phase.outcome]⟩
  · rintro ⟨hstarted, habort', hnone⟩
    have haborted := (habort (hcritical hstarted)).mp habort'
    revert hstarted haborted hnone
    cases t.phase <;> simp [Phase.started, Phase.aborted, Phase.outcome]

/-- A future that runs untracked is the future of an orphaned inner task. -/
private theorem futureRuns_iff_orphaned (h : system.machine.Run ls s) {i : ℕ}
    (hi : i < s.tasks.length) (hnone : isTracked s i = false) :
    futureRuns s i = true ↔ Orphaned ls i := by
  have ht : s.tasks[i]? = some s.tasks[i] := List.getElem?_eq_getElem hi
  rw [isTracked, Config.look_of_getElem? ht] at hnone
  rw [futureRuns, Config.look_of_getElem? ht, Phase.future_of_not_tracked hnone,
    decide_eq_true_iff]
  exact detached_iff_orphaned h ht

private theorem Step.length_tasks_le (h : Step s l s') : s.tasks.length ≤ s'.tasks.length := by
  cases h <;> simp

/-- A tracked future that has ended stays ended. -/
private theorem Step.untracked (hw : Wired s) (h : Step s l s') {i : ℕ} (hi : i < s.tasks.length)
    (hnone : isTracked s i = false) : isTracked s' i = false := by
  obtain ⟨-, hlook⟩ | ⟨g, p, -, -, -, hlook⟩ | ⟨j, a, -, -, -, hlook⟩ := h.tracked_cases hw
  · rw [hlook, hnone]
  · simp [hlook, hnone, Nat.ne_of_lt hi]
  · simp [hlook, hnone]

/-- A call that passes its wait later than `m` leaves none of the tasks of `m` tracked. -/
theorem untracked_of_passed (hm : system.machine.Run xs m)
    (hbefore : passed m k = false) (hexec : system.machine.exec m ys = some s)
    (hpassed : passed s k = true) : ∀ i < m.tasks.length, isTracked s i = false := by
  let P (zs : List Label) (t : State) : Prop := m.tasks.length ≤ t.tasks.length ∧
    (passed t k = true → ∀ i < m.tasks.length, isTracked t i = false)
  have hstep : ∀ t, ∀ l ∈ ys, ∀ t', (∃ zs, system.machine.Run zs t ∧ P zs t) →
      system.machine.step t l = some t' → ∃ zs, system.machine.Run zs t' ∧ P zs t' := by
    rintro t l - t' ⟨zs, hrun, hlen, hP⟩ hl
    have hw := wired_of_run hrun
    have hs := step_of_wired hw hl
    have hrun' := hrun.snoc hl
    refine ⟨_, hrun', hlen.trans hs.length_tasks_le, fun hp i hi => ?_⟩
    rcases (hs.call hw k).passed hp with hpast | hdrained
    · exact hs.untracked hw (hi.trans_le hlen) (hP hpast i hi)
    · exact ((drained_iff hrun').mp hdrained).2 i
  have hinit : P xs m := ⟨le_rfl, fun hp => absurd hp (by rw [hbefore]; simp)⟩
  obtain ⟨zs, -, -, hP⟩ := system.machine.exec_preserves hstep ⟨xs, hm, hinit⟩ hexec
  exact hP hpassed

/-- `shutdown` starts a call that has passed nothing yet, and no task. -/
private theorem Step.shutdown {h : ℕ} {timeout : Duration} (hw : Wired s)
    (hs : Step s (.main (.shutdown h timeout)) s') :
    s'.tasks = s.tasks ∧ passed s' s.shared.calls.length = false := by
  have hcall := hs.call hw s.shared.calls.length
  have hnone : s.shared.callPhase s.shared.calls.length = none := by simp [Shared.callPhase]
  obtain ⟨hcalls⟩ := hs
  cases hcalls with
  | shutdown =>
    refine ⟨List.append_nil _, ?_⟩
    rw [passed, Shared.callPhase_addCall]
    simp [Shared.cancel, CallPhase.passed]
  | spawn hg => cases hg

/-- **What `Ok` says about the futures.** When a call of `shutdown` has returned `Ok`, every
future that was passed to `spawn` or `spawn_critical` before the call has ended exactly if
none of their wrappers was aborted while its inner task ran on. -/
theorem shutdown_drains_iff {h : ℕ} {timeout : Duration} (hbefore : system.machine.Run xs m)
    (hexec : system.machine.exec m (.main (.shutdown h timeout) :: ys) = some s)
    (hok : Returned s m.shared.calls.length (.ok ())) :
    (∀ i < m.tasks.length, futureRuns s i = false) ↔
      ∀ i < m.tasks.length, ¬ Orphaned (xs ++ .main (.shutdown h timeout) :: ys) i := by
  have hrun := hbefore.append hexec
  obtain ⟨m₁, hl, hys⟩ := (system.machine.exec_cons_iff).mp hexec
  have hw := wired_of_run hbefore
  obtain ⟨htasks, hfresh⟩ := (step_of_wired hw hl).shutdown hw
  have hpassed : passed s m.shared.calls.length = true := by rw [passed, hok]; rfl
  have huntracked := untracked_of_passed (hbefore.snoc hl) hfresh hys hpassed
  rw [htasks] at huntracked
  have hlen : m.tasks.length ≤ s.tasks.length :=
    exec_preserves (P := fun t => m.tasks.length ≤ t.tasks.length)
      (fun _ _ _ _ hle hs => hle.trans hs.length_tasks_le) hbefore hexec le_rfl
  refine forall₂_congr fun i hi => ?_
  rw [← futureRuns_iff_orphaned hrun (hi.trans_le hlen) (huntracked i hi), Bool.not_eq_true]

/-- A critical task fails and its wrapper is aborted afterwards, and a plain task panics. -/
theorem shutdown_drains_iff_abandoned :
    ∃ s, system.machine.Run ([.main (.spawnCritical 0), .main (.spawn 0), .act 0 .start] ++
        .main (.shutdown 0 .zero) :: [.main (.close 0), .main (.wait 0), .act 0 (.innerEnd (.ok
          (.error (.new .internal)))), .act 0 .abort, .act 1 .panic, .main (.finish 0)]) s ∧
      ∀ i < 2, futureRuns s i = false := by
  let m : State := ⟨⟨[root], [false], [⟨false, [1, 0]⟩], []⟩,
    [⟨root, .awaiting⟩, ⟨root, .running⟩]⟩
  let s : State := ⟨⟨[root], [true], [⟨true, []⟩], [⟨root, .zero, .returned (.ok ())⟩]⟩,
    [⟨root, .abandoned (.ok (.error (.new .internal)))⟩, ⟨root, .ended⟩]⟩
  have hbefore : system.machine.Run
      [.main (.spawnCritical 0), .main (.spawn 0), .act 0 .start] m := by decide +kernel
  have hexec : system.machine.exec m (.main (.shutdown 0 .zero) :: [.main (.close 0),
      .main (.wait 0), .act 0 (.innerEnd (.ok (.error (.new .internal)))), .act 0 .abort,
      .act 1 .panic, .main (.finish 0)]) = some s := by decide +kernel
  have hok : Returned s 0 (.ok ()) := rfl
  refine ⟨s, hbefore.append hexec, (shutdown_drains_iff hbefore hexec hok).mpr ?_⟩
  rintro i hi ⟨hstart, -, hnone⟩
  obtain rfl | rfl : i = 0 ∨ i = 1 := by
    have : i < 2 := hi
    omega
  · exact hnone (.ok (.error (.new .internal))) (by simp)
  · simp at hstart

/-- The wrapper of a critical task is aborted while its future runs: `shutdown` returns `Ok`
at once, and the future runs on. -/
theorem future_outlives_drain :
    ∃ m s, system.machine.Run [.main (.spawnCritical 0), .act 0 .start, .act 0 .abort] m ∧
      system.machine.exec m
        [.main (.shutdown 0 (.fromNanos 5)), .main (.close 0), .main (.wait 0),
          .main (.finish 0)] = some s ∧
      Returned s m.shared.calls.length (.ok ()) ∧ 0 < m.tasks.length ∧ futureRuns s 0 = true := by
  let m : State := ⟨⟨[root], [false], [⟨false, []⟩], []⟩, [⟨root, .detached⟩]⟩
  let s : State := ⟨⟨[root], [true], [⟨true, []⟩],
    [⟨root, .fromNanos 5, .returned (.ok ())⟩]⟩, [⟨root, .detached⟩]⟩
  exact ⟨m, s, by decide +kernel, by decide +kernel, rfl, by decide, rfl⟩

/-! ### Tasks that come after the close -/

/-- The move spawns a task. -/
def isSpawn : Label → Bool
  | .main (.spawn _) | .main (.spawnCritical _) | .main (.triggerOnSignal _) => true
  | _ => false

/-- The move aborts a task. -/
def isAbort : Label → Bool
  | .act _ .abort => true
  | _ => false

/-- Task `i`, or the future it was given, has not ended. -/
def taskRuns (s : State) (i : ℕ) : Bool := isTracked s i || futureRuns s i

/-- The move lets no task in, and where call `k` has returned `Ok`, no task runs. -/
def KeepsOut (k : ℕ) (s s' : State) : Prop :=
  trackedTasks s' ⊆ trackedTasks s ∧ (Returned s' k (.ok ()) → ∀ i, taskRuns s' i = false)

/-- Without aborts, the future of a task that is not tracked has ended. -/
private theorem taskRuns_eq (h : system.machine.Run ls s) (hls : ∀ l ∈ ls, isAbort l = false)
    (i : ℕ) :
    taskRuns s i = isTracked s i := by
  rw [taskRuns]
  cases hi : isTracked s i with
  | true => rfl
  | false =>
    rw [Bool.false_or]
    refine Bool.eq_false_iff.mpr fun hfuture => ?_
    obtain ⟨t, ht, -⟩ := Config.exists_of_look hfuture
    have hlt : i < s.tasks.length := (List.getElem?_eq_some_iff.mp ht).1
    obtain ⟨-, habort, -⟩ := (futureRuns_iff_orphaned h hlt hi).mp hfuture
    exact absurd (hls _ habort) (by simp [isAbort])

private theorem Spawns.isSpawn {g : Move} {p : Phase} (h : Spawns g p) :
    isSpawn (.main g) = true := by
  cases h <;> rfl

/-- A spawned task is tracked, and it was not before. -/
private theorem Step.not_subset_of_isSpawn (hw : Wired s) (hc : Counts s) (h : Step s l s')
    (hl : isSpawn l = true) : ¬ trackedTasks s' ⊆ trackedTasks s := by
  obtain ⟨hcalls⟩ | ⟨htask, htransits⟩ := h
  · cases hcalls with
    | spawn hg =>
      intro hsub
      have hmem : s.tasks.length ∈ trackedTasks s := by
        refine hsub ?_
        rw [trackedTasks, hw.shared.tracker_track]
        exact List.mem_cons_self
      rw [hc.mem_iff, isTracked, Config.look_of_le le_rfl] at hmem
      exact Bool.false_ne_true hmem
    | _ => exact absurd hl Bool.false_ne_true
  · exact absurd hl Bool.false_ne_true

/-- Any other move tracks nothing new. -/
private theorem Step.tracked_of_not_spawn (hw : Wired s) (h : Step s l s')
    (hl : isSpawn l = false) :
    trackedTasks s' ⊆ trackedTasks s ∧
      ∀ i, isTracked s i = false → isTracked s' i = false := by
  obtain ⟨htracked, hlook⟩ | ⟨g, p, rfl, hg, -⟩ | ⟨j, a, -, -, htracked, hlook⟩ :=
    h.tracked_cases hw
  · exact ⟨htracked ▸ List.Subset.refl _, fun i hi => by rw [hlook, hi]⟩
  · rw [hg.isSpawn] at hl
    contradiction
  · exact ⟨htracked ▸ List.erase_subset, fun i hi => by rw [hlook, hi, Bool.and_false]⟩

/-- The wait of a call has not begun when it closes the tracker. -/
private theorem Step.passed_of_close (hw : Wired s) (h : Step s (.main (.close k)) s') :
    passed s' k = false := by
  have hcall := h.call hw k
  rw [passed]
  generalize s.shared.callPhase k = p, s'.shared.callPhase k = p' at hcall
  cases hcall with
  | stay hclose | settle hclose => exact absurd rfl hclose
  | close => rfl

/-- **Closing the tracker.** From the moment at which a call of `shutdown` has closed the
tracker, the tracked tasks only shrink, and no task runs once the call has returned `Ok`,
exactly if nothing is spawned any more. -/
theorem close_admits_none_iff (hclose : system.machine.Run (xs ++ [.main (.close k)]) m)
    (hexec : system.machine.exec m ys = some s)
    (hnoAbort : ∀ l ∈ xs ++ .main (.close k) :: ys, isAbort l = false) :
    system.machine.Steps (KeepsOut k) m ys ↔ ∀ l ∈ ys, isSpawn l = false := by
  constructor
  · intro hsteps l hl
    refine Bool.eq_false_iff.mpr fun hspawn => ?_
    obtain ⟨ys₁, ys₂, rfl⟩ := List.append_of_mem hl
    obtain ⟨t, hys₁, htail⟩ := (system.machine.exec_append_iff).mp hexec
    obtain ⟨t', ht', -⟩ := (system.machine.exec_cons_iff).mp htail
    have hrun := hclose.append hys₁
    have hw := wired_of_run hrun
    exact (step_of_wired hw ht').not_subset_of_isSpawn hw (counts_of_run hrun) hspawn
      (hsteps.related _ hys₁ ht').1
  · intro hnoSpawn
    -- Past its wait, the call has seen a moment with nothing tracked, and nothing came since.
    let P (t : State) : Prop := ∃ zs, system.machine.Run zs t ∧ (∀ l ∈ zs, isAbort l = false) ∧
      (passed t k = true → ∀ i, isTracked t i = false)
    have hinit : P m := by
      refine ⟨_, hclose, fun l hl => hnoAbort l ?_, fun hpassed => ?_⟩
      · rw [List.append_cons]
        exact List.mem_append_left _ hl
      · obtain ⟨t, ht, hl⟩ := (system.machine.exec_snoc_iff).mp hclose
        have hw := wired_of_run ht
        rw [(step_of_wired hw hl).passed_of_close hw] at hpassed
        contradiction
    refine system.machine.steps_of_invariant (P := P) ?_ hinit
    rintro t l hl t' ⟨zs, hrun, hquiet, hpast⟩ ht'
    have hw := wired_of_run hrun
    have hs := step_of_wired hw ht'
    have hrun' := hrun.snoc ht'
    obtain ⟨hsub, huntracked⟩ := hs.tracked_of_not_spawn hw (hnoSpawn l hl)
    have hquiet' : ∀ l' ∈ zs ++ [l], isAbort l' = false := by
      intro l' hl'
      rcases List.mem_append.mp hl' with hmem | hmem
      · exact hquiet l' hmem
      · rw [List.mem_singleton.mp hmem]
        exact hnoAbort l (List.mem_append_right _ (List.mem_cons_of_mem _ hl))
    have hpast' : passed t' k = true → ∀ i, isTracked t' i = false := by
      intro hpassed i
      rcases (hs.call hw k).passed hpassed with hbefore | hdrained
      · exact huntracked i (hpast hbefore i)
      · exact ((drained_iff hrun').mp hdrained).2 i
    refine ⟨⟨hsub, fun hreturned i => ?_⟩, _, hrun', hquiet', hpast'⟩
    rw [taskRuns_eq hrun' hquiet']
    exact hpast' (by rw [passed, hreturned]; rfl) i

/-- A task is under way when the tracker is closed, and panics before the call returns. -/
theorem close_admits_none_iff_panic :
    ∃ m, system.machine.Run ([.main (.spawn 0), .main (.shutdown 0 .zero)] ++
        [.main (.close 0)]) m ∧
      system.machine.Steps (KeepsOut 0) m
        [.main (.trigger 0), .main (.wait 0), .act 0 .panic, .main (.finish 0),
          .main (.clone 0)] := by
  let m : State := ⟨⟨[root], [true], [⟨true, [0]⟩], [⟨root, .zero, .closed⟩]⟩,
    [⟨root, .running⟩]⟩
  let s : State := ⟨⟨[root, root], [true], [⟨true, []⟩],
    [⟨root, .zero, .returned (.ok ())⟩]⟩, [⟨root, .ended⟩]⟩
  have hclose : system.machine.Run ([.main (.spawn 0), .main (.shutdown 0 .zero)] ++
      [.main (.close 0)]) m := by decide +kernel
  have hexec : system.machine.exec m
      [.main (.trigger 0), .main (.wait 0), .act 0 .panic, .main (.finish 0),
        .main (.clone 0)] = some s := by
    decide +kernel
  exact ⟨m, hclose, (close_admits_none_iff hclose hexec (by decide)).mpr (by decide)⟩

/-- A clone spawns a task when `shutdown` has returned `Ok`: the task enters the tracker and
runs. -/
theorem task_after_close :
    ∃ s s', system.machine.Run ([.main (.clone 0), .main (.shutdown 0 (.fromNanos 5))] ++
        .main (.close 0) :: [.main (.wait 0), .main (.finish 0)]) s ∧ Returned s 0 (.ok ()) ∧
      trackedTasks s = [] ∧ system.machine.step s (.main (.spawn 1)) = some s' ∧
      trackedTasks s' = [0] ∧ Returned s' 0 (.ok ()) ∧ taskRuns s' 0 = true := by
  let s : State := ⟨⟨[root, root], [true], [⟨true, []⟩],
    [⟨root, .fromNanos 5, .returned (.ok ())⟩]⟩, []⟩
  let s' : State := ⟨s.shared.track 0 0, [⟨root, .running⟩]⟩
  exact ⟨s, s', by decide +kernel, rfl, rfl, rfl, rfl, rfl, rfl⟩

end ShutdownController

end RustUtils
