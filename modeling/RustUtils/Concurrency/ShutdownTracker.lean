import RustUtils.Concurrency.Shutdown

/-!
# The tracker of a `ShutdownController` along its runs

The tracked tasks are those whose tracked future has not ended, each counted once
(`counts_of_run`), and one inversion says what a move does to them (`Step.tracked_cases`).
For a call of `shutdown` another inversion, `Step.call`, says what a move does to its phase:
its wait resolves at a moment at which the tracker is drained only, and a resolved wait
stays resolved. `resolved_iff` reads this off the history of a run.
-/

namespace RustUtils

open Transition

namespace ShutdownController

variable {ls : List Label} {s s' : State} {l : Label}

/-! ### What is running -/

namespace Phase

/-- The future passed to `spawn` or `spawn_critical` has not ended. -/
def future : Phase → Bool
  | running | fresh | awaiting | detached => true
  | _ => false

/-- Nor has the wrapper of `spawn_critical` matched and handled its outcome. -/
def callers : Phase → Bool
  | running | fresh | awaiting | innerEnded _ | matched _ | detached => true
  | _ => false

/-- A listener of `trigger_on_signal` has not ended. -/
def listener : Phase → Bool
  | listening | signalled => true
  | _ => false

/-- The tracked future of the task has neither completed nor been dropped. -/
def tracked : Phase → Bool
  | running | fresh | awaiting | innerEnded _ | matched _ | listening | signalled => true
  | _ => false

theorem callers_or_listener {p : Phase} (h : p.tracked = true) :
    p.callers = true ∨ p.listener = true := by
  cases p <;> first | exact .inl rfl | exact .inr rfl | contradiction

/-- A future that runs and is not tracked runs in a detached inner task. -/
theorem future_of_not_tracked {p : Phase} (h : p.tracked = false) :
    p.future = decide (p = detached) := by
  cases p <;> first | rfl | contradiction

end Phase

/-- The tracked future of task `i` has not ended. -/
def isTracked (s : State) (i : ℕ) : Bool := s.look (·.phase.tracked) false i

/-- The future that the caller passed as task `i` has not ended. -/
def futureRuns (s : State) (i : ℕ) : Bool := s.look (·.phase.future) false i

/-- The future that the caller passed as task `i`, or its wrapper, has not ended. -/
def callerRuns (s : State) (i : ℕ) : Bool := s.look (·.phase.callers) false i

/-- Task `i` is a listener that has not ended. -/
def listenerRuns (s : State) (i : ℕ) : Bool := s.look (·.phase.listener) false i

/-- The tracked tasks. -/
def trackedTasks (s : State) : List ℕ := (s.shared.tracker 0).tracked

/-- The tracker is closed and nothing is tracked. -/
def drained (s : State) : Bool := (s.shared.tracker 0).drained

/-! ### The tracked tasks -/

/-- A step of a task leaves the tracker with the tracked future, and nothing enters it. -/
private theorem Transits.tracked_eq {a : Act} {p p' : Phase} {e : Effect} (h : Transits a p e p') :
    p'.tracked = (p.tracked && !decide (e = .untrack)) := by
  cases h <;> rfl

private theorem Transits.tracked_of_untrack {a : Act} {p p' : Phase}
    (h : Transits a p .untrack p') :
    p.tracked = true := by
  cases h <;> rfl

private theorem Spawns.tracked {g : Move} {p : Phase} (h : Spawns g p) : p.tracked = true := by
  cases h <;> rfl

/-- What a move does to the tracked tasks: a call that spawns adds its task, the end of a
tracked future removes it, and every other move leaves them alone. -/
theorem Step.tracked_cases (hw : Wired s) (h : Step s l s') :
    (trackedTasks s' = trackedTasks s ∧ ∀ i, isTracked s' i = isTracked s i) ∨
    (∃ g p, l = .main g ∧ Spawns g p ∧ trackedTasks s' = s.tasks.length :: trackedTasks s ∧
      ∀ i, isTracked s' i = (decide (i = s.tasks.length) || isTracked s i)) ∨
    ∃ j a, l = .act j a ∧ isTracked s j = true ∧ trackedTasks s' = (trackedTasks s).erase j ∧
      ∀ i, isTracked s' i = (!decide (i = j) && isTracked s i) := by
  have hlook : ∀ {sh : Shared}, ∀ i, isTracked ⟨sh, s.tasks ++ []⟩ i = isTracked s i :=
    Config.look_spawn (by simp)
  obtain ⟨hcalls⟩ | ⟨htask, htransits⟩ := h
  · cases hcalls with
    | clone | trigger | shutdown | wait hcall | finish hcall | deadline hcall | report hcall =>
      exact .inl ⟨rfl, hlook⟩
    | spawn hg =>
      refine .inr (.inl ⟨_, _, rfl, hg, ?_, fun i => ?_⟩)
      · exact congrArg Tracker.tracked (hw.shared.tracker_track _)
      · rw [isTracked, Config.look_snoc]
        by_cases hi : i = s.tasks.length <;> simp [hi, hg.tracked, isTracked]
    | close hcall =>
      refine .inl ⟨?_, hlook⟩
      rw [trackedTasks, (hw.shared.setCall _ rfl).tracker_close]
      rfl
  · rename_i j a p p' e
    have hshow : ∀ {sh : Shared} i,
        isTracked ⟨sh, s.tasks.set j ⟨root, p'⟩⟩ i =
          if i = j then p'.tracked else isTracked s i := Config.look_act htask
    have hj : isTracked s j = p.tracked := Config.look_of_getElem? htask
    by_cases he : e = .untrack
    · subst he
      have hp : p'.tracked = false := by rw [htransits.tracked_eq]; simp
      refine .inr (.inr ⟨_, _, rfl, hj.trans htransits.tracked_of_untrack, ?_, fun i => ?_⟩)
      · exact congrArg Tracker.tracked (hw.shared.tracker_untrack j)
      · rw [hshow]
        by_cases hi : i = j <;> simp [hi, hp]
    · have hp : p'.tracked = p.tracked := by rw [htransits.tracked_eq]; simp [he]
      refine .inl ⟨?_, fun i => ?_⟩
      · cases e with
        | none | cancel => rfl
        | untrack => exact absurd rfl he
      · rw [hshow]
        by_cases hi : i = j
        · rw [if_pos hi, hp, hi, hj]
        · rw [if_neg hi]

/-- The tracker counts the tasks whose tracked future has not ended, each of them once. -/
structure Counts (s : State) : Prop where
  mem_iff : ∀ i, i ∈ trackedTasks s ↔ isTracked s i = true
  nodup : (trackedTasks s).Nodup

/-- Every step keeps the count. -/
private theorem Counts.step (hw : Wired s) (hc : Counts s) (h : Step s l s') : Counts s' := by
  obtain ⟨htracked, hlook⟩ | ⟨g, p, -, hg, htracked, hlook⟩ | ⟨j, a, -, hj, htracked, hlook⟩ :=
    h.tracked_cases hw
  · exact ⟨fun i => by rw [htracked, hlook, hc.mem_iff], htracked ▸ hc.nodup⟩
  · -- The new number is not tracked yet, because there is no such task.
    have hfresh : s.tasks.length ∉ trackedTasks s := by
      rw [hc.mem_iff, isTracked, Config.look_of_le le_rfl]
      exact Bool.false_ne_true
    refine ⟨fun i => ?_, htracked ▸ List.nodup_cons.mpr ⟨hfresh, hc.nodup⟩⟩
    rw [htracked, hlook, List.mem_cons, hc.mem_iff, Bool.or_eq_true, decide_eq_true_iff]
  · refine ⟨fun i => ?_, htracked ▸ hc.nodup.erase j⟩
    rw [htracked, hlook, hc.nodup.mem_erase_iff, hc.mem_iff]
    simp

/-- In every run the tracker holds the tasks whose guard is alive, once each. -/
theorem counts_of_run (h : system.machine.Run ls s) : Counts s :=
  run_induct (I := fun _ s => Counts s)
    ⟨fun i => by simp [trackedTasks, isTracked, Config.look, system, TaskSystem.machine,
      Shared.tracker], by simp [trackedTasks, system, TaskSystem.machine, Shared.tracker]⟩
    (fun _ _ _ _ _ hw hc hl => hc.step hw hl) h

theorem Counts.eq_nil_iff (hc : Counts s) :
    trackedTasks s = [] ↔ ∀ i, isTracked s i = false := by
  rw [List.eq_nil_iff_forall_not_mem]
  exact forall_congr' fun i => by rw [hc.mem_iff, Bool.not_eq_true]

/-! ### The calls of `shutdown` -/

/-- What a move does to call `k`. -/
inductive CallStep (s s' : State) (k : ℕ) : Label → Option CallPhase → Option CallPhase → Prop
  | stay {l : Label} {p : Option CallPhase} (hclose : l ≠ .main (.close k))
      (hwait : l ≠ .main (.wait k)) (hkeep : drained s' = true → drained s = true) :
      CallStep s s' k l p p
  | settle {l : Label} {p : Option CallPhase} (hclose : l ≠ .main (.close k))
      (hwait : l ≠ .main (.wait k)) :
      CallStep s s' k l p (p.map (CallPhase.resolve (drained s')))
  | shutdown {h : ℕ} {timeout : Duration} :
      CallStep s s' k (.main (.shutdown h timeout)) none (some .cancelled)
  | close : CallStep s s' k (.main (.close k)) (some .cancelled) (some .closed)
  | wait : CallStep s s' k (.main (.wait k)) (some .closed) (some (.waiting (drained s')))
  | finish : CallStep s s' k (.main (.finish k)) (some (.waiting true))
      (some (.returned (.ok ())))
  | deadline {resolved : Bool} : CallStep s s' k (.main (.deadline k)) (some (.waiting resolved))
      (some (.expired resolved))
  | report {timeout : Duration}
      (htimeout : (s.shared.calls[k]?).map ShutdownCall.timeout = some timeout) :
      CallStep s s' k (.main (.report k)) (some .timedOut)
        (some (.returned (.error (timeoutReport timeout (trackedTasks s).length))))

/-- **The account of a move** for one call of `shutdown`. -/
theorem Step.call (hw : Wired s) (h : Step s l s') (k : ℕ) :
    CallStep s s' k l (s.shared.callPhase k) (s'.shared.callPhase k) := by
  obtain ⟨hcalls⟩ | ⟨htask, htransits⟩ := h
  · cases hcalls with
    | clone | trigger => exact .stay (by simp) (by simp) id
    | spawn hg =>
      refine .stay (by rintro ⟨⟩; cases hg) (by rintro ⟨⟩; cases hg) fun hdrained => ?_
      rw [drained, hw.shared.tracker_track] at hdrained
      simp [Tracker.drained] at hdrained
    | shutdown =>
      rw [Shared.callPhase_addCall]
      split
      · rename_i hk
        have hnone : s.shared.callPhase k = none := by
          rw [Shared.callPhase, hk]
          simp [Shared.cancel]
        rw [hnone]
        exact .shutdown
      · exact .stay (by simp) (by simp) id
    | close hcall =>
      rw [(hw.shared.setCall _ rfl).callPhase_close, Shared.callPhase_setCall hcall]
      split
      · rename_i hk
        rw [hk, Shared.callPhase_of_call hcall]
        exact .close
      · rename_i hk
        exact .settle (by simpa using Ne.symm hk) (by simp)
    | wait hcall =>
      rw [Shared.callPhase_setCall hcall]
      split
      · rename_i hk
        rw [hk, Shared.callPhase_of_call hcall]
        exact .wait
      · rename_i hk
        exact .stay (by simp) (by simpa using Ne.symm hk) id
    | finish hcall | deadline hcall | report hcall =>
      rw [Shared.callPhase_setCall hcall]
      split
      · rename_i hk
        rw [hk, Shared.callPhase_of_call hcall]
        first | exact .finish | exact .deadline | exact .report (by rw [hcall]; rfl)
      · exact .stay (by simp) (by simp) id
  · rename_i j a p p' e
    cases e with
    | none | cancel => exact .stay (by simp) (by simp) id
    | untrack =>
      have hsettle := hw.shared.callPhase_untrack j k
      exact hsettle ▸ .settle (by simp) (by simp)

/-- The call has closed the tracker. -/
def CallPhase.closes : CallPhase → Bool
  | .cancelled => false
  | _ => true

/-- The wait of the call has begun. -/
def CallPhase.entered : CallPhase → Bool
  | .cancelled | .closed => false
  | _ => true

/-- The wait of the call has resolved. -/
def CallPhase.passed : CallPhase → Bool
  | .waiting resolved => resolved
  | .returned (.ok _) => true
  | _ => false

/-- The deadline of the call has come before its wait has resolved. -/
def CallPhase.elapsed : CallPhase → Bool
  | .timedOut | .returned (.error _) => true
  | _ => false

/-- The wait of call `k` has resolved. -/
def passed (s : State) (k : ℕ) : Bool := (s.shared.callPhase k).any CallPhase.passed

/-- Call `k` has timed out. -/
def elapsed (s : State) (k : ℕ) : Bool := (s.shared.callPhase k).any CallPhase.elapsed

section CallStep

variable {k : ℕ} {p p' : Option CallPhase}

/-- A call closes the tracker once, with its `close`. -/
private theorem CallStep.closes_iff (h : CallStep s s' k l p p') :
    p'.any CallPhase.closes = true ↔
      p.any CallPhase.closes = true ∨ l = .main (.close k) := by
  cases h with
  | stay hclose => simp [hclose]
  | settle hclose =>
    rcases p with _ | _ | _ | _ | _ | _ <;>
      simp [CallPhase.closes, CallPhase.resolve, hclose]
  | @deadline resolved => cases resolved <;> simp [CallPhase.closes, CallPhase.expired]
  | _ => simp [CallPhase.closes]

/-- A wait begins once, with its `wait`. -/
private theorem CallStep.entered_iff (h : CallStep s s' k l p p') :
    p'.any CallPhase.entered = true ↔
      p.any CallPhase.entered = true ∨ l = .main (.wait k) := by
  cases h with
  | stay _ hwait => simp [hwait]
  | settle _ hwait =>
    rcases p with _ | _ | _ | _ | _ | _ <;>
      simp [CallPhase.entered, CallPhase.resolve, hwait]
  | @deadline resolved => cases resolved <;> simp [CallPhase.entered, CallPhase.expired]
  | _ => simp [CallPhase.entered]

/-- A wait resolves at a moment at which the tracker is drained only. -/
theorem CallStep.passed (h : CallStep s s' k l p p') (hp : p'.any CallPhase.passed = true) :
    p.any CallPhase.passed = true ∨ drained s' = true := by
  cases h with
  | stay => exact .inl hp
  | settle =>
    rcases p with _ | _ | _ | _ | _ | _ <;> simp_all [CallPhase.passed, CallPhase.resolve]
  | shutdown | close | report => simp [CallPhase.passed] at hp
  | wait => exact .inr hp
  | finish => exact .inl rfl
  | @deadline resolved =>
    cases resolved with
    | true => exact .inl rfl
    | false => contradiction

/-- A wait that has resolved stays resolved, and the call returns `Ok`. -/
private theorem CallStep.passed_mono (h : CallStep s s' k l p p')
    (hp : p.any CallPhase.passed = true) : p'.any CallPhase.passed = true := by
  cases h with
  | stay => exact hp
  | settle =>
    rcases p with _ | _ | _ | _ | _ | _ <;> simp_all [CallPhase.passed, CallPhase.resolve]
  | shutdown | close | wait | report => simp [CallPhase.passed] at hp
  | finish => rfl
  | deadline =>
    obtain rfl : _ = true := hp
    rfl

/-- A call that has timed out stays so, and returns its report. -/
private theorem CallStep.elapsed_mono (h : CallStep s s' k l p p')
    (hp : p.any CallPhase.elapsed = true) : p'.any CallPhase.elapsed = true := by
  cases h with
  | stay => exact hp
  | settle =>
    rcases p with _ | _ | _ | _ | _ | _ <;> simp_all [CallPhase.elapsed, CallPhase.resolve]
  | shutdown | close | wait | finish | deadline => simp [CallPhase.elapsed] at hp
  | report => rfl

/-- A pending wait has resolved if the tracker is drained. -/
private theorem CallStep.waiting (h : CallStep s s' k l p p')
    (hp : ∀ r, p = some (.waiting r) → drained s = true → r = true) {r : Bool}
    (hr : p' = some (.waiting r)) (hdrained : drained s' = true) : r = true := by
  cases h with
  | stay _ _ hkeep => exact hp r hr (hkeep hdrained)
  | settle =>
    rcases p with _ | _ | _ | _ | _ | _ <;> simp_all [CallPhase.resolve]
  | shutdown | close | finish | report => simp at hr
  | wait => simp_all
  | @deadline resolved => cases resolved <;> simp [CallPhase.expired] at hr

/-- A wait that is over has resolved, or the call has timed out. -/
theorem CallStep.over (h : CallStep s s' k l p p') {resolved : Bool}
    (hp : p = some (.waiting resolved)) (hover : ∀ r, p' ≠ some (.waiting r)) :
    p' = some (.expired resolved) := by
  cases h with
  | stay => exact absurd hp (hover resolved)
  | settle =>
    subst hp
    exact absurd rfl (hover _)
  | shutdown | close | wait | report => simp at hp
  | finish =>
    obtain rfl := CallPhase.waiting.inj (Option.some_inj.mp hp)
    rfl
  | deadline =>
    obtain rfl := CallPhase.waiting.inj (Option.some_inj.mp hp)
    rfl

end CallStep

/-! ### The calls along a run -/

private theorem Step.closed (hw : Wired s) (h : Step s l s') :
    (s'.shared.tracker 0).closed = true ↔
      (s.shared.tracker 0).closed = true ∨ ∃ k, l = .main (.close k) := by
  obtain ⟨hcalls⟩ | ⟨htask, htransits⟩ := h
  · cases hcalls with
    | clone | trigger | shutdown | wait hcall | finish hcall | deadline hcall | report hcall =>
      simp [Shared.cancel]
      rfl
    | spawn hg =>
      rw [hw.shared.tracker_track]
      cases hg <;> simp
    | close hcall =>
      rw [(hw.shared.setCall _ rfl).tracker_close]
      simp
  · rename_i j a p p' e
    cases e with
    | none | cancel => simp; rfl
    | untrack => simp [Effect.apply, root, hw.shared.tracker_untrack]

/-- The tracker is closed once a call has closed it. -/
private theorem closed_iff (h : system.machine.Run ls s) :
    (s.shared.tracker 0).closed = true ↔ ∃ k, .main (.close k) ∈ ls := by
  refine run_induct
    (I := fun ls s => (s.shared.tracker 0).closed = true ↔ ∃ k, .main (.close k) ∈ ls)
    (by simp [system, TaskSystem.machine, Shared.tracker]) (fun ls l s s' _ hw hI hl => ?_) h
  rw [hl.closed hw, hI]
  simp [exists_or, eq_comm]

/-- A call has closed the tracker where its `close` is among the moves. -/
private theorem closes_iff (h : system.machine.Run ls s) (k : ℕ) :
    (s.shared.callPhase k).any CallPhase.closes = true ↔ .main (.close k) ∈ ls := by
  refine run_induct
    (I := fun ls s => (s.shared.callPhase k).any CallPhase.closes = true ↔
      .main (.close k) ∈ ls)
    (by simp [system, TaskSystem.machine, Shared.callPhase]) (fun ls l s s' _ hw hI hl => ?_) h
  rw [(hl.call hw k).closes_iff, hI]
  simp [eq_comm]

/-- The wait of a call has begun where its `wait` is among the moves. -/
theorem entered_iff (h : system.machine.Run ls s) (k : ℕ) :
    (s.shared.callPhase k).any CallPhase.entered = true ↔ .main (.wait k) ∈ ls := by
  refine run_induct
    (I := fun ls s => (s.shared.callPhase k).any CallPhase.entered = true ↔
      .main (.wait k) ∈ ls)
    (by simp [system, TaskSystem.machine, Shared.callPhase]) (fun ls l s s' _ hw hI hl => ?_) h
  rw [(hl.call hw k).entered_iff, hI]
  simp [eq_comm]

/-- A call waits for a tracker that it has closed. -/
private theorem close_mem_of_wait_mem (h : system.machine.Run ls s) {k : ℕ}
    (hk : .main (.wait k) ∈ ls) : .main (.close k) ∈ ls := by
  obtain ⟨p, hp, hentered⟩ := (Option.any_eq_true _ _).mp ((entered_iff h k).mpr hk)
  refine (closes_iff h k).mp ((Option.any_eq_true _ _).mpr ⟨p, hp, ?_⟩)
  cases p <;> first | rfl | contradiction

private theorem waiting_of_run (h : system.machine.Run ls s) {k : ℕ} {resolved : Bool}
    (hk : s.shared.callPhase k = some (.waiting resolved)) (hdrained : drained s = true) :
    resolved = true := by
  refine run_induct
    (I := fun _ s => ∀ k r, s.shared.callPhase k = some (.waiting r) → drained s = true → r = true)
    (by simp [system, TaskSystem.machine, Shared.callPhase])
    (fun ls l s s' _ hw hI hl k r hr hd => (hl.call hw k).waiting (hI k) hr hd) h k _ hk hdrained

/-- The tracker is drained when it is closed and no task is tracked. -/
theorem drained_iff (h : system.machine.Run ls s) :
    drained s = true ↔ (∃ k, .main (.close k) ∈ ls) ∧ ∀ i, isTracked s i = false := by
  rw [drained, Tracker.drained, Bool.and_eq_true, closed_iff h, List.isEmpty_iff,
    ← (counts_of_run h).eq_nil_iff]
  rfl

theorem passed_of_exec (h : system.machine.Run ls s) {ys : List Label} {k : ℕ}
    (hy : system.machine.exec s ys = some s') (hk : passed s k = true) : passed s' k = true := by
  refine exec_preserves (P := fun m => passed m k = true) (fun m l m' hw hm hl => ?_) h hy hk
  exact (hl.call hw k).passed_mono hm

/-- A call that has timed out stays so. -/
theorem elapsed_of_exec (h : system.machine.Run ls s) {ys : List Label} {k : ℕ}
    (hy : system.machine.exec s ys = some s') (hk : elapsed s k = true) : elapsed s' k = true := by
  refine exec_preserves (P := fun m => elapsed m k = true) (fun m l m' hw hm hl => ?_) h hy hk
  exact (hl.call hw k).elapsed_mono hm

/-- At some moment since the wait of call `k` began, nothing was tracked. -/
def DrainedSince (k : ℕ) (ls : List Label) : Prop :=
  ∃ xs ys m, ls = xs ++ ys ∧ system.machine.Run xs m ∧ .main (.wait k) ∈ xs ∧
    ∀ i, isTracked m i = false

private theorem DrainedSince.append {k : ℕ} (h : DrainedSince k ls) (zs : List Label) :
    DrainedSince k (ls ++ zs) := by
  obtain ⟨xs, ys, m, rfl, hm⟩ := h
  exact ⟨xs, ys ++ zs, m, List.append_assoc _ _ _, hm⟩

private theorem CallPhase.entered_of_passed {p : CallPhase} (h : p.passed = true) :
    p.entered = true := by
  cases p <;> first | rfl | contradiction

/-- A wait that has resolved has seen a drained tracker. -/
theorem drainedSince_of_passed (h : system.machine.Run ls s) {k : ℕ} (hk : passed s k = true) :
    DrainedSince k ls := by
  refine h.induct (I := fun ls s => passed s k = true → DrainedSince k ls)
    (by simp [passed, system, TaskSystem.machine, Shared.callPhase])
    (fun ls l s s' hrun hI hl hpassed => ?_) hk
  have hw := wired_of_run hrun
  have hrun' := hrun.snoc hl
  rcases ((step_of_wired hw hl).call hw k).passed hpassed with hbefore | hdrained
  · exact (hI hbefore).append [l]
  · -- The moment is now; a call that has passed its wait has begun it.
    have hentered : (s'.shared.callPhase k).any CallPhase.entered = true := by
      obtain ⟨p, hp, hpass⟩ := (Option.any_eq_true _ _).mp hpassed
      exact (Option.any_eq_true _ _).mpr ⟨p, hp, CallPhase.entered_of_passed hpass⟩
    exact ⟨ls ++ [l], [], s', by simp, hrun', (entered_iff hrun' k).mp hentered,
      ((drained_iff hrun').mp hdrained).2⟩

/-- **Waiting for a drained tracker.** The wait of a pending call has resolved exactly when
the tracker was drained at some moment since the wait began. -/
theorem resolved_iff (h : system.machine.Run ls s) {k : ℕ} {resolved : Bool}
    (hk : s.shared.callPhase k = some (.waiting resolved)) :
    resolved = true ↔ DrainedSince k ls := by
  have hpassed : passed s k = resolved := by rw [passed, hk]; rfl
  constructor
  · exact fun hr => drainedSince_of_passed h (hpassed.trans hr)
  · rintro ⟨xs, ys, m, rfl, hm, hwait, hnone⟩
    obtain ⟨m', hm', hy⟩ := Machine.run_append_iff.mp h
    obtain rfl : m = m' := Option.some_inj.mp (hm.symm.trans hm')
    have hdrained : drained m = true :=
      (drained_iff hm).mpr ⟨⟨k, close_mem_of_wait_mem hm hwait⟩, hnone⟩
    -- At that moment the call was already waiting, and it had not timed out.
    obtain ⟨p, hp, hentered⟩ := (Option.any_eq_true _ _).mp ((entered_iff hm k).mpr hwait)
    suffices hpm : passed m k = true from hpassed.symm.trans (passed_of_exec hm hy hpm)
    have hnot : elapsed m k = false := by
      refine Bool.eq_false_iff.mpr fun helapsed => ?_
      have hlater := elapsed_of_exec hm hy helapsed
      rw [elapsed, hk] at hlater
      contradiction
    rw [elapsed, hp] at hnot
    rw [passed, hp]
    rcases p with _ | _ | r | _ | ⟨_ | _⟩ <;> try contradiction
    · exact waiting_of_run hm hp hdrained
    · rfl

end ShutdownController

end RustUtils
