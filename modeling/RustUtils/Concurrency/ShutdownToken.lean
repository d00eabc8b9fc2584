import RustUtils.Concurrency.Shutdown

/-!
# The token of a `ShutdownController` along its runs

`Step.isCancelled_iff` is the exact account of a move: the token is cancelled after it if it
was before, or if the move is one of four that cancel it. Everything else is bookkeeping
about where these come from. A wrapper that cancels has recorded the failure of its future,
and a wrapper that has matched a failure has cancelled.

`token_law` collects what holds of the runs in which no handle is aborted and no signal
listener is installed. `is_shutdown` is asked of a clone, so it has a value exactly on the clones
that exist (`isSome_isShutdown_iff`).
-/

namespace RustUtils

open Transition

namespace ShutdownController

variable {ls : List Label} {s s' : State} {l : Label}

/-! ### What cancels the token -/

/-- The moves that cancel the token. -/
inductive Cancels (s : State) : Label → Prop
  | trigger {h : ℕ} : Cancels s (.main (.trigger h))
  | shutdown {h : ℕ} {timeout : Duration} : Cancels s (.main (.shutdown h timeout))
  | resume {i : ℕ} {outcome : Outcome}
      (htask : s.tasks[i]? = some ⟨root, .innerEnded outcome⟩)
      (hfailed : failed outcome = true) : Cancels s (.act i .resume)
  | signal {i : ℕ} (htask : s.tasks[i]? = some ⟨root, .listening⟩) :
      Cancels s (.act i .signal)

private theorem Shared.Wired.isCancelled_cancel {sh : Shared} (hw : sh.Wired) :
    (sh.cancel 0).isCancelled 0 = true := by
  obtain ⟨b, hb⟩ := List.length_eq_one_iff.mp hw.tokens
  simp [Shared.cancel, Shared.isCancelled, hb]

/-- The steps of tasks that cancel the token are those of `Cancels`. -/
private theorem Transits.cancel_iff {a : Act} {p p' : Phase} {e : Effect} (h : Transits a p e p')
    {i : ℕ} (htask : s.tasks[i]? = some ⟨root, p⟩) : e = .cancel ↔ Cancels s (.act i a) := by
  constructor
  · rintro rfl
    cases h with
    | resumeFailed hfailed => exact .resume htask hfailed
    | signal => exact .signal htask
  · rintro (_ | _ | ⟨htask', hfailed⟩ | htask')
    · rw [htask] at htask'
      simp only [Option.some_inj, Task.mk.injEq, true_and] at htask'
      subst htask'
      cases h with
      | resumeFailed => rfl
      | resume hfailed' => simp [hfailed] at hfailed'
    · cases h
      rfl

/-- **The account of a move.** -/
theorem Step.isCancelled_iff (hw : Wired s) (h : Step s l s') :
    s'.shared.isCancelled 0 = true ↔ s.shared.isCancelled 0 = true ∨ Cancels s l := by
  have hcancelled := hw.shared.isCancelled_cancel
  have hquiet : s'.shared.isCancelled 0 = s.shared.isCancelled 0 → ¬ Cancels s l →
      (s'.shared.isCancelled 0 = true ↔ s.shared.isCancelled 0 = true ∨ Cancels s l) := by
    intro heq hnot
    rw [heq, or_iff_left hnot]
  obtain ⟨hcalls⟩ | ⟨htask, htransits⟩ := h
  · cases hcalls with
    | clone | close hcall | wait hcall | finish hcall | deadline hcall | report hcall =>
      exact hquiet rfl nofun
    | spawn hg => exact hquiet rfl (by rintro (_ | _) <;> cases hg)
    | trigger => exact iff_of_true hcancelled (.inr .trigger)
    | shutdown => exact iff_of_true hcancelled (.inr .shutdown)
  · have hcancel := htransits.cancel_iff htask
    rename_i i a p p' e
    cases e with
    | cancel => exact iff_of_true hcancelled (.inr (hcancel.mp rfl))
    | none | untrack => exact hquiet rfl fun hc => by simpa using hcancel.mpr hc

/-- The token stays cancelled. -/
theorem isCancelled_of_exec (h : system.machine.Run ls s) {ys : List Label}
    (hy : system.machine.exec s ys = some s') (hs : s.shared.isCancelled 0 = true) :
    s'.shared.isCancelled 0 = true := by
  refine exec_preserves (P := fun m => m.shared.isCancelled 0 = true)
    (fun m l m' hw hm hl => ?_) h hy hs
  exact (hl.isCancelled_iff hw).mpr (.inl hm)

/-- Every clone reads the one token. -/
private theorem isShutdown_eq (hw : Wired s) (i : ℕ) :
    isShutdown s i = (s.shared.controllers[i]?).map fun _ => s.shared.isCancelled 0 := by
  rw [isShutdown]
  cases hctl : s.shared.controllers[i]? with
  | none => rfl
  | some ctl =>
    rw [hw.shared.controllers ctl (List.mem_of_getElem? hctl)]
    rfl

/-- `is_shutdown` has a value exactly on the clones there are. -/
theorem isSome_isShutdown_iff (i : ℕ) :
    (isShutdown s i).isSome = true ↔ i < s.shared.controllers.length := by
  rw [isShutdown, Option.isSome_map, Option.isSome_iff_exists]
  exact ⟨fun ⟨_, hctl⟩ => (List.getElem?_eq_some_iff.mp hctl).1,
    fun hi => ⟨_, List.getElem?_eq_getElem hi⟩⟩

/-- What a clone reads is the state of the one token. -/
private theorem eq_isCancelled_of_isShutdown (h : system.machine.Run ls s) {i : ℕ} {b : Bool}
    (hb : isShutdown s i = some b) : b = s.shared.isCancelled 0 := by
  rw [isShutdown_eq (wired_of_run h), Option.map_eq_some_iff] at hb
  obtain ⟨-, -, rfl⟩ := hb
  rfl

/-! ### Where a cancellation comes from -/

/-- The task is a listener, wherever it stands. -/
def Phase.isListener : Phase → Bool
  | .listening | .signalled | .listenerEnded => true
  | _ => false

private theorem Transits.isListener_eq {a : Act} {p p' : Phase} {e : Effect}
    (h : Transits a p e p') :
    p'.isListener = p.isListener := by
  cases h <;> rfl

private theorem triggerOnSignal_of_isListener (h : system.machine.Run ls s) :
    ∀ t ∈ s.tasks, t.phase.isListener = true → ∃ i, .main (.triggerOnSignal i) ∈ ls := by
  refine run_induct (I := fun ls s => ∀ t ∈ s.tasks, t.phase.isListener = true →
    ∃ i, .main (.triggerOnSignal i) ∈ ls) (by simp [TaskSystem.machine])
    (fun ls l s s' _ _ hI hl t ht hlistener => ?_) h
  have hold : ∀ u ∈ s.tasks, u.phase.isListener = true →
      ∃ i, .main (.triggerOnSignal i) ∈ ls ++ [l] := fun u hu hu' =>
    (hI u hu hu').imp fun _ hmem => List.mem_append_left _ hmem
  obtain ⟨hcalls⟩ | ⟨htask, htransits⟩ := hl
  · rcases List.mem_append.mp ht with hmem | hmem
    · exact hold t hmem hlistener
    · cases hcalls with
      | spawn hg =>
        rw [List.mem_singleton.mp hmem] at hlistener
        cases hg with
        | spawn | spawnCritical => contradiction
        | triggerOnSignal => exact ⟨_, List.mem_append_right _ List.mem_cons_self⟩
      | _ => simp at hmem
  · rcases List.mem_or_eq_of_mem_set ht with hmem | rfl
    · exact hold t hmem hlistener
    · exact hold _ (List.mem_of_getElem? htask) (htransits.isListener_eq ▸ hlistener)

/-- What a run must contain for the token to be cancelled. -/
inductive Cause (ls : List Label) : Prop
  | trigger {h : ℕ} (hmem : .main (.trigger h) ∈ ls)
  | shutdown {h : ℕ} {timeout : Duration} (hmem : .main (.shutdown h timeout) ∈ ls)
  | failure {i : ℕ} {outcome : Outcome} (hmem : .act i (.innerEnd outcome) ∈ ls)
      (hfailed : failed outcome = true)
  | signal {h : ℕ} (hmem : .main (.triggerOnSignal h) ∈ ls)

private theorem Cause.append (h : Cause ls) (zs : List Label) : Cause (ls ++ zs) := by
  have hmono : ∀ {l}, l ∈ ls → l ∈ ls ++ zs := List.mem_append_left zs
  cases h with
  | trigger hmem => exact .trigger (hmono hmem)
  | shutdown hmem => exact .shutdown (hmono hmem)
  | failure hmem hfailed => exact .failure (hmono hmem) hfailed
  | signal hmem => exact .signal (hmono hmem)

/-- Whatever cancels the token has a cause. -/
private theorem cause_of_cancels (h : system.machine.Run ls s) (hl : Cancels s l) :
    Cause (ls ++ [l]) := by
  cases hl with
  | trigger => exact .trigger (List.mem_append_right _ List.mem_cons_self)
  | shutdown => exact .shutdown (List.mem_append_right _ List.mem_cons_self)
  | resume htask hfailed =>
    -- The wrapper has the outcome from the end of its future.
    have hend := ((recorded_of_run h htask).innerEnd_mem _).mpr rfl
    exact (Cause.failure (TaskSystem.mem_acts.mp hend) hfailed).append _
  | signal htask =>
    obtain ⟨i, hmem⟩ := triggerOnSignal_of_isListener h _ (List.mem_of_getElem? htask) rfl
    exact (Cause.signal hmem).append _

/-- **No spurious shutdown.** -/
theorem cause_of_isCancelled (h : system.machine.Run ls s)
    (hs : s.shared.isCancelled 0 = true) : Cause ls := by
  refine run_induct (I := fun ls s => s.shared.isCancelled 0 = true → Cause ls)
    (by simp [TaskSystem.machine, system, Shared.isCancelled])
    (fun ls l s s' hrun hw hI hl hs => ?_) h hs
  rcases (hl.isCancelled_iff hw).mp hs with hbefore | hcancels
  · exact (hI hbefore).append [l]
  · exact cause_of_cancels hrun hcancels

/-! ### What a failure leads to -/

/-- The outcome that the wrapper has matched. -/
def Phase.handled : Phase → Option Outcome
  | .matched outcome | .exited outcome => some outcome
  | _ => none

/-- **No swallowed failure.** A wrapper that has matched a failure has cancelled the token. -/
theorem isCancelled_of_handled (h : system.machine.Run ls s) :
    ∀ t ∈ s.tasks, ∀ outcome, t.phase.handled = some outcome → failed outcome = true →
      s.shared.isCancelled 0 = true := by
  refine run_induct (I := fun _ s => ∀ t ∈ s.tasks, ∀ outcome, t.phase.handled = some outcome →
    failed outcome = true → s.shared.isCancelled 0 = true) (by simp [TaskSystem.machine])
    (fun ls l s s' _ hw hI hl t ht outcome hhandled hfailed => ?_) h
  rw [hl.isCancelled_iff hw]
  obtain ⟨hcalls⟩ | ⟨htask, htransits⟩ := hl
  · rcases List.mem_append.mp ht with hmem | hmem
    · exact .inl (hI t hmem outcome hhandled hfailed)
    · cases hcalls with
      | spawn hg =>
        rw [List.mem_singleton.mp hmem] at hhandled
        cases hg <;> contradiction
      | _ => simp at hmem
  · rcases List.mem_or_eq_of_mem_set ht with hmem | rfl
    · exact .inl (hI t hmem outcome hhandled hfailed)
    · have hbefore := hI _ (List.mem_of_getElem? htask) outcome
      cases htransits with
      | resumeFailed hfailed' => exact .inr (.resume htask hfailed')
      | resume hfailed' =>
        obtain rfl := Option.some_inj.mp hhandled
        exact absurd hfailed (by simp [hfailed'])
      | exit => exact .inl (hbefore hhandled hfailed)
      | _ => simp [Phase.handled] at hhandled

/-! ### Runs without aborts and listeners -/

/-- The future has returned an error or panicked. -/
def errOrPanic : Outcome → Bool
  | .ok (.ok ()) => false
  | .ok (.error _) => true
  | .error e => e.isPanic

/-- No handle is aborted, no inner task is cut off, and no signal listener is installed. -/
def undisturbed : Label → Bool
  | .act _ .abort => false
  | .act _ (.innerEnd (.error e)) => e.isPanic
  | .main (.triggerOnSignal _) => false
  | _ => true

namespace Phase

/-- The task of `spawn_critical`, its wrapper, has ended. -/
def wrapperEnded : Phase → Bool
  | exited _ | dropped | detached | detachedEnded _ | abandoned _ => true
  | _ => false

/-- The task was spawned by `spawn`. -/
def plain : Phase → Bool
  | running | ended => true
  | _ => false

end Phase

/-- The wrapper of task `i` has ended. -/
def wrapperEnded (s : State) (i : ℕ) : Bool := s.look (·.phase.wrapperEnded) false i

/-- Task `i` is a plain one, or a critical one whose future has returned `Ok(())`. -/
def Harmless (s : State) (i : ℕ) : Prop :=
  s.look (·.phase.plain) false i = true ∨
    s.look (·.phase.outcome) none i = some (.ok (.ok ()))

private theorem failed_of_errOrPanic {outcome : Outcome} (h : errOrPanic outcome = true) :
    failed outcome = true := by
  rcases outcome with _ | _ | ⟨⟩ <;> first | rfl | contradiction

private theorem errOrPanic_of_failed {i : ℕ} {outcome : Outcome} (h : failed outcome = true)
    (hquiet : undisturbed (.act i (.innerEnd outcome)) = true) : errOrPanic outcome = true := by
  rcases outcome with _ | _ | ⟨⟩
  · exact hquiet
  · rfl
  · contradiction

/-- Without aborts, a wrapper ends when it has handled the outcome. -/
private theorem handled_of_wrapperEnded (h : system.machine.Run ls s)
    (hls : ∀ l ∈ ls, undisturbed l = true) {i : ℕ} {t : Task} (ht : s.tasks[i]? = some t)
    (hended : t.phase.wrapperEnded = true) : t.phase.handled = t.phase.outcome := by
  have hnoAbort : .abort ∉ TaskSystem.acts i ls := fun hmem =>
    Bool.false_ne_true (hls _ (TaskSystem.mem_acts.mp hmem))
  have habort := (recorded_of_run h ht).abort_mem
  revert hended habort
  cases t.phase <;>
    simp [hnoAbort, Phase.wrapperEnded, Phase.critical, Phase.started, Phase.aborted,
      Phase.handled, Phase.outcome]

/-- A step after which a task is harmless changes `is_shutdown` on no clone. -/
private theorem Step.isShutdown_of_harmless {i : ℕ} {a : Act} (hw : Wired s)
    (h : Step s (.act i a) s') (hharmless : Harmless s' i) (j : ℕ) :
    isShutdown s' j = isShutdown s j := by
  have hw' := hw.step h
  have hiff := h.isCancelled_iff hw
  obtain ⟨-⟩ | ⟨htask, htransits⟩ := h
  rename_i p p' e
  have hcancel := htransits.cancel_iff htask
  rw [Harmless, Config.look_act htask, Config.look_act htask, if_pos rfl, if_pos rfl] at hharmless
  have hnot : ¬ Cancels s (.act i a) := by
    rw [← hcancel]
    rintro rfl
    cases htransits with
    | resumeFailed hfailed =>
      rcases hharmless with hplain | hok
      · contradiction
      · obtain rfl := Option.some_inj.mp hok
        contradiction
    | signal => rcases hharmless with hplain | hok <;> contradiction
  rw [or_iff_left hnot, ← Bool.eq_iff_iff] at hiff
  have hcontrollers : (e.apply s.shared i ⟨root, p⟩).controllers = s.shared.controllers := by
    cases e <;> rfl
  rw [isShutdown_eq hw', isShutdown_eq hw, hiff, hcontrollers]

/-- **The law of the token**, for the runs in which no handle is aborted and no signal
listener is installed. All the clones there are agree at all times (`isSome_isShutdown_iff`),
and a shutdown is never taken back. It has been triggered, or called, or a critical future has
failed; a failure shows as soon as the wrapper has ended; and plain tasks and clean exits leave
the token alone. -/
theorem token_law (h : system.machine.Run ls s) (hls : ∀ l ∈ ls, undisturbed l = true) :
    (∀ i j b c, isShutdown s i = some b → isShutdown s j = some c → b = c) ∧
    (∀ xs ys m i j b, ls = xs ++ ys → system.machine.Run xs m → isShutdown m i = some true →
      isShutdown s j = some b → b = true) ∧
    (∀ j, isShutdown s j = some true →
      (∃ i, .main (.trigger i) ∈ ls) ∨ (∃ i timeout, .main (.shutdown i timeout) ∈ ls) ∨
        ∃ i outcome, .act i (.innerEnd outcome) ∈ ls ∧ errOrPanic outcome = true) ∧
    (∀ i outcome, .act i (.innerEnd outcome) ∈ ls → errOrPanic outcome = true →
      wrapperEnded s i = true → ∀ j b, isShutdown s j = some b → b = true) ∧
    ∀ i a s', system.machine.step s (.act i a) = some s' → Harmless s' i →
      ∀ j, isShutdown s' j = isShutdown s j := by
  have hw := wired_of_run h
  refine ⟨fun i j b c hb hc => ?_, ?_, fun j hj => ?_, ?_, ?_⟩
  · rw [eq_isCancelled_of_isShutdown h hb, eq_isCancelled_of_isShutdown h hc]
  · rintro xs ys m i j b rfl hm hi hj
    obtain ⟨m', hm', hy⟩ := Machine.run_append_iff.mp h
    obtain rfl : m = m' := Option.some_inj.mp (hm.symm.trans hm')
    rw [eq_isCancelled_of_isShutdown h hj]
    exact isCancelled_of_exec hm hy (eq_isCancelled_of_isShutdown hm hi).symm
  · cases cause_of_isCancelled h (eq_isCancelled_of_isShutdown h hj).symm with
    | trigger hmem => exact .inl ⟨_, hmem⟩
    | shutdown hmem => exact .inr (.inl ⟨_, _, hmem⟩)
    | failure hmem hfailed =>
      exact .inr (.inr ⟨_, _, hmem, errOrPanic_of_failed hfailed (hls _ hmem)⟩)
    | signal hmem => exact absurd (hls _ hmem) Bool.false_ne_true
  · intro i outcome hmem hfailure hended j b hj
    obtain ⟨t, ht, hphase⟩ := Config.exists_of_look hended
    have hend := ((recorded_of_run h ht).innerEnd_mem outcome).mp (TaskSystem.mem_acts.mpr hmem)
    have hhandled := (handled_of_wrapperEnded h hls ht hphase).trans hend.symm
    rw [eq_isCancelled_of_isShutdown h hj]
    exact isCancelled_of_handled h t (List.mem_of_getElem? ht) outcome hhandled
      (failed_of_errOrPanic hfailure)
  · exact fun i a s' hl hharmless => (step_of_wired hw hl).isShutdown_of_harmless hw hharmless

/-- A plain task panics, and a critical one returns an error: every clone learns of it by the
end of the wrapper. -/
theorem token_law_criticalError :
    ∃ s, system.machine.Run [.main (.spawnCritical 0), .main (.clone 0), .main (.spawn 1),
        .act 0 .start, .act 1 .panic, .act 0 (.innerEnd (.ok (.error (.new .internal)))),
        .act 0 .resume, .act 0 .exit] s ∧
      ∀ j b, isShutdown s j = some b → b = true := by
  let s : State := ⟨⟨[root, root], [true], [⟨false, []⟩], []⟩,
    [⟨root, .exited (.ok (.error (.new .internal)))⟩, ⟨root, .ended⟩]⟩
  have hrun : system.machine.Run [.main (.spawnCritical 0), .main (.clone 0), .main (.spawn 1),
      .act 0 .start, .act 1 .panic, .act 0 (.innerEnd (.ok (.error (.new .internal)))),
      .act 0 .resume, .act 0 .exit] s := by decide +kernel
  obtain ⟨-, -, -, hfailure, -⟩ := token_law hrun (by decide)
  exact ⟨s, hrun, hfailure 0 (.ok (.error (.new .internal))) (by simp) rfl rfl⟩

end ShutdownController

end RustUtils
