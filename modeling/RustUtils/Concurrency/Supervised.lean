import RustUtils.Concurrency.ShutdownDrain
import RustUtils.Concurrency.ShutdownToken
import RustUtils.Concurrency.SupervisorCancellation

/-!
# Supervised services under a `ShutdownController`

A service is a task of the controller whose future awaits `Supervisor::run` with the token of the
controller and drops the result. The state puts the loops of the services beside the controller: a
turn of a loop reads the token of the controller where `Supervisor.step` reads its own, the future
of the task completes when its loop has returned, and an abort of the task drops the loop. The
instance that the loop was awaiting then is not aborted with it, and runs on detached.

Without the turns a run is one of the controller (`run_toCtl`), and every loop has made a run of
its own (`sound_of_run`), so the invariants of both carry over.
-/

namespace RustUtils

open Transition

/-- An instance is spawned and has not ended. -/
def Supervisor.Pc.isJoining : Supervisor.Pc → Bool
  | .join _ => true
  | _ => false

/-- `run` has returned, or unwound with its caller's `factory`. -/
def Supervisor.Pc.isOver : Supervisor.Pc → Bool
  | .returned _ | .unwound _ => true
  | _ => false

/-- What has become of the future that awaits `Supervisor::run`. -/
inductive Service.Future where
  /-- It has not been dropped. -/
  | alive
  /-- Its task was aborted; the instance it awaited may still run. -/
  | dropped (orphaned : Bool)
  deriving DecidableEq

/-- A task that runs `Supervisor::run` with the token of a controller. -/
structure Service where
  policy : Supervisor
  controller : ShutdownController
  loop : Supervisor.State
  future : Service.Future

namespace Service

/-- An instance of the service runs. -/
def instanceRuns (v : Service) : Bool :=
  match v.future with
  | .alive => v.loop.pc.isJoining
  | .dropped orphaned => orphaned

/-- What a step of its task does to a service, where that is possible. -/
def host (v : Service) : ShutdownController.Act → Option Service
  | .finish => match v.loop.pc with
    | .returned _ => some v
    | _ => none
  | .panic => match v.loop.pc with
    | .unwound _ => some v
    | _ => none
  | .abort => some { v with future := .dropped (v.loop.pc.isJoining) }
  | _ => none

end Service

namespace Supervised

/-- A controller and the services among its tasks, by the number of the task. -/
structure State where
  ctl : ShutdownController.State
  services : ℕ → Option Service

/-- A move of the controller or of a service. -/
inductive Label where
  | ctl (l : ShutdownController.Label)
  /-- A task that runs a supervisor with the token of clone `h` is passed to `spawn` on `h`. -/
  | supervise (h : ℕ) (policy : Supervisor)
  /-- The loop of the service that task `i` runs makes a step. -/
  | turn (i : ℕ) (l : Supervisor.Label)
  /-- The instance that an aborted service has left behind ends. -/
  | orphanEnd (i : ℕ)

/-- What a loop sees: its own variables, and the token of the controller. -/
def seen (s : State) (v : Service) : Supervisor.State :=
  { v.loop with cancelled := s.ctl.shared.isCancelled v.controller.token }

/-- The services after a move of the controller, where it is possible. -/
def servicesAfter (s : State) : ShutdownController.Label → Option (ℕ → Option Service)
  | .main _ => some s.services
  | .act i a =>
    match s.services i with
    | none => some s.services
    | some v => (v.host a).map fun v' => Function.update s.services i (some v')

/-- One move. -/
def step (s : State) : Label → Option State
  | .ctl l =>
    (ShutdownController.system.machine.step s.ctl l).bind fun ctl =>
      (servicesAfter s l).map fun services => ⟨ctl, services⟩
  | .supervise h policy =>
    (s.ctl.shared.controllers[h]?).bind fun controller =>
      (ShutdownController.system.machine.step s.ctl (.main (.spawn h))).map fun ctl =>
        ⟨ctl, Function.update s.services s.ctl.tasks.length
          (some ⟨policy, controller, policy.machine.init, .alive⟩)⟩
  | .turn i l =>
    match s.services i with
    | none => none
    | some v =>
      -- The token is cancelled by the controller only.
      if v.future = .alive ∧ l ≠ .cancel then
        (v.policy.step (seen s v) l).map fun loop =>
          { s with services := Function.update s.services i (some { v with loop := loop }) }
      else none
  | .orphanEnd i =>
    match s.services i with
    | none => none
    | some v =>
      if v.future = .dropped true then
        some { s with
          services := Function.update s.services i (some { v with future := .dropped false }) }
      else none

/-- A new controller, and no services yet. -/
def machine : Machine State Label where
  init := ⟨ShutdownController.system.machine.init, fun _ => none⟩
  step := step

/-! ### Inversion of the moves -/

/-- What a step of its task can do to a service. -/
inductive Hosts (v : Service) : ShutdownController.Act → Service → Prop
  | finish {result : UtilsResult Unit} (hpc : v.loop.pc = .returned result) : Hosts v .finish v
  | panic {msg : String} (hpc : v.loop.pc = .unwound msg) : Hosts v .panic v
  | abort : Hosts v .abort { v with future := .dropped (v.loop.pc.isJoining) }

private theorem hosts_of_host {v v' : Service} {a : ShutdownController.Act}
    (h : v.host a = some v') :
    Hosts v a v' := by
  cases a with
  | finish | panic =>
    simp only [Service.host] at h
    split at h
    · next hpc =>
      obtain rfl := Option.some_inj.mp h
      first | exact .finish hpc | exact .panic hpc
    · contradiction
  | abort =>
    obtain rfl := Option.some_inj.mp h
    exact .abort
  | _ => contradiction

/-- What one move can do. -/
inductive Step (s : State) : Label → State → Prop
  | main {g : ShutdownController.Move} {ctl : ShutdownController.State}
      (hctl : ShutdownController.system.machine.step s.ctl (.main g) = some ctl) :
      Step s (.ctl (.main g)) ⟨ctl, s.services⟩
  | act {i : ℕ} {a : ShutdownController.Act} {ctl : ShutdownController.State}
      (hctl : ShutdownController.system.machine.step s.ctl (.act i a) = some ctl)
      (hnone : s.services i = none) : Step s (.ctl (.act i a)) ⟨ctl, s.services⟩
  | host {i : ℕ} {a : ShutdownController.Act} {ctl : ShutdownController.State} {v v' : Service}
      (hctl : ShutdownController.system.machine.step s.ctl (.act i a) = some ctl)
      (hv : s.services i = some v) (hhosts : Hosts v a v') :
      Step s (.ctl (.act i a)) ⟨ctl, Function.update s.services i (some v')⟩
  | supervise {h : ℕ} {policy : Supervisor} {controller : ShutdownController}
      {ctl : ShutdownController.State}
      (hcontroller : s.ctl.shared.controllers[h]? = some controller)
      (hctl : ShutdownController.system.machine.step s.ctl (.main (.spawn h)) = some ctl) :
      Step s (.supervise h policy) ⟨ctl, Function.update s.services s.ctl.tasks.length
        (some ⟨policy, controller, policy.machine.init, .alive⟩)⟩
  | turn {i : ℕ} {l : Supervisor.Label} {v : Service} {loop : Supervisor.State}
      (hv : s.services i = some v) (halive : v.future = .alive) (hl : l ≠ .cancel)
      (hstep : v.policy.step (seen s v) l = some loop) :
      Step s (.turn i l)
        { s with services := Function.update s.services i (some { v with loop := loop }) }
  | orphanEnd {i : ℕ} {v : Service} (hv : s.services i = some v)
      (horphaned : v.future = .dropped true) :
      Step s (.orphanEnd i)
        { s with
          services := Function.update s.services i (some { v with future := .dropped false }) }

variable {s s' : State} {l : Label}

theorem step_cases (h : step s l = some s') : Step s l s' := by
  cases l with
  | ctl l =>
    obtain ⟨ctl, hctl, h⟩ := Option.bind_eq_some_iff.mp h
    obtain ⟨services, hservices, rfl⟩ := Option.map_eq_some_iff.mp h
    cases l with
    | main g =>
      obtain rfl := Option.some_inj.mp hservices
      exact .main hctl
    | act i a =>
      simp only [servicesAfter] at hservices
      split at hservices
      · next hnone =>
        obtain rfl := Option.some_inj.mp hservices
        exact .act hctl hnone
      · next hv =>
        obtain ⟨v', hhost, rfl⟩ := Option.map_eq_some_iff.mp hservices
        exact .host hctl hv (hosts_of_host hhost)
  | supervise h policy =>
    obtain ⟨controller, hcontroller, h⟩ := Option.bind_eq_some_iff.mp h
    obtain ⟨ctl, hctl, rfl⟩ := Option.map_eq_some_iff.mp h
    exact .supervise hcontroller hctl
  | turn i l =>
    simp only [step] at h
    split at h
    · contradiction
    · next hv =>
      obtain ⟨⟨halive, hl⟩, h⟩ := Option.ite_none_right_eq_some.mp h
      obtain ⟨loop, hstep, rfl⟩ := Option.map_eq_some_iff.mp h
      exact .turn hv halive hl hstep
  | orphanEnd i =>
    simp only [step] at h
    split at h
    · contradiction
    · next hv =>
      obtain ⟨horphaned, h⟩ := Option.ite_none_right_eq_some.mp h
      obtain rfl := Option.some_inj.mp h
      exact .orphanEnd hv horphaned

/-! ### The controller within a run -/

/-- The move of the controller, if it is one. -/
def Label.toCtl : Label → Option ShutdownController.Label
  | .ctl l => some l
  | .supervise h _ => some (.main (.spawn h))
  | _ => none

/-- **The controller within an execution**: it makes its moves, and does not notice the turns of
the loops. -/
theorem exec_toCtl {ys : List Label} (h : machine.exec s ys = some s') :
    ShutdownController.system.machine.exec s.ctl (ys.filterMap Label.toCtl) = some s'.ctl := by
  obtain ⟨ctl, hexec, rfl⟩ := machine.exec_filterMap (N := ShutdownController.system.machine)
    (R := fun s ctl => s.ctl = ctl) (g := Label.toCtl) (fun s ctl l s' hR hl => by
      subst hR
      cases step_cases hl with
      | main hctl | act hctl | host hctl | supervise hcontroller hctl => exact ⟨_, hctl, rfl⟩
      | turn | orphanEnd => rfl) rfl h
  exact hexec

variable {ls : List Label}

/-- The moves of the controller are a run of it. -/
theorem run_toCtl (h : machine.Run ls s) :
    ShutdownController.system.machine.Run (ls.filterMap Label.toCtl) s.ctl := exec_toCtl h

/-! ### The services within a run -/

/-- The phase of the task that runs a service fits the service. -/
inductive Fits (v : Service) : ShutdownController.Phase → Prop
  | running (halive : v.future = .alive) : Fits v .running
  | ended (hover : v.future ≠ .alive ∨ v.loop.pc.isOver = true) : Fits v .ended

/-- What holds of a service beside its controller. -/
structure Sound (ctl : ShutdownController.State) (i : ℕ) (v : Service) : Prop where
  controller : v.controller = ShutdownController.root
  hosted : ∃ phase, ctl.tasks[i]? = some ⟨ShutdownController.root, phase⟩ ∧ Fits v phase
  /-- The loop has not seen a cancellation that did not take place. -/
  cancelled : v.loop.cancelled = true → ctl.shared.isCancelled 0 = true
  /-- The loop is where a run of its own has taken it. -/
  looped : ∃ ls, v.policy.machine.Run ls v.loop

/-- What holds of the services and of one that is updated holds of the services then. -/
private theorem forall_update {services : ℕ → Option Service} {P : ℕ → Service → Prop}
    (h : ∀ i v, services i = some v → P i v) {k : ℕ} {v : Service} (hk : P k v) :
    ∀ i v', Function.update services k (some v) i = some v' → P i v' := by
  intro i v' hv'
  by_cases hi : i = k
  · subst hi
    rw [Function.update_self] at hv'
    exact Option.some_inj.mp hv' ▸ hk
  · rw [Function.update_of_ne hi] at hv'
    exact h i v' hv'

/-- The loop changes its token in no other step. -/
private theorem cancelled_of_ne {p : Supervisor} {r r' : Supervisor.State} {a : Supervisor.Label}
    (h : p.step r a = some r') (ha : a ≠ .cancel) : r'.cancelled = r.cancelled := by
  cases (p.step_iff).mp h with
  | cancel => exact absurd rfl ha
  | _ => rfl

/-- A loop that is over makes no step. -/
private theorem not_over_of_step {p : Supervisor} {r r' : Supervisor.State} {a : Supervisor.Label}
    (h : p.step r a = some r') (ha : a ≠ .cancel) : r.pc.isOver = false := by
  cases (p.step_iff).mp h with
  | cancel => exact absurd rfl ha
  | _ hpc => rw [hpc]; rfl

/-- The loop sees what a run of its own can show it. -/
theorem Sound.run_seen {i : ℕ} {v : Service} (h : Sound s.ctl i v) :
    ∃ ls, v.policy.machine.Run ls (seen s v) := by
  obtain ⟨ls, hls⟩ := h.looped
  rw [seen, h.controller]
  cases hc : s.ctl.shared.isCancelled ShutdownController.root.token with
  | true => exact ⟨ls ++ [.cancel], hls.snoc ((v.policy.step_iff).mpr .cancel)⟩
  | false =>
    have hnot : v.loop.cancelled = false := Bool.eq_false_iff.mpr fun hseen =>
      Bool.false_ne_true (hc.symm.trans (h.cancelled hseen))
    exact ⟨ls, hnot ▸ hls⟩

section

variable {ctl ctl' : ShutdownController.State} {k : ℕ} {v : Service}

/-- A move of the controller that is not a step of its task leaves a service alone. -/
private theorem Sound.frame (h : Sound ctl k v) {l : ShutdownController.Label}
    (hw : ShutdownController.Wired ctl)
    (hl : ShutdownController.system.machine.step ctl l = some ctl')
    (hother : ∀ a, l ≠ .act k a) : Sound ctl' k v := by
  obtain ⟨phase, htask, hfits⟩ := h.hosted
  have hstep := ShutdownController.step_of_wired hw hl
  refine { h with
    hosted := ⟨phase, ?_, hfits⟩
    cancelled := fun hc => (hstep.isCancelled_iff hw).mpr (Or.inl (h.cancelled hc)) }
  cases hstep with
  | main hcalls =>
    exact (List.getElem?_append_left (List.getElem?_eq_some_iff.mp htask).1).trans htask
  | @act i a p p' e hi htransits =>
    have hne : i ≠ k := fun heq => hother a (heq ▸ rfl)
    exact (List.getElem?_set_ne hne).trans htask

/-- A step of its task ends the task of a service. -/
private theorem Sound.host (h : Sound ctl k v) {a : ShutdownController.Act} {v' : Service}
    (hw : ShutdownController.Wired ctl)
    (hl : ShutdownController.system.machine.step ctl (.act k a) = some ctl')
    (hhosts : Hosts v a v') : Sound ctl' k v' := by
  obtain ⟨phase, htask, hfits⟩ := h.hosted
  have hstep := ShutdownController.step_of_wired hw hl
  have hcancelled : v.loop.cancelled = true → ctl'.shared.isCancelled 0 = true :=
    fun hc => (hstep.isCancelled_iff hw).mpr (Or.inl (h.cancelled hc))
  cases hstep with
  | @act i a p p' e hi htransits =>
    obtain rfl : p = phase := congrArg ShutdownController.Task.phase
      (Option.some_inj.mp (hi.symm.trans htask))
    have hset := List.getElem?_set_self (a := (⟨ShutdownController.root, p'⟩ :
      ShutdownController.Task)) (List.getElem?_eq_some_iff.mp htask).1
    cases hfits with
    | ended hover => cases htransits
    | running halive =>
      cases hhosts with
      | finish hpc =>
        cases htransits
        exact ⟨h.controller, ⟨_, hset, .ended (Or.inr (by rw [hpc]; rfl))⟩, hcancelled, h.looped⟩
      | panic hpc =>
        cases htransits
        exact ⟨h.controller, ⟨_, hset, .ended (Or.inr (by rw [hpc]; rfl))⟩, hcancelled, h.looped⟩
      | abort =>
        cases htransits
        exact ⟨h.controller, ⟨_, hset, .ended (Or.inl (by simp))⟩, hcancelled, h.looped⟩

end

/-- **The services of a run.** -/
theorem sound_of_run (h : machine.Run ls s) : ∀ i v, s.services i = some v → Sound s.ctl i v := by
  refine h.induct (I := fun _ s => ∀ i v, s.services i = some v → Sound s.ctl i v) ?_ ?_
  · exact fun i v hv => by simp [machine] at hv
  intro ls l s s' hrun ih hl
  have hw := ShutdownController.wired_of_run (run_toCtl hrun)
  cases step_cases hl with
  | main hctl => exact fun k v hv => (ih k v hv).frame hw hctl (by simp)
  | @act i a ctl hctl hnone =>
    refine fun k v hv => (ih k v hv).frame hw hctl ?_
    rintro b ⟨⟩
    simp [hnone] at hv
  | @host i a ctl v v' hctl hv hhosts =>
    intro k u hu
    by_cases hk : k = i
    · subst hk
      obtain rfl : v' = u := by simpa using hu
      exact (ih k v hv).host hw hctl hhosts
    · refine (ih k u (by simpa [hk] using hu)).frame hw hctl ?_
      rintro b ⟨⟩
      exact hk rfl
  | @supervise h policy controller ctl hcontroller hctl =>
    obtain rfl := hw.shared.controllers _ (List.mem_of_getElem? hcontroller)
    refine forall_update (fun k v hv => (ih k v hv).frame hw hctl (by simp)) ?_
    refine ⟨rfl, ⟨.running, ?_, .running rfl⟩, nofun, ⟨[], rfl⟩⟩
    cases ShutdownController.step_of_wired hw hctl with
    | main hcalls =>
      cases hcalls with
      | spawn hg =>
        cases hg
        exact List.getElem?_concat_length
  | @turn i a v loop hv halive ha hstep =>
    refine forall_update ih ?_
    have hsound := ih i v hv
    obtain ⟨phase, htask, hfits⟩ := hsound.hosted
    refine ⟨hsound.controller, ⟨phase, htask, ?_⟩, fun hc => ?_, ?_⟩
    · cases hfits with
      | running _ => exact .running halive
      | ended hover =>
        have hover : v.loop.pc.isOver = true := hover.resolve_left (not_not.mpr halive)
        have hnot := not_over_of_step hstep ha
        rw [seen] at hnot
        simp [hover] at hnot
    · rw [cancelled_of_ne hstep ha, seen, hsound.controller] at hc
      exact hc
    · obtain ⟨zs, hzs⟩ := hsound.run_seen
      exact ⟨zs ++ [a], hzs.snoc hstep⟩
  | @orphanEnd i v hv horphaned =>
    refine forall_update ih ?_
    have hsound := ih i v hv
    obtain ⟨phase, htask, hfits⟩ := hsound.hosted
    refine { hsound with hosted := ⟨phase, htask, ?_⟩ }
    cases hfits with
    | running halive => simp [halive] at horphaned
    | ended hover => exact .ended (Or.inl (by simp))

end Supervised

end RustUtils
