import RustUtils.Concurrency.Supervised

/-!
# Shutting supervised services down

What `shutdown` and the supervisors under it do together. The supervisor never aborts its instance,
and leaves it to the controller to bound the time; the controller in turn cancels the token that
every supervisor reads. From then on a loop has at most six steps of its own to make, with at most
one more instance among them (`countP_turns_le`), and it makes them unless it waits for an instance
(`drives_or_joins`). So a pending `shutdown` waits for instances and for tasks that are no services,
and `Ok` means that no instance of a service runs any more, but for those that an abort has
detached (`supervised_shutdown_law`).
-/

namespace RustUtils

open Transition

namespace Supervised

variable {xs ys ls : List Label} {s s' m : State} {l : Label}

/-! ### The turns of one service -/

/-- What a move does to the loop of service `i`: nothing; or it is a new one; or it makes a step. -/
private theorem Step.loop_cases (hsound : ∀ k v, s.services k = some v → Sound s.ctl k v)
    (h : Step s l s') (i : ℕ) :
    ((s'.services i).map Service.loop = (s.services i).map Service.loop ∧ ∀ a, l ≠ .turn i a) ∨
    (s.services i = none ∧ (∀ a, l ≠ .turn i a) ∧
      ∃ v, s'.services i = some v ∧ v.loop.pc = .loopTop) ∨
    ∃ v a loop, l = .turn i a ∧ s.services i = some v ∧ a ≠ .cancel ∧
      v.policy.step (seen s v) a = some loop ∧ s'.services i = some { v with loop := loop } := by
  cases h with
  | main hctl | act hctl hnone => exact Or.inl ⟨rfl, by simp⟩
  | @host k a ctl v v' hctl hv hhosts =>
    have hloop : v'.loop = v.loop := by cases hhosts <;> rfl
    refine Or.inl ⟨?_, by simp⟩
    by_cases hi : i = k
    · subst hi
      simp [hv, hloop]
    · simp [Function.update_of_ne hi]
  | @supervise h policy controller ctl hcontroller hctl =>
    by_cases hi : i = s.ctl.tasks.length
    · subst hi
      refine Or.inr (Or.inl ⟨Option.eq_none_iff_forall_ne_some.mpr fun v hv => ?_, by simp, ?_⟩)
      · obtain ⟨-, ⟨phase, htask, -⟩, -⟩ := hsound _ v hv
        exact Nat.lt_irrefl _ (List.getElem?_eq_some_iff.mp htask).1
      · exact ⟨_, Function.update_self _ _ _, rfl⟩
    · exact Or.inl ⟨by simp [Function.update_of_ne hi], by simp⟩
  | @turn k a v loop hv halive ha hstep =>
    by_cases hi : i = k
    · subst hi
      exact Or.inr (Or.inr ⟨v, a, loop, rfl, hv, ha, hstep, Function.update_self _ _ _⟩)
    · exact Or.inl ⟨by simp [Function.update_of_ne hi], fun b heq => hi (Label.turn.inj heq).1.symm⟩
  | @orphanEnd k v hv horphaned =>
    refine Or.inl ⟨?_, by simp⟩
    by_cases hi : i = k
    · subst hi
      simp [hv]
    · simp [Function.update_of_ne hi]

/-- A step of the loop of service `i`, of this kind. -/
def isTurn (i : ℕ) (P : Supervisor.Label → Bool) : Label → Bool
  | .turn k a => k = i && P a
  | _ => false

/-- A number for where the loop of service `i` stands, and one for a service that is not there. -/
def rank (f : Supervisor.Pc → ℕ) (d i : ℕ) (s : State) : ℕ :=
  ((s.services i).map Service.loop).elim d fun loop => f loop.pc

/-- The token stays cancelled. -/
private theorem isCancelled_of_step (hrun : machine.Run xs m)
    (hc : m.ctl.shared.isCancelled 0 = true)
    (hl : step m l = some s) : s.ctl.shared.isCancelled 0 = true := by
  have hexec : machine.exec m [l] = some s := (machine.exec_cons_iff).mpr ⟨s, hl, rfl⟩
  exact ShutdownController.isCancelled_of_exec (run_toCtl hrun) (exec_toCtl hexec) hc

/-- **The turns of a service after the cancellation.** A number that no step of a cancelled loop
increases, and that the steps of one kind decrease, bounds how many of these a service makes. -/
theorem countP_turns_le {f : Supervisor.Pc → ℕ} {d : ℕ} {P : Supervisor.Label → Bool}
    (htop : f .loopTop ≤ d)
    (hturn : ∀ (p : Supervisor) zs r a r', p.machine.Run zs r → r.cancelled = true → a ≠ .cancel →
      p.step r a = some r' → f r'.pc + (if P a then 1 else 0) ≤ f r.pc)
    (hrun : machine.Run xs m) (hc : m.ctl.shared.isCancelled 0 = true)
    (hexec : machine.exec m ys = some s) (i : ℕ) :
    ys.countP (isTurn i P) + rank f d i s ≤ rank f d i m := by
  refine machine.exec_countP_add_le
    (I := fun s => ∃ xs, machine.Run xs s ∧ s.ctl.shared.isCancelled 0 = true) ?_ ⟨xs, hrun, hc⟩
    hexec
  rintro s l - s' ⟨zs, hrun, hc⟩ hl
  refine ⟨⟨_, hrun.snoc hl, isCancelled_of_step hrun hc hl⟩, ?_⟩
  have hsound := sound_of_run hrun
  have hquiet : (∀ a, l ≠ .turn i a) → isTurn i P l = false := fun hne => by
    cases l with
    | turn k a =>
      have hk : k ≠ i := fun heq => hne a (heq ▸ rfl)
      simp [isTurn, hk]
    | _ => rfl
  rcases (step_cases hl).loop_cases hsound i with ⟨hsame, hne⟩ | ⟨hnone, hne, v, hv, hpc⟩ |
    ⟨v, a, loop, rfl, hv, ha, hstep, hv'⟩
  · simp [rank, hsame, hquiet hne]
  · simpa [rank, hnone, hv, hpc, hquiet hne] using htop
  · obtain ⟨zs', hseen⟩ := (hsound i v hv).run_seen
    have hcancelled : (seen s v).cancelled = true := by
      rw [seen, (hsound i v hv).controller]
      exact hc
    have hle := hturn v.policy zs' (seen s v) a loop hseen hcancelled ha hstep
    simpa [rank, hv, hv', isTurn, seen] using hle

/-- The instances a service spawns. -/
def starts (i : ℕ) (ls : List Label) : ℕ :=
  ls.countP (isTurn i fun
    | .spawn _ => true
    | _ => false)

/-- The steps of the loop of a service. -/
def turns (i : ℕ) (ls : List Label) : ℕ := ls.countP (isTurn i fun _ => true)

/-- The steps a cancelled loop has still to make at most. -/
def turnsLeft : Supervisor.Pc → ℕ
  | .healthy _ _ => 6
  | .classify _ => 5
  | .record => 4
  | .budget | .spawn => 3
  | .backoff | .join _ => 2
  | .loopTop | .checkJoin _ _ | .sleeping _ => 1
  | .returned _ | .unwound _ => 0

/-- Every step of a cancelled loop is one less to make. -/
private theorem turnsLeft_lt {p : Supervisor} {zs : List Supervisor.Label} {r r' : Supervisor.State}
    {a : Supervisor.Label} (hrun : p.machine.Run zs r) (hc : r.cancelled = true) (ha : a ≠ .cancel)
    (h : p.step r a = some r') : turnsLeft r'.pc + 1 ≤ turnsLeft r.pc := by
  cases (p.step_iff).mp h with
  | cancel => exact absurd rfl ha
  | poll hpc hclock =>
    -- the `select!` polls the token first
    obtain ⟨deadline, rfl⟩ := p.sleeping_select hrun _ hpc
    simp [hpc, hc, Sleep.poll, Supervisor.afterPoll, turnsLeft]
  | @classify outcome hpc =>
    rcases p.classifyOutcome_cases outcome with hnext | ⟨result, hnext, -⟩ <;>
      simp [hpc, hnext, turnsLeft]
  | checkTop hpc | checkJoin hpc => simp [hpc, hc, turnsLeft]
  | budget hpc | backoff hpc =>
    simp only [hpc]
    split <;> simp [turnsLeft]
  | _ hpc => simp [hpc, turnsLeft]

private theorem turnsLeft_le (pc : Supervisor.Pc) :
    turnsLeft pc ≤ 6 := by cases pc <;> simp [turnsLeft]

private theorem aboutToSpawn_le (pc : Supervisor.Pc) : pc.aboutToSpawn ≤ 1 := by
  cases pc <;> simp [Supervisor.Pc.aboutToSpawn]

/-- After the cancellation a service makes at most six steps, and spawns at most one instance. -/
private theorem turns_le (hrun : machine.Run xs m) (hc : m.ctl.shared.isCancelled 0 = true)
    (hexec : machine.exec m ys = some s) (i : ℕ) : starts i ys ≤ 1 ∧ turns i ys ≤ 6 := by
  have hrank : ∀ {f : Supervisor.Pc → ℕ} {d n : ℕ}, d ≤ n → (∀ pc, f pc ≤ n) →
      rank f d i m ≤ n := by
    intro f d n hd hf
    rw [rank]
    cases (m.services i).map Service.loop with
    | none => exact hd
    | some loop => exact hf loop.pc
  constructor
  · have hstarts := countP_turns_le (f := Supervisor.Pc.aboutToSpawn) (d := 0) le_rfl
      (fun p zs r a r' _ hc _ hstep => by
        have hle := p.instances_step_le hc hstep
        rw [Supervisor.instances, List.countP_singleton] at hle
        rwa [Nat.add_comm]) hrun hc hexec i
    exact (Nat.le_of_add_right_le hstarts).trans (hrank (Nat.zero_le _) aboutToSpawn_le)
  · have hturns := countP_turns_le (f := turnsLeft) (d := 1) (P := fun _ => true) le_rfl
      (fun p zs r a r' hrun hc ha hstep => turnsLeft_lt hrun hc ha hstep) hrun hc hexec i
    exact (Nat.le_of_add_right_le hturns).trans (hrank (by decide) turnsLeft_le)

/-! ### What keeps a service from ending -/

/-- A move that service `i` makes by itself: a step of its loop other than the end of the instance
it awaits, or the end of its task. -/
def Label.drives (i : ℕ) : Label → Bool
  | .turn _ (.join _) => false
  | .turn k _ => k = i
  | .ctl (.act k .finish) | .ctl (.act k .panic) => k = i
  | _ => false

/-- A loop that is not over and awaits no instance has a step to make. -/
private theorem exists_turn (p : Supervisor) (r : Supervisor.State) (hover : r.pc.isOver = false)
    (hjoins : r.pc.isJoining = false) :
    ∃ a r', a ≠ .cancel ∧ (∀ i, Label.drives i (.turn i a) = true) ∧ p.step r a = some r' := by
  cases hpc : r.pc with
  | loopTop =>
    exact ⟨.checkTop, _, by simp, by simp [Label.drives], (p.step_iff).mpr (.checkTop hpc)⟩
  | spawn =>
    exact ⟨.spawn r.clock, _, by simp, by simp [Label.drives], (p.step_iff).mpr (.spawn hpc le_rfl)⟩
  | join startedAt => simp [hpc, Supervisor.Pc.isJoining] at hjoins
  | checkJoin startedAt outcome =>
    exact ⟨.checkJoin, _, by simp, by simp [Label.drives], (p.step_iff).mpr (.checkJoin hpc)⟩
  | healthy startedAt outcome =>
    exact ⟨.healthy r.clock, _, by simp, by simp [Label.drives],
      (p.step_iff).mpr (.healthy hpc le_rfl)⟩
  | classify outcome =>
    exact ⟨.classify, _, by simp, by simp [Label.drives], (p.step_iff).mpr (.classify hpc)⟩
  | record =>
    exact ⟨.record r.clock, _, by simp, by simp [Label.drives],
      (p.step_iff).mpr (.record hpc le_rfl)⟩
  | budget => exact ⟨.budget, _, by simp, by simp [Label.drives], (p.step_iff).mpr (.budget hpc)⟩
  | backoff =>
    exact ⟨.backoff r.clock 0, _, by simp, by simp [Label.drives],
      (p.step_iff).mpr (.backoff hpc le_rfl)⟩
  | sleeping sleep =>
    exact ⟨.poll r.clock, _, by simp, by simp [Label.drives], (p.step_iff).mpr (.poll hpc le_rfl)⟩
  | returned result | unwound msg => simp [hpc, Supervisor.Pc.isOver] at hover

/-- A tracked service goes on by itself, unless its instance runs. -/
private theorem drives_or_joins (hrun : machine.Run ls s) {i : ℕ} {v : Service}
    (hv : s.services i = some v) (htracked : ShutdownController.isTracked s.ctl i = true) :
    v.instanceRuns = true ∨ ∃ l s', Label.drives i l = true ∧ step s l = some s' := by
  obtain ⟨phase, htask, hfits⟩ := (sound_of_run hrun i v hv).hosted
  rw [ShutdownController.isTracked, Config.look_of_getElem? htask] at htracked
  cases hfits with
  | ended hover => contradiction
  | running halive =>
    -- the task ends where the loop is over
    have hends : ∀ a v', v.host a = some v' →
        ShutdownController.transition a .running = some (.untrack, .ended) →
        ∃ s', step s (.ctl (.act i a)) = some s' := by
      intro a v' hhost htransition
      have hctl : ShutdownController.system.machine.step s.ctl (.act i a) =
          some ⟨s.ctl.shared.untrack 0 i, s.ctl.tasks.set i ⟨ShutdownController.root, .ended⟩⟩ :=
        (ShutdownController.system.step_iff).mpr
          (.act htask (Option.map_eq_some_iff.mpr ⟨_, htransition, rfl⟩))
      simp [step, servicesAfter, hctl, hv, hhost]
    cases hjoins : v.loop.pc.isJoining with
    | true => exact Or.inl (by rw [Service.instanceRuns, halive]; exact hjoins)
    | false =>
      refine Or.inr ?_
      cases hover : v.loop.pc.isOver with
      | false =>
        obtain ⟨a, loop, ha, hdrives, hstep⟩ := exists_turn v.policy (seen s v) hover hjoins
        exact ⟨.turn i a, _, hdrives i, by simp [step, hv, halive, ha, hstep]; rfl⟩
      | true =>
        cases hpc : v.loop.pc with
        | returned result =>
          obtain ⟨s', hs'⟩ := hends .finish v (by simp [Service.host, hpc]) rfl
          exact ⟨_, s', by simp [Label.drives], hs'⟩
        | unwound msg =>
          obtain ⟨s', hs'⟩ := hends .panic v (by simp [Service.host, hpc]) rfl
          exact ⟨_, s', by simp [Label.drives], hs'⟩
        | _ => simp [hpc, Supervisor.Pc.isOver] at hover

/-- A wait that has not resolved is held up by a tracked task. -/
private theorem exists_tracked (h : machine.Run ls s) {k : ℕ}
    (hk : s.ctl.shared.callPhase k = some (.waiting false)) :
    ∃ i, ShutdownController.isTracked s.ctl i = true := by
  have hctl := run_toCtl h
  by_contra hno
  have hentered := (ShutdownController.entered_iff hctl k).mp (by rw [hk]; rfl)
  have hsince : ShutdownController.DrainedSince k (ls.filterMap Label.toCtl) :=
    ⟨_, [], s.ctl, (List.append_nil _).symm, hctl, hentered,
      fun i => Bool.eq_false_iff.mpr fun hi => hno ⟨i, hi⟩⟩
  exact Bool.false_ne_true ((ShutdownController.resolved_iff hctl hk).mpr hsince)

/-! ### The law -/

/-- A service whose task is not tracked runs no instance, but for one that an abort has detached. -/
private theorem instanceRuns_iff (hrun : machine.Run ls s) {i : ℕ} {v : Service}
    (hv : s.services i = some v) (hnone : ShutdownController.isTracked s.ctl i = false) :
    v.instanceRuns = true ↔ v.future = .dropped true := by
  obtain ⟨phase, htask, hfits⟩ := (sound_of_run hrun i v hv).hosted
  rw [ShutdownController.isTracked, Config.look_of_getElem? htask] at hnone
  cases hfits with
  | running halive => contradiction
  | ended hover =>
    rw [Service.instanceRuns]
    cases hfuture : v.future with
    | dropped orphaned => simp
    | alive =>
      have hover := hover.resolve_left (not_not.mpr hfuture)
      have hjoins : v.loop.pc.isJoining = false := by
        cases hpc : v.loop.pc <;> first | rfl | simp [hpc, Supervisor.Pc.isOver] at hover
      simp [hjoins]

/-- **Shutting supervised services down**, for any number of services and other tasks and every
interleaving. From any moment at which the token is cancelled, be it by `shutdown`, by `trigger`, by
a signal or by a critical task that fails, every service spawns at most one more instance and makes
at most six steps. When a call of `shutdown` has returned `Ok`, no instance runs any more of a
service that was there at a moment before its wait resolved, except where the task of the service
was aborted while it awaited the instance. And as long as the call waits, it waits for a task that
is no service, for an instance, or for a service that can make one of its steps now. -/
theorem supervised_shutdown_law (hbefore : machine.Run xs m) (hexec : machine.exec m ys = some s) :
    (m.ctl.shared.isCancelled 0 = true → ∀ i, starts i ys ≤ 1 ∧ turns i ys ≤ 6) ∧
    (∀ k, ShutdownController.passed m.ctl k = false → ShutdownController.Returned s.ctl k (.ok ()) →
      ∀ i v, (m.services i).isSome = true → s.services i = some v →
        (v.instanceRuns = true ↔ v.future = .dropped true)) ∧
    (∀ k, s.ctl.shared.callPhase k = some (.waiting false) →
      ∃ i, ShutdownController.isTracked s.ctl i = true ∧
        ∀ v, s.services i = some v →
          v.instanceRuns = true ∨ ∃ l s', Label.drives i l = true ∧ step s l = some s') := by
  have hrun := hbefore.append hexec
  refine ⟨fun hc => turns_le hbefore hc hexec, fun k hfresh hok i v hi hv => ?_, fun k hk => ?_⟩
  · -- the call has passed its wait, so the tasks from before it are not tracked
    have hpassed : ShutdownController.passed s.ctl k = true := by
      rw [ShutdownController.passed, hok]
      rfl
    obtain ⟨v₀, hv₀⟩ := Option.isSome_iff_exists.mp hi
    obtain ⟨phase, htask, -⟩ := (sound_of_run hbefore i v₀ hv₀).hosted
    exact instanceRuns_iff hrun hv (ShutdownController.untracked_of_passed (run_toCtl hbefore)
      hfresh (exec_toCtl hexec) hpassed i (List.getElem?_eq_some_iff.mp htask).1)
  · obtain ⟨i, htracked⟩ := exists_tracked hrun hk
    exact ⟨i, htracked, fun v hv => drives_or_joins hrun hv htracked⟩

/-- Two services whose instances run. -/
def twoServices : List Label :=
  [.supervise 0 .new, .supervise 0 .new, .turn 0 .checkTop, .turn 0 (.spawn 1), .turn 1 .checkTop,
    .turn 1 (.spawn 2)]

/-- While a call of `shutdown` waits, one of them fails, and the other one's task is aborted. -/
def failAndAbort : List Label :=
  [.ctl (.main (.shutdown 0 .zero)), .ctl (.main (.close 0)), .ctl (.main (.wait 0)),
    .ctl (.act 1 .abort), .turn 0 (.join (.error ⟨true, "boom"⟩)), .turn 0 .checkJoin,
    .ctl (.act 0 .finish), .ctl (.main (.finish 0))]

theorem supervised_shutdown_law_twoServices :
    ∃ m s, machine.Run twoServices m ∧ machine.exec m failAndAbort = some s ∧
      ShutdownController.Returned s.ctl 0 (.ok ()) ∧
      (∀ v, s.services 0 = some v → v.instanceRuns = false) ∧
      ∀ v, s.services 1 = some v → v.instanceRuns = true := by
  obtain ⟨m, hbefore, hfresh, h₀, h₁, s, hexec, hok, halive, horphaned⟩ :
      ∃ m, machine.Run twoServices m ∧ ShutdownController.passed m.ctl 0 = false ∧
        (m.services 0).isSome = true ∧ (m.services 1).isSome = true ∧
        ∃ s, machine.exec m failAndAbort = some s ∧
          ShutdownController.Returned s.ctl 0 (.ok ()) ∧
          (s.services 0).map Service.future = some .alive ∧
          (s.services 1).map Service.future = some (.dropped true) :=
    ⟨_, rfl, rfl, rfl, rfl, _, rfl, rfl, rfl, rfl⟩
  have hdrained := (supervised_shutdown_law hbefore hexec).2.1 0 hfresh hok
  refine ⟨m, s, hbefore, hexec, hok, fun v hv => ?_, fun v hv => ?_⟩
  · have hfuture : v.future = .alive := by simpa [hv] using halive
    refine Bool.eq_false_iff.mpr fun hruns => ?_
    rw [(hdrained 0 v h₀ hv).mp hruns] at hfuture
    contradiction
  · exact (hdrained 1 v h₁ hv).mpr (by simpa [hv] using horphaned)

end Supervised

end RustUtils
