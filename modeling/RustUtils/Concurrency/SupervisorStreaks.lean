import RustUtils.BackoffCurve
import RustUtils.Concurrency.Supervisor

/-!
# The backoff of `Supervisor::run` follows crash streaks

`ranFors` lists how long the instances ran whose exit is worth a restart, and `sleeps` the sleeps
of a run. `streak` is what the counter of the loop stands for: the number of exits since the
latest instance that outlived the backoff cap. The loop resets the counter before it matches on the
outcome and increments it after the budget check, so between these two statements the counter
lags behind (`Lagging`), and everywhere else it is the streak, up to the saturation of the `u32`
(`Settled`). The delay is the same above the saturation, so every sleep is the delay of its streak
(`backoff_follows_streaks`).
-/

namespace RustUtils

open Transition

/-! ### Streaks -/

/-- The number of exits from the latest one on whose instance ran for at least `cap`, with this one,
or from the first one on if there is none. -/
def streak (cap : ℕ) (ran : List ℕ) : ℕ :=
  match ran.reverse.findIdx? fun d => cap ≤ d with
  | some i => i + 1
  | none => ran.length

@[simp]
theorem streak_nil (cap : ℕ) : streak cap [] = 0 := rfl

/-- An instance that outlived the cap starts a new streak, and any other one continues it. -/
theorem streak_snoc (cap : ℕ) (ran : List ℕ) (d : ℕ) :
    streak cap (ran ++ [d]) = if cap ≤ d then 1 else streak cap ran + 1 := by
  simp only [streak, List.reverse_append, List.reverse_cons, List.reverse_nil, List.nil_append,
    List.singleton_append, List.findIdx?_cons]
  by_cases hd : cap ≤ d
  · simp [hd]
  · cases ran.reverse.findIdx? fun d => cap ≤ d <;> simp [hd]

/-- Short-lived instances lengthen a streak by their number. -/
private theorem streak_append (cap : ℕ) (ran : List ℕ) {short : List ℕ} (h : ∀ d ∈ short, d < cap) :
    streak cap (ran ++ short) = streak cap ran + short.length := by
  induction short using List.reverseRecOn with
  | nil => rw [List.append_nil, List.length_nil, Nat.add_zero]
  | append_singleton short d ih =>
    have hd : ¬cap ≤ d := Nat.not_le.mpr (h d (by simp))
    rw [← List.append_assoc, streak_snoc, if_neg hd, ih fun d hd => h d (by simp [hd]),
      List.length_append, List.length_singleton, Nat.add_assoc]

example : streak 10 [3, 12, 4, 5] = 3 := by decide

namespace Supervisor

variable (p : Supervisor)

/-! ### What a run shows -/

/-- How long the instance ran, where the loop has just read it and the exit is worth a restart. -/
def ranForOf (s : State) : Label → List ℕ
  | .healthy now => match s.pc with
    | .healthy startedAt outcome =>
      if p.classifyOutcome outcome = .record then [durationSince now startedAt] else []
    | _ => []
  | _ => []

/-- How long the loop at this statement sleeps from `now` on. -/
def Pc.sleepFrom (now : ℕ) : Pc → ℕ
  | .sleeping (.timer deadline) => deadline - now
  | .sleeping (.select _ deadline) => deadline - now
  | _ => 0

/-- The sleep that a backoff starts. -/
def sleepOf (s : State) : Label → List ℕ
  | .backoff now wall => (p.step s (.backoff now wall)).toList.map (·.pc.sleepFrom now)
  | _ => []

/-- How long the instances of a run ran whose exit was worth a restart. -/
def ranFors (ls : List Label) : List ℕ := p.machine.observe p.ranForOf p.machine.init ls

/-- The sleeps of a run. -/
def sleeps (ls : List Label) : List ℕ := p.machine.observe p.sleepOf p.machine.init ls

theorem ranFors_snoc {ls : List Label} {s : State} (h : p.machine.Run ls s) (l : Label) :
    p.ranFors (ls ++ [l]) = p.ranFors ls ++ p.ranForOf s l := p.machine.observe_snoc _ h

theorem sleeps_snoc {ls : List Label} {s : State} (h : p.machine.Run ls s) (l : Label) :
    p.sleeps (ls ++ [l]) = p.sleeps ls ++ p.sleepOf s l := p.machine.observe_snoc _ h

/-! ### The reference -/

/-- The sleep after exits that ran for `ran`. -/
def streakDelay (ran : List ℕ) : ℕ :=
  (cappedDelay p.baseBackoff p.maxBackoff (streak p.maxBackoff.toNanos ran)).toNanos

/-- The sleeps after each of the exits. -/
def streakDelays (ran : List ℕ) : List ℕ :=
  (List.range ran.length).map fun k => p.streakDelay (ran.take (k + 1))

/-- One more exit adds the delay of its streak. -/
private theorem streakDelays_snoc (ran : List ℕ) (d : ℕ) :
    p.streakDelays (ran ++ [d]) = p.streakDelays ran ++ [p.streakDelay (ran ++ [d])] := by
  have hearlier : ∀ k ∈ List.range ran.length,
      p.streakDelay ((ran ++ [d]).take (k + 1)) = p.streakDelay (ran.take (k + 1)) := by
    intro k hk
    rw [List.take_append_of_le_length (List.mem_range.mp hk)]
  have hlength : (ran ++ [d]).length = ran.length + 1 := List.length_append
  rw [streakDelays, hlength, List.range_succ, List.map_append, List.map_congr_left hearlier,
    List.map_singleton, ← hlength, List.take_length, streakDelays]

/-- The saturation of the counter does not show in the delay. -/
private theorem cappedDelay_saturated (base cap : Duration) (c : ℕ) :
    cappedDelay base cap (min c (2 ^ 32 - 1)) = cappedDelay base cap c := by
  refine Duration.toNanos_injective ?_
  rw [toNanos_cappedDelay, toNanos_cappedDelay]
  by_cases hc : c ≤ 2 ^ 32 - 1
  · rw [Nat.min_eq_left hc]
  · rw [Nat.min_eq_right (Nat.le_of_not_le hc), (saturated_of_lt (show 32 < 2 ^ 32 - 1 by omega)).1,
      (saturated_of_lt (show 32 < c by omega)).1]

/-! ### The counter along a run -/

/-- Every exit has had its sleep, and the counter is the streak. -/
structure Settled (ran sleeps : List ℕ) (consecutive : ℕ) : Prop where
  sleeps : sleeps = p.streakDelays ran
  consecutive : consecutive = min (streak p.maxBackoff.toNanos ran) (2 ^ 32 - 1)

/-- The last exit has not had its sleep yet, and the counter will be the streak after its
increment. -/
structure Lagging (ran sleeps : List ℕ) (consecutive : ℕ) : Prop where
  sleeps : ∃ earlier d, ran = earlier ++ [d] ∧ sleeps = p.streakDelays earlier
  consecutive : bump consecutive = min (streak p.maxBackoff.toNanos ran) (2 ^ 32 - 1)

/-- The sleeps so far are those of the exits, except perhaps for the last one. -/
structure Kept (ran sleeps : List ℕ) : Prop where
  isPrefix : sleeps <+: p.streakDelays ran
  length_le : ran.length ≤ sleeps.length + 1

/-- The sleeps of a run, and the counter at each of its statements. -/
def Follows (ran sleeps : List ℕ) (s : State) : Prop :=
  match s.pc with
  | .loopTop | .spawn | .join _ | .checkJoin _ _ | .healthy _ _ | .sleeping _ =>
    p.Settled ran sleeps s.consecutive
  | .record | .budget | .backoff => p.Lagging ran sleeps s.consecutive
  | .classify outcome =>
    if p.classifyOutcome outcome = .record then p.Lagging ran sleeps s.consecutive
    else p.Kept ran sleeps
  | .returned _ | .unwound _ => p.Kept ran sleeps

variable {p} {ran sleeps : List ℕ} {consecutive : ℕ}

private theorem Settled.kept (h : p.Settled ran sleeps consecutive) : p.Kept ran sleeps where
  isPrefix := h.sleeps ▸ List.prefix_rfl
  length_le := by
    have hlength := congrArg List.length h.sleeps
    rw [streakDelays, List.length_map, List.length_range] at hlength
    omega

/-- With one sleep to come, the sleeps are those of the earlier exits. -/
private theorem Lagging.kept (h : p.Lagging ran sleeps consecutive) : p.Kept ran sleeps := by
  obtain ⟨earlier, d, rfl, rfl⟩ := h.sleeps
  refine ⟨?_, ?_⟩
  · rw [streakDelays_snoc]
    exact List.prefix_append _ _
  · simp [streakDelays]

/-- The reset before the match on the outcome. -/
private theorem Settled.exit (h : p.Settled ran sleeps consecutive) (d : ℕ) :
    p.Lagging (ran ++ [d]) sleeps (if p.maxBackoff.toNanos ≤ d then 0 else consecutive) where
  sleeps := ⟨ran, d, rfl, h.sleeps⟩
  consecutive := by
    rw [streak_snoc, bump]
    have hcounter := h.consecutive
    split <;> omega

/-- The sleep after the increment. -/
private theorem Lagging.backoff (hjitter : p.jitter = false) (h : p.Lagging ran sleeps consecutive)
    (wall : ℤ) : p.Settled ran (sleeps ++ [(p.sleepFor (bump consecutive) wall).toNanos])
      (bump consecutive) where
  sleeps := by
    obtain ⟨earlier, d, rfl, rfl⟩ := h.sleeps
    rw [streakDelays_snoc, sleepFor, hjitter, computeDelay_false, h.consecutive,
      cappedDelay_saturated]
    rfl
  consecutive := h.consecutive

/-- The sleep that a backoff starts is its delay. -/
theorem sleepOf_backoff {s : State} {now : ℕ} {wall : ℤ} (hpc : s.pc = .backoff)
    (hclock : s.clock ≤ now) :
    p.sleepOf s (.backoff now wall) = [(p.sleepFor (bump s.consecutive) wall).toNanos] := by
  have hstep : p.step s (.backoff now wall) = some _ := (p.step_iff).mpr (.backoff hpc hclock)
  rw [sleepOf, hstep]
  cases hzero : (p.sleepFor (bump s.consecutive) wall).isZero with
  | true => simp [Pc.sleepFrom, Duration.isZero_iff.mp hzero]
  | false => simp [Pc.sleepFrom, Sleep.start, hzero]

/-- **One statement** keeps the sleeps and the counter in step. -/
theorem Follows.step (hjitter : p.jitter = false) {s s' : State} {l : Label}
    (h : p.Follows ran sleeps s) (hl : p.Step s l s') :
    p.Follows (ran ++ p.ranForOf s l) (sleeps ++ p.sleepOf s l) s' := by
  cases hl with
  | cancel =>
    simp only [ranForOf, sleepOf, List.append_nil]
    exact h
  | healthy hpc hclock =>
    rename_i now startedAt outcome
    simp only [Follows, hpc] at h
    have hexit := h.exit (durationSince now startedAt)
    simp only [Follows, ranForOf, sleepOf, hpc, List.append_nil]
    by_cases hrecord : p.classifyOutcome outcome = .record
    · rw [if_pos hrecord, if_pos hrecord]
      exact hexit
    · rw [if_neg hrecord, if_neg hrecord, List.append_nil]
      exact h.kept
  | classify hpc =>
    rename_i outcome
    simp only [Follows, hpc] at h
    simp only [Follows, ranForOf, sleepOf, List.append_nil]
    rcases p.classifyOutcome_cases outcome with hrecord | ⟨result, hreturned, -⟩
    · rw [if_pos hrecord] at h
      rw [hrecord]
      exact h
    · rw [if_neg (by simp [hreturned])] at h
      rw [hreturned]
      exact h
  | budget hpc =>
    simp only [Follows, hpc] at h
    simp only [Follows, ranForOf, sleepOf, List.append_nil]
    cases p.budgetExceeded s.restartHistory with
    | true => exact h.kept
    | false => exact h
  | backoff hpc hclock =>
    rename_i now wall
    simp only [Follows, hpc] at h
    have hsettled := h.backoff hjitter wall
    simp only [Follows, sleepOf_backoff hpc hclock, ranForOf, List.append_nil]
    cases (p.sleepFor (bump s.consecutive) wall).isZero with
    | true => exact hsettled
    | false => exact hsettled
  | poll hpc hclock =>
    rename_i now sleep
    simp only [Follows, hpc] at h
    simp only [Follows, ranForOf, sleepOf, List.append_nil]
    rcases sleep.poll (fun _ => s.cancelled) now with (_ | _) | _ | _
    · exact h.kept
    · exact h
    · exact h
    · exact h
  | checkTop hpc | checkJoin hpc =>
    simp only [Follows, hpc] at h
    simp only [Follows, ranForOf, sleepOf, List.append_nil]
    cases s.cancelled with
    | true => exact h.kept
    | false => exact h
  | factoryPanic hpc =>
    simp only [Follows, hpc] at h
    simp only [Follows, ranForOf, sleepOf, List.append_nil]
    exact h.kept
  | spawn hpc hclock | join hpc | record hpc hclock =>
    simp only [Follows, hpc] at h
    simp only [Follows, ranForOf, sleepOf, List.append_nil]
    exact h

/-- **The sleeps of every run are those of its exits.** -/
theorem follows_of_run (hjitter : p.jitter = false) {ls : List Label} {s : State}
    (h : p.machine.Run ls s) : p.Follows (p.ranFors ls) (p.sleeps ls) s := by
  refine h.induct (I := fun ls s => p.Follows (p.ranFors ls) (p.sleeps ls) s) ?_ ?_
  · have hinit : p.Settled [] [] p.machine.init.consecutive := ⟨rfl, (Nat.zero_min _).symm⟩
    exact hinit
  · intro ls l s s' hrun ih hl
    rw [p.ranFors_snoc hrun, p.sleeps_snoc hrun]
    exact ih.step hjitter ((p.step_iff).mp hl)

/-- At every statement the sleeps so far are those of the exits. -/
theorem Follows.kept {s : State} (h : p.Follows ran sleeps s) : p.Kept ran sleeps := by
  cases hpc : s.pc with
  | loopTop | spawn | join startedAt | checkJoin startedAt outcome | healthy startedAt outcome
  | sleeping sleep | record | budget | backoff =>
    simp only [Follows, hpc] at h
    exact h.kept
  | classify outcome =>
    simp only [Follows, hpc] at h
    split at h
    · exact h.kept
    · exact h
  | returned result | unwound msg =>
    simp only [Follows, hpc] at h
    exact h

/-! ### The law of the streaks -/

/-- Each sleep is the delay of the streak at its exit. -/
theorem Kept.getElem_sleeps (h : p.Kept ran sleeps) {k : ℕ} (hk : k < sleeps.length) :
    sleeps[k] = p.streakDelay (ran.take (k + 1)) := by
  rw [h.isPrefix.getElem hk]
  simp [streakDelays]

theorem Kept.length_le_length (h : p.Kept ran sleeps) : sleeps.length ≤ ran.length := by
  have hlength := h.isPrefix.length_le
  rwa [streakDelays, List.length_map, List.length_range] at hlength

private theorem streakDelay_le (ran : List ℕ) : p.streakDelay ran ≤ p.maxBackoff.toNanos :=
  Duration.le_iff.mp (cappedDelay_le _ _ _)

/-- Within a streak the delays grow. -/
private theorem streakDelay_take_le {j k : ℕ} (hjk : j ≤ k)
    (hshort : ∀ i d, j < i → i ≤ k → ran[i]? = some d → d < p.maxBackoff.toNanos) :
    p.streakDelay (ran.take (j + 1)) ≤ p.streakDelay (ran.take (k + 1)) := by
  have hsplit : (ran.take (k + 1)).take (j + 1) ++ (ran.take (k + 1)).drop (j + 1) =
      ran.take (k + 1) := List.take_append_drop _ _
  rw [List.take_take, Nat.min_eq_left (Nat.succ_le_succ hjk)] at hsplit
  have hlater : ∀ d ∈ (ran.take (k + 1)).drop (j + 1), d < p.maxBackoff.toNanos := by
    intro d hd
    obtain ⟨i, hi⟩ := List.mem_iff_getElem?.mp hd
    rw [List.getElem?_drop, List.getElem?_take] at hi
    split at hi
    · exact hshort _ d (by omega) (by omega) hi
    · contradiction
  rw [← hsplit, streakDelay, streakDelay, streak_append _ _ hlater]
  exact Duration.le_iff.mp (cappedDelay_mono le_rfl le_rfl (Nat.le_add_right _ _))

/-- After an instance that outlives the cap the curve starts again. -/
private theorem streakDelay_take_of_le {k d : ℕ} (hd : ran[k]? = some d)
    (hle : p.maxBackoff.toNanos ≤ d) :
    p.streakDelay (ran.take (k + 1)) = min p.baseBackoff.toNanos p.maxBackoff.toNanos := by
  have hfirst : min (2 ^ (1 - 1)) (2 ^ 32 - 1) = 1 := by omega
  rw [List.take_add_one, hd, Option.toList_some, streakDelay, streak_snoc, if_pos hle,
    toNanos_cappedDelay, hfirst, Nat.mul_one]

variable (p)

/-- **The backoff follows crash streaks.** In every run of a policy without jitter, and after every
exit that is worth a restart, the loop sleeps for the delay of the streak up to this exit. So within
a streak of instances that do not outlive the cap the sleeps never decrease, no sleep exceeds the
cap, and after an instance that does outlive it the sleep is the first of the curve again. -/
theorem backoff_follows_streaks (hjitter : p.jitter = false) {ls : List Label} {s : State}
    (hrun : p.machine.Run ls s) :
    let ran := p.ranFors ls
    let sleeps := p.sleeps ls
    let cap := p.maxBackoff.toNanos
    (sleeps.length ≤ ran.length ∧ ran.length ≤ sleeps.length + 1) ∧
    (∀ k (h : k < sleeps.length) wall, sleeps[k] = (computeDelay p.baseBackoff p.maxBackoff
      (streak cap (ran.take (k + 1))) false wall).toNanos) ∧
    (∀ j k (h : k < sleeps.length) (hjk : j ≤ k),
      (∀ i d, j < i → i ≤ k → ran[i]? = some d → d < cap) → sleeps[j] ≤ sleeps[k]) ∧
    (∀ k (h : k < sleeps.length), sleeps[k] ≤ cap) ∧
    (∀ k (h : k < sleeps.length) d, ran[k]? = some d → cap ≤ d →
      sleeps[k] = min p.baseBackoff.toNanos cap) := by
  have hkept := (p.follows_of_run hjitter hrun).kept
  refine ⟨⟨hkept.length_le_length, hkept.length_le⟩, fun k hk wall => ?_,
    fun j k hk hjk hshort => ?_, fun k hk => ?_, fun k hk d hd hle => ?_⟩
  · rw [hkept.getElem_sleeps hk, computeDelay_false]
    rfl
  · rw [hkept.getElem_sleeps hk, hkept.getElem_sleeps (hjk.trans_lt hk)]
    exact streakDelay_take_le hjk hshort
  · rw [hkept.getElem_sleeps hk]
    exact streakDelay_le _
  · rw [hkept.getElem_sleeps hk]
    exact streakDelay_take_of_le hd hle

/-- Restarts without jitter, from a base of one nanosecond up to a cap of ten. -/
def shortPolicy : Supervisor :=
  { new with
    baseBackoff := Duration.fromNanos 1
    maxBackoff := Duration.fromNanos 10
    jitter := false }

/-- One instance that is spawned at `spawned`, panics at `exited` and is restarted after the given
delay. -/
def panicRound (spawned exited delay : ℕ) : List Label :=
  [.checkTop, .spawn spawned, .join (.error ⟨true, "boom"⟩), .checkJoin, .healthy exited, .classify,
    .record exited, .budget, .backoff exited 0, .poll (exited + delay)]

/-- Two short-lived instances, one that outlives the cap, and another short-lived one. -/
def fourPanics : List Label :=
  panicRound 0 3 1 ++ panicRound 4 8 2 ++ panicRound 10 25 1 ++ panicRound 26 27 2

theorem backoff_follows_streaks_fourPanics :
    shortPolicy.ranFors fourPanics = [3, 4, 15, 1] ∧ shortPolicy.sleeps fourPanics = [1, 2, 1, 2] ∧
      ∀ k (h : k < (shortPolicy.sleeps fourPanics).length),
        (shortPolicy.sleeps fourPanics)[k] ≤ 10 := by
  have hrun : shortPolicy.machine.Run fourPanics
      ⟨false, 29, [3, 8, 25, 27], 2, .loopTop⟩ := by decide +kernel
  have hlaw := shortPolicy.backoff_follows_streaks rfl hrun
  exact ⟨by decide +kernel, by decide +kernel, hlaw.2.2.2.1⟩

end Supervisor

end RustUtils
