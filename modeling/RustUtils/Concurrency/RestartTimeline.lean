import RustUtils.Concurrency.SupervisorCancellation
import RustUtils.Concurrency.SupervisorStreaks
import RustUtils.Timeline.Spacing

/-!
# When `Supervisor::run` restarts

The instants at which the instances of a run are spawned, as a timeline. An exit that is worth a
restart is read from the clock after the instance has run, the backoff is slept out before the next
check of the token, and the next instance is spawned after both: the gap before it is at least the
time the instance ran and the sleep together (`timed_of_run`). Without jitter the sleep is the delay
of the crash streak, so the restarts of a crash loop are as far apart as the backoff curve, and
restarts never crowd (`restart_timeline`).
-/

namespace RustUtils

open Transition Timeline

namespace Supervisor

variable {p : Supervisor}

/-- The instants at which the instances of a run are spawned. -/
def spawns (ls : List Label) : List ℕ :=
  ls.filterMap fun
    | .spawn now => some now
    | _ => none

private theorem spawns_snoc_spawn (ls : List Label) (now : ℕ) :
    spawns (ls ++ [.spawn now]) = spawns ls ++ [now] := List.filterMap_append

/-- Only `spawn` adds an instant. -/
private theorem spawns_snoc_of_ne (ls : List Label) {l : Label} (h : ∀ now, l ≠ .spawn now) :
    spawns (ls ++ [l]) = spawns ls := by
  rw [spawns, List.filterMap_append]
  cases l with
  | spawn now => exact absurd rfl (h now)
  | _ => exact List.append_nil _

/-- What a restart waits for: that the instance runs, and the sleep. -/
def gaps (ran sleeps : List ℕ) : List ℕ := List.zipWith (· + ·) ran sleeps

/-! ### Where a run stands -/

/-- Every instance has ended and every sleep has been started; the next instance may be spawned
from `ready` on. -/
structure Rested (ts ran sleeps : List ℕ) (ready : ℕ) : Prop where
  length_ran : ran.length = ts.length
  length_sleeps : sleeps.length = ts.length
  apart : Apart (gaps ran sleeps) (ts ++ [ready])

/-- The last instance, spawned at `startedAt`, has not been read from the clock. -/
def Running (ts ran sleeps : List ℕ) (startedAt : ℕ) : Prop :=
  ∃ earlier, ts = earlier ++ [startedAt] ∧ Rested earlier ran sleeps startedAt

/-- The last instance has ended by `now`, and its sleep has not been started. -/
def Exited (ts ran sleeps : List ℕ) (now : ℕ) : Prop :=
  ∃ earlier startedAt before d, ts = earlier ++ [startedAt] ∧ ran = before ++ [d] ∧
    Rested earlier before sleeps startedAt ∧ startedAt + d ≤ now

section

variable {ts ran sleeps : List ℕ}

private theorem Rested.later {ready ready' : ℕ} (h : Rested ts ran sleeps ready)
    (hle : ready ≤ ready') :
    Rested ts ran sleeps ready' :=
  { h with apart := h.apart.later hle }

private theorem Rested.gaps {ready : ℕ} (h : Rested ts ran sleeps ready) :
    Apart (gaps ran sleeps) ts :=
  h.apart.init

private theorem Running.gaps {startedAt : ℕ} (h : Running ts ran sleeps startedAt) :
    Apart (gaps ran sleeps) ts := by
  obtain ⟨earlier, rfl, hrested⟩ := h
  exact hrested.apart

private theorem Exited.later {now now' : ℕ} (h : Exited ts ran sleeps now) (hle : now ≤ now') :
    Exited ts ran sleeps now' := by
  obtain ⟨earlier, startedAt, before, d, hts, hran, hrested, hd⟩ := h
  exact ⟨earlier, startedAt, before, d, hts, hran, hrested, hd.trans hle⟩

/-- Gaps concatenate where every earlier exit has had its sleep. -/
private theorem gaps_append {before : List ℕ} (hlength : before.length = sleeps.length)
    (d e : List ℕ) :
    Supervisor.gaps (before ++ d) (sleeps ++ e) =
      Supervisor.gaps before sleeps ++ Supervisor.gaps d e :=
  List.zipWith_append hlength

/-- What has been spawned before the last sleep is apart. -/
private theorem Exited.gaps {now : ℕ} (h : Exited ts ran sleeps now) :
    Apart (gaps ran sleeps) ts := by
  obtain ⟨earlier, startedAt, before, d, rfl, rfl, hrested, -⟩ := h
  have hlength := hrested.length_ran.trans hrested.length_sleeps.symm
  have hsplit := gaps_append hlength [d] []
  rw [List.append_nil] at hsplit
  rw [hsplit]
  exact hrested.apart.left _

/-- Reading the clock after the instance. -/
private theorem Running.exit {startedAt now : ℕ} (h : Running ts ran sleeps startedAt)
    (hle : startedAt ≤ now) : Exited ts (ran ++ [durationSince now startedAt]) sleeps now := by
  obtain ⟨earlier, hts, hrested⟩ := h
  refine ⟨earlier, startedAt, ran, _, hts, rfl, hrested, ?_⟩
  rw [durationSince]
  omega

/-- Starting the sleep. -/
private theorem Exited.sleep {now : ℕ} (h : Exited ts ran sleeps now) (e : ℕ) :
    Rested ts ran (sleeps ++ [e]) (now + e) := by
  obtain ⟨earlier, startedAt, before, d, rfl, rfl, hrested, hd⟩ := h
  have hlength := hrested.length_ran.trans hrested.length_sleeps.symm
  refine ⟨by simp [hrested.length_ran], by simp [hrested.length_sleeps], ?_⟩
  rw [gaps_append hlength]
  refine hrested.apart.snoc ?_ (show startedAt + (d + e) ≤ now + e by omega)
  rw [Supervisor.gaps, List.length_zipWith, hrested.length_ran, hrested.length_sleeps, Nat.min_self]

end

/-- Where a run stands, by the statement of the loop. -/
def Timed (p : Supervisor) (ts ran sleeps : List ℕ) (s : State) : Prop :=
  match s.pc with
  | .loopTop | .spawn => Rested ts ran sleeps s.clock
  | .sleeping (.select _ deadline) => Rested ts ran sleeps deadline
  | .join startedAt | .checkJoin startedAt _ | .healthy startedAt _ =>
    startedAt ≤ s.clock ∧ Running ts ran sleeps startedAt
  | .classify outcome =>
    if p.classifyOutcome outcome = .record then Exited ts ran sleeps s.clock
    else Apart (gaps ran sleeps) ts
  | .record | .budget | .backoff => Exited ts ran sleeps s.clock
  | _ => Apart (gaps ran sleeps) ts

/-- **One statement** keeps the timeline apart. -/
theorem Timed.step {ls : List Label} {ran sleeps : List ℕ} {s s' : State} {l : Label}
    (hselect : ∀ sleep, s.pc = .sleeping sleep → ∃ deadline, sleep = .select () deadline)
    (h : p.Timed (spawns ls) ran sleeps s) (hl : p.Step s l s') :
    p.Timed (spawns (ls ++ [l])) (ran ++ p.ranForOf s l) (sleeps ++ p.sleepOf s l) s' := by
  cases hl with
  | cancel =>
    rw [spawns_snoc_of_ne ls (by simp)]
    simp only [ranForOf, sleepOf, List.append_nil]
    exact h
  | checkTop hpc =>
    simp only [Timed, hpc] at h
    rw [spawns_snoc_of_ne ls (by simp)]
    simp only [Timed, ranForOf, sleepOf, List.append_nil]
    cases s.cancelled with
    | true => exact h.gaps
    | false => exact h
  | @spawn now hpc hclock =>
    simp only [Timed, hpc] at h
    rw [spawns_snoc_spawn]
    simp only [Timed, ranForOf, sleepOf, List.append_nil]
    exact ⟨le_rfl, _, rfl, h.later hclock⟩
  | factoryPanic hpc =>
    simp only [Timed, hpc] at h
    rw [spawns_snoc_of_ne ls (by simp)]
    simp only [Timed, ranForOf, sleepOf, List.append_nil]
    exact h.gaps
  | join hpc =>
    simp only [Timed, hpc] at h
    rw [spawns_snoc_of_ne ls (by simp)]
    simp only [Timed, ranForOf, sleepOf, List.append_nil]
    exact h
  | checkJoin hpc =>
    simp only [Timed, hpc] at h
    rw [spawns_snoc_of_ne ls (by simp)]
    simp only [Timed, ranForOf, sleepOf, List.append_nil]
    cases s.cancelled with
    | true => exact h.2.gaps
    | false => exact h
  | @healthy now startedAt outcome hpc hclock =>
    simp only [Timed, hpc] at h
    rw [spawns_snoc_of_ne ls (by simp)]
    simp only [Timed, ranForOf, hpc, sleepOf, List.append_nil]
    by_cases hrecord : p.classifyOutcome outcome = .record
    · rw [if_pos hrecord, if_pos hrecord]
      exact h.2.exit (h.1.trans hclock)
    · rw [if_neg hrecord, if_neg hrecord, List.append_nil]
      exact h.2.gaps
  | @classify outcome hpc =>
    simp only [Timed, hpc] at h
    rw [spawns_snoc_of_ne ls (by simp)]
    simp only [Timed, ranForOf, sleepOf, List.append_nil]
    rcases p.classifyOutcome_cases outcome with hrecord | ⟨result, hreturned, -⟩
    · rw [if_pos hrecord] at h
      rw [hrecord]
      exact h
    · rw [if_neg (by simp [hreturned])] at h
      rw [hreturned]
      exact h
  | record hpc hclock =>
    simp only [Timed, hpc] at h
    rw [spawns_snoc_of_ne ls (by simp)]
    simp only [Timed, ranForOf, sleepOf, List.append_nil]
    exact h.later hclock
  | budget hpc =>
    simp only [Timed, hpc] at h
    rw [spawns_snoc_of_ne ls (by simp)]
    simp only [Timed, ranForOf, sleepOf, List.append_nil]
    cases p.budgetExceeded s.restartHistory with
    | true => exact h.gaps
    | false => exact h
  | @backoff now wall hpc hclock =>
    simp only [Timed, hpc] at h
    have hrested := (h.later hclock).sleep (p.sleepFor (bump s.consecutive) wall).toNanos
    rw [spawns_snoc_of_ne ls (by simp)]
    simp only [Timed, sleepOf_backoff hpc hclock, ranForOf, List.append_nil]
    cases hzero : (p.sleepFor (bump s.consecutive) wall).isZero with
    | true =>
      rw [Duration.isZero_iff.mp hzero] at hrested ⊢
      exact hrested
    | false =>
      rw [if_neg Bool.false_ne_true, Sleep.start, if_neg (by simp [hzero])]
      exact hrested
  | @poll now sleep hpc hclock =>
    obtain ⟨deadline, rfl⟩ := hselect sleep hpc
    simp only [Timed, hpc] at h
    rw [spawns_snoc_of_ne ls (by simp)]
    simp only [Timed, ranForOf, sleepOf, List.append_nil]
    rw [Sleep.poll]
    split_ifs with hcancelled helapsed
    · exact h.gaps
    · exact h.later helapsed
    · exact h

/-- **The spawns of every run.** -/
theorem timed_of_run {ls : List Label} {s : State} (h : p.machine.Run ls s) :
    p.Timed (spawns ls) (p.ranFors ls) (p.sleeps ls) s := by
  refine h.induct (I := fun ls s => p.Timed (spawns ls) (p.ranFors ls) (p.sleeps ls) s) ?_ ?_
  · exact ⟨rfl, rfl, apart_singleton _⟩
  · intro ls l s s' hrun ih hl
    rw [p.ranFors_snoc hrun, p.sleeps_snoc hrun]
    exact ih.step (p.sleeping_select hrun) ((p.step_iff).mp hl)

/-- At every statement the spawns are apart by the gaps. -/
private theorem Timed.apart {ts ran sleeps : List ℕ} {s : State} (h : p.Timed ts ran sleeps s) :
    Apart (gaps ran sleeps) ts := by
  cases hpc : s.pc with
  | sleeping sleep =>
    cases sleep <;> simp only [Timed, hpc] at h <;> first | exact h | exact h.gaps
  | loopTop | spawn | record | budget | backoff =>
    simp only [Timed, hpc] at h
    exact h.gaps
  | join startedAt | checkJoin startedAt outcome | healthy startedAt outcome =>
    simp only [Timed, hpc] at h
    exact h.2.gaps
  | classify outcome =>
    simp only [Timed, hpc] at h
    split at h
    · exact h.gaps
    · exact h
  | returned result | unwound msg =>
    simp only [Timed, hpc] at h
    exact h

/-! ### The law of the restarts -/

/-- The first delays of the backoff curve, one for each of `n` exits in a row. -/
def curve (p : Supervisor) (n : ℕ) : List ℕ :=
  (List.range n).map fun i => (cappedDelay p.baseBackoff p.maxBackoff (i + 1)).toNanos

private theorem curve_succ (n : ℕ) : p.curve (n + 1) =
    p.curve n ++ [(cappedDelay p.baseBackoff p.maxBackoff (n + 1)).toNanos] := by
  rw [curve, List.range_succ, List.map_append, List.map_singleton, curve]

/-- A streak is as long as the short-lived instances at its end, with the one before them. -/
private theorem le_streak_take {cap j k : ℕ} {ran : List ℕ} (hjk : j ≤ k) (hk : k < ran.length)
    (hshort : ∀ i d, j < i → i ≤ k → ran[i]? = some d → d < cap) :
    k - j + 1 ≤ streak cap (ran.take (k + 1)) := by
  induction k, hjk using Nat.le_induction with
  | base =>
    rw [List.take_add_one, List.getElem?_eq_getElem hk, Option.toList_some, streak_snoc]
    split <;> omega
  | succ k hjk ih =>
    have hlater := ih (Nat.lt_of_succ_lt hk) fun i d hj hi => hshort i d hj (Nat.le_succ_of_le hi)
    have hd := hshort (k + 1) _ (Nat.lt_succ_of_le hjk) le_rfl (List.getElem?_eq_getElem hk)
    rw [List.take_add_one, List.getElem?_eq_getElem hk, Option.toList_some, streak_snoc,
      if_neg (Nat.not_le.mpr hd)]
    omega

/-- In a streak the sleeps are at least those of the curve. -/
private theorem Kept.curve_le {ran sleeps : List ℕ} (h : p.Kept ran sleeps) {j k e : ℕ}
    (hjk : j ≤ k)
    (he : sleeps[k]? = some e)
    (hshort : ∀ i d, j < i → i ≤ k → ran[i]? = some d → d < p.maxBackoff.toNanos) :
    (cappedDelay p.baseBackoff p.maxBackoff (k - j + 1)).toNanos ≤ e := by
  obtain ⟨hk, rfl⟩ := List.getElem?_eq_some_iff.mp he
  rw [h.getElem_sleeps hk, streakDelay]
  exact Duration.le_iff.mp (cappedDelay_mono le_rfl le_rfl
    (le_streak_take hjk (hk.trans_le h.length_le_length) hshort))

/-- The gap before a restart is the time the instance ran and its sleep. -/
private theorem exists_of_gaps {ran sleeps : List ℕ} {k g : ℕ}
    (h : (gaps ran sleeps)[k]? = some g) :
    ∃ d e, ran[k]? = some d ∧ sleeps[k]? = some e ∧ g = d + e := by
  rw [gaps, List.getElem?_zipWith] at h
  split at h
  · next d e hd he => exact ⟨d, e, hd, he, (Option.some_inj.mp h).symm⟩
  · contradiction

/-- No sleep is shorter than the first one of the curve. -/
private theorem Kept.min_le {ran sleeps : List ℕ} (h : p.Kept ran sleeps) {k e : ℕ}
    (he : sleeps[k]? = some e) : min p.baseBackoff.toNanos p.maxBackoff.toNanos ≤ e := by
  have hfirst : (cappedDelay p.baseBackoff p.maxBackoff 1).toNanos =
      min p.baseBackoff.toNanos p.maxBackoff.toNanos := by
    have hone : min (2 ^ (1 - 1)) (2 ^ 32 - 1) = 1 := by omega
    rw [toNanos_cappedDelay, hone, Nat.mul_one]
  have hle := h.curve_le (le_refl k) he fun i d hlt hle => absurd hle (Nat.not_le.mpr hlt)
  rwa [Nat.sub_self, Nat.zero_add, hfirst] at hle

variable (p)

/-- **When `run` restarts.** In every run, whatever its policy, its instances do and its clock
reads, any two spawns are at least as far apart as the instances from the one to the other ran and
the loop slept between. Without jitter a crash loop, whose instances do not outlive the cap,
restarts no faster than along the backoff curve, from wherever in the run it begins; and no interval
of length `len` holds more spawns than the least delay allows. -/
theorem restart_timeline {ls : List Label} {s : State} (hrun : p.machine.Run ls s) :
    let ran := p.ranFors ls
    let least := min p.baseBackoff.toNanos p.maxBackoff.toNanos
    (∀ (j k a b : ℕ), j ≤ k → (spawns ls)[j]? = some a → (spawns ls)[k]? = some b →
      a + (((gaps ran (p.sleeps ls)).take k).drop j).sum ≤ b) ∧
    (p.jitter = false → ∀ (j k a b : ℕ), j ≤ k → (spawns ls)[j]? = some a →
      (spawns ls)[k]? = some b →
      (∀ i d, j < i → i < k → ran[i]? = some d → d < p.maxBackoff.toNanos) →
      a + (p.curve (k - j)).sum ≤ b) ∧
    (p.jitter = false → 0 < least → ∀ a len,
      (spawns ls).countP (fun t => a ≤ t && t < a + len) ≤ len ⌈/⌉ least) := by
  intro ran least
  have hapart := (timed_of_run hrun).apart
  refine ⟨fun j k a b hjk => hapart.sum_le hjk, fun hjitter j k a b hjk ha hb hshort => ?_,
    fun hjitter hleast a len => ?_⟩
  · have hkept := (p.follows_of_run hjitter hrun).kept
    induction k, hjk using Nat.le_induction generalizing b with
    | base =>
      obtain rfl := Option.some_inj.mp (ha.symm.trans hb)
      rw [Nat.sub_self]
      exact le_rfl
    | succ k hjk ih =>
      have hk : k < (spawns ls).length := Nat.lt_of_succ_lt (List.getElem?_eq_some_iff.mp hb).1
      have hearlier := ih _ (List.getElem?_eq_getElem hk) fun i d hj hi =>
        hshort i d hj (Nat.lt_succ_of_lt hi)
      obtain ⟨g, hg, hgap⟩ := hapart k _ b (List.getElem?_eq_getElem hk) hb
      obtain ⟨d, e, -, he, rfl⟩ := exists_of_gaps hg
      have hdelay := hkept.curve_le hjk he fun i d hj hi => hshort i d hj (Nat.lt_succ_of_le hi)
      rw [Nat.succ_sub hjk, curve_succ, List.sum_append, List.sum_singleton]
      omega
  · have hkept := (p.follows_of_run hjitter hrun).kept
    have hspaced : Spaced least (spawns ls) := hapart.spaced fun g hg => by
      obtain ⟨k, hk⟩ := List.mem_iff_getElem?.mp hg
      obtain ⟨d, e, -, he, rfl⟩ := exists_of_gaps hk
      exact (hkept.min_le he).trans (Nat.le_add_left _ _)
    have hmem : ∀ t ∈ (spawns ls).filter fun t => a ≤ t && t < a + len, a ≤ t ∧ t < a + len :=
      fun t ht => by simpa using (List.mem_filter.mp ht).2
    rw [List.countP_eq_length_filter]
    exact (hspaced.sublist List.filter_sublist).length_le_ceilDiv hleast hmem

/-- Four instances that panic: the second interval of ten nanoseconds holds one spawn. -/
theorem restart_timeline_fourPanics :
    spawns fourPanics = [0, 4, 10, 26] ∧ 4 + (shortPolicy.curve 1).sum ≤ 10 ∧
      (spawns fourPanics).countP (fun t => 10 ≤ t && t < 10 + 10) ≤ 10 ⌈/⌉ 1 := by
  have hrun : shortPolicy.machine.Run fourPanics
      ⟨false, 29, [3, 8, 25, 27], 2, .loopTop⟩ := by decide +kernel
  obtain ⟨-, hcurve, hcount⟩ := shortPolicy.restart_timeline hrun
  exact ⟨rfl, hcurve rfl 1 2 4 10 (by decide) rfl rfl (fun i d hj hi => by omega),
    hcount rfl (by decide) 10 10⟩

end Supervisor

end RustUtils
