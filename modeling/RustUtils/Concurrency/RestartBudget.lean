import RustUtils.Concurrency.Supervisor
import RustUtils.Timeline.Window

/-!
# The restart budget of `Supervisor::run`

The restart history of the loop is a lazily pruned queue, and the budget check looks at its
length once per exit. `recency` is the abstract window of a policy, and
`restartHistory_eq_recent` the refinement: at every point of every run the queue holds
exactly the recorded exit times that lie in the window of the latest one.

From there the check is a statement about the timeline of exits alone: the loop gives up at the
first exit at which the window holds more than the cap, after `cap + 1` instances when there is no
window, and a run that has not given up has at most `cap` exits in any closed interval as long as
the window. Conversely every timeline of exits that leaves the loop its sleeps is one of a run
(`exists_makes`), which `run_restart_budget` puts together.
-/

namespace RustUtils

open Transition Timeline

namespace Supervisor

variable (p : Supervisor)

/-! ### The history is a rolling window -/

/-- The recency a window of a fixed length defines: an exit counts while it is at most that
old. -/
def windowRecency (window : Duration) : Recency ℕ where
  fresh now t := durationSince now t ≤ window.toNanos
  fresh_self t := by simp [durationSince]
  fresh_of_le hle h :=
    decide_eq_true (Nat.le_trans (Nat.sub_le_sub_left hle _) (of_decide_eq_true h))
  fresh_of_ge hle h :=
    decide_eq_true (Nat.le_trans (Nat.sub_le_sub_right hle _) (of_decide_eq_true h))

/-- The recency of a policy: its window, or no forgetting at all. -/
def recency : Recency ℕ :=
  match p.restartWindow with
  | some window => windowRecency window
  | none => Recency.unbounded

theorem prune_eq_dropWhile (now : ℕ) (window : Duration) (history : List ℕ) :
    prune now window history =
      history.dropWhile fun t => !(windowRecency window).fresh now t := by
  induction history with
  | nil => rfl
  | cons front rest ih =>
    by_cases h : window.toNanos < durationSince now front
    · rw [prune, if_pos h, ih, List.dropWhile_cons_of_pos (by simpa [windowRecency] using h)]
    · rw [prune, if_neg h, List.dropWhile_cons_of_neg (by simpa [windowRecency] using h)]

/-- Pushing and pruning is recording in the window. -/
private theorem recordExit_eq_record (history : List ℕ) (now : ℕ) :
    p.recordExit history now = p.recency.record history now := by
  rw [recordExit, recency]
  cases p.restartWindow with
  | some window => exact prune_eq_dropWhile now window _
  | none => cases history <;> rfl

/-- The exit times a run has recorded. -/
def exits (ls : List Label) : List ℕ :=
  ls.filterMap fun
    | .record now => some now
    | _ => none

@[simp]
theorem exits_nil : exits [] = [] := rfl

theorem exits_append (ls ls' : List Label) : exits (ls ++ ls') = exits ls ++ exits ls' :=
  List.filterMap_append

@[simp]
theorem exits_snoc_record (ls : List Label) (now : ℕ) :
    exits (ls ++ [.record now]) = exits ls ++ [now] :=
  exits_append ls [.record now]

/-- Only `record` adds an exit time. -/
private theorem exits_snoc_of_ne (ls : List Label) {l : Label} (h : ∀ now, l ≠ .record now) :
    exits (ls ++ [l]) = exits ls := by
  rw [exits_append]
  cases l with
  | record now => exact absurd rfl (h now)
  | _ => exact List.append_nil _

/-- Exit times are recorded in the order of the clock. -/
private theorem exits_sorted {ls : List Label} {s : State} (h : p.machine.Run ls s) :
    (exits ls).Pairwise (· ≤ ·) ∧ ∀ t ∈ exits ls, t ≤ s.clock := by
  refine h.induct (I := fun ls s =>
    (exits ls).Pairwise (· ≤ ·) ∧ ∀ t ∈ exits ls, t ≤ s.clock) ?_ ?_
  · exact ⟨List.Pairwise.nil, fun t ht => absurd ht List.not_mem_nil⟩
  · rintro ls l s s' - ⟨hsort, hle⟩ hl
    cases (p.step_iff).mp hl with
    | record hpc hclock =>
      rw [exits_snoc_record]
      refine ⟨List.pairwise_append.mpr ⟨hsort, List.pairwise_singleton _ _, ?_⟩, ?_⟩
      · intro t ht t' ht'
        obtain rfl := List.mem_singleton.mp ht'
        exact Nat.le_trans (hle t ht) hclock
      · intro t ht
        rcases List.mem_append.mp ht with ht | ht
        · exact Nat.le_trans (hle t ht) hclock
        · exact (List.mem_singleton.mp ht).le
    | spawn hpc hclock | healthy hpc hclock | backoff hpc hclock | poll hpc hclock =>
      rw [exits_snoc_of_ne ls (by simp)]
      exact ⟨hsort, fun t ht => Nat.le_trans (hle t ht) hclock⟩
    | _ =>
      rw [exits_snoc_of_ne ls (by simp)]
      exact ⟨hsort, hle⟩

/-- **The queue is the window.** At every point of a run the restart history is the list of
recorded exits that lie in the window of the latest one. -/
theorem restartHistory_eq_recent {ls : List Label} {s : State} (h : p.machine.Run ls s) :
    s.restartHistory = p.recency.recent (exits ls) := by
  refine h.induct (I := fun ls s => s.restartHistory = p.recency.recent (exits ls)) rfl ?_
  intro ls l s s' hrun ih hl
  have hsort := (exits_sorted p (hrun.snoc hl)).1
  cases (p.step_iff).mp hl with
  | record hpc hclock =>
    rw [exits_snoc_record] at hsort ⊢
    rw [← p.recency.record_recent hsort, ← ih]
    exact p.recordExit_eq_record _ _
  | _ =>
    rw [exits_snoc_of_ne ls (by simp)]
    exact ih

/-! ### The budget check along a run -/

/-- `run` has returned `RetryExhausted`. -/
def Pc.exhausted : Pc → Bool
  | .returned (.error r) => r.currentContext = .retryExhausted
  | _ => false

theorem Pc.exhausted_iff {pc : Pc} : pc.exhausted = true ↔
    ∃ r, pc = .returned (.error r) ∧ r.currentContext = .retryExhausted := by
  constructor
  · intro h
    unfold exhausted at h
    split at h
    · next r => exact ⟨r, rfl, of_decide_eq_true h⟩
    · contradiction
  · rintro ⟨r, rfl, hr⟩
    exact decide_eq_true hr

/-- Classification returns reports of its own, never an exhausted budget. -/
theorem exhausted_classifyOutcome (outcome : Outcome) :
    (p.classifyOutcome outcome).exhausted = false := by
  rcases p.classifyOutcome_cases outcome with h | ⟨result, h, hctx⟩
  · rw [h]
    rfl
  · rw [h]
    cases result with
    | ok _ => rfl
    | error r => simp [Pc.exhausted, hctx r rfl]

theorem exhausted_afterPoll (sleep : Sleep Unit) : (afterPoll sleep).exhausted = false := by
  rcases afterPoll_cases sleep with h | h | h <;> rw [h] <;> rfl

/-- Below `2^32` entries the cast of the length is the length. -/
theorem budgetExceeded_iff {history : List ℕ} (h : history.length < 2 ^ 32) :
    p.budgetExceeded history = true ↔
      ∃ cap, p.maxRestarts = some cap ∧ cap.val < history.length := by
  rw [budgetExceeded, Nat.mod_eq_of_lt h]
  cases p.maxRestarts <;> simp

/-- The budget checks of a run: all those before the last exit have passed, and the one at
the last exit, once it is made, has failed exactly when the window holds too many exits. -/
structure Checked (ts : List ℕ) (pc : Pc) : Prop where
  earlier : ∀ cap, p.maxRestarts = some cap → ∀ xs, xs <+: ts → xs ≠ ts →
    (p.recency.recent xs).length ≤ cap.val
  last : pc ≠ .budget → (pc.exhausted = true ↔
    ∃ cap, p.maxRestarts = some cap ∧ cap.val < (p.recency.recent ts).length)

variable {p}

/-- A statement that neither records an exit nor checks the budget. -/
private theorem Checked.quiet {ts : List ℕ} {pc pc' : Pc} (h : p.Checked ts pc) (hpc : pc ≠ .budget)
    (hex : pc.exhausted = false) (hex' : pc'.exhausted = false) : p.Checked ts pc' := by
  refine ⟨h.earlier, fun _ => iff_of_false (by simp [hex']) fun hexceeds => ?_⟩
  simp [(h.last hpc).mpr hexceeds] at hex

/-- Recording an exit at a point where all checks so far have passed. -/
private theorem Checked.record {ts : List ℕ} {now : ℕ} (h : p.Checked ts .record) :
    p.Checked (ts ++ [now]) .budget := by
  refine ⟨fun cap hcap xs hxs hne => ?_, fun hpc => absurd rfl hpc⟩
  -- the checks before this exit are those before the last one and the one at the last one
  have hpre : xs <+: ts := (List.prefix_concat_iff.mp hxs).resolve_left hne
  by_cases heq : xs = ts
  · subst heq
    have hpass : ¬ ∃ cap, p.maxRestarts = some cap ∧ cap.val < (p.recency.recent xs).length :=
      fun hexceeds => by simpa [Pc.exhausted] using (h.last (by simp)).mpr hexceeds
    exact Nat.le_of_not_lt fun hlt => hpass ⟨cap, hcap, hlt⟩
  · exact h.earlier cap hcap xs hpre heq

variable (p)

/-- **All checks along a run.** -/
theorem checked_of_run {ls : List Label} {s : State} (h : p.machine.Run ls s)
    (hfew : (exits ls).length < 2 ^ 32) : p.Checked (exits ls) s.pc := by
  refine h.induct (I := fun ls s => (exits ls).length < 2 ^ 32 → p.Checked (exits ls) s.pc)
    ?_ ?_ hfew
  · refine fun _ => ⟨fun cap _ xs hxs hne => absurd (List.prefix_nil.mp hxs) hne, fun _ => ?_⟩
    exact iff_of_false (by simp [machine, Pc.exhausted]) fun ⟨cap, _, hlt⟩ => by simp at hlt
  · intro ls l s s' hrun ih hl hfew
    cases (p.step_iff).mp hl with
    | record hpc hclock =>
      rw [exits_snoc_record] at hfew ⊢
      have ih' := ih (by rw [List.length_append] at hfew; omega)
      rw [hpc] at ih'
      exact ih'.record
    | budget hpc =>
      rw [exits_snoc_of_ne ls (by simp)] at hfew ⊢
      refine ⟨(ih hfew).earlier, fun _ => ?_⟩
      have hlen : s.restartHistory.length < 2 ^ 32 := by
        rw [p.restartHistory_eq_recent hrun]
        exact Nat.lt_of_le_of_lt (p.recency.length_recent_le _) hfew
      -- the check looks at the queue, which is the window
      rw [← p.restartHistory_eq_recent hrun, ← p.budgetExceeded_iff hlen]
      cases p.budgetExceeded s.restartHistory <;> simp [Pc.exhausted, budgetReport]
    | cancel =>
      rw [exits_snoc_of_ne ls (by simp)] at hfew ⊢
      exact ih hfew
    | classify hpc =>
      rw [exits_snoc_of_ne ls (by simp)] at hfew ⊢
      exact (ih hfew).quiet (by simp [hpc]) (by simp [hpc, Pc.exhausted])
        (p.exhausted_classifyOutcome _)
    | poll hpc hclock =>
      rw [exits_snoc_of_ne ls (by simp)] at hfew ⊢
      exact (ih hfew).quiet (by simp [hpc]) (by simp [hpc, Pc.exhausted]) (exhausted_afterPoll _)
    | checkTop hpc | spawn hpc hclock | factoryPanic hpc | join hpc | checkJoin hpc
    | healthy hpc hclock | backoff hpc hclock =>
      rw [exits_snoc_of_ne ls (by simp)] at hfew ⊢
      refine (ih hfew).quiet (by simp [hpc]) (by simp [hpc, Pc.exhausted]) ?_
      first | rfl | (split <;> rfl)

/-! ### One instance for each exit -/

/-- The number of instances a run has spawned. -/
def instances (ls : List Label) : ℕ :=
  ls.countP fun
    | .spawn _ => true
    | _ => false

theorem instances_append (ls ls' : List Label) :
    instances (ls ++ ls') = instances ls + instances ls' :=
  List.countP_append

/-- The spawned instances whose exit has not been recorded yet, at the points where a
restart is still possible or the budget has run out. -/
def Pc.outstanding : Pc → Option ℕ
  | .loopTop | .spawn | .budget | .backoff | .sleeping _ => some 0
  | .join _ | .checkJoin _ _ | .healthy _ _ | .classify _ | .record => some 1
  | .returned (.error r) => if r.currentContext = .retryExhausted then some 0 else none
  | .returned (.ok _) | .unwound _ => none

theorem outstanding_classifyOutcome {outcome : Outcome} {n : ℕ}
    (h : (p.classifyOutcome outcome).outstanding = some n) : n = 1 := by
  rcases p.classifyOutcome_cases outcome with hpc | ⟨result, hpc, hctx⟩
  · rw [hpc] at h
    exact (Option.some_inj.mp h).symm
  · rw [hpc] at h
    cases result with
    | ok _ => contradiction
    | error r => simp [Pc.outstanding, hctx r rfl] at h

private theorem outstanding_afterPoll {sleep : Sleep Unit} {n : ℕ}
    (h : (afterPoll sleep).outstanding = some n) : n = 0 := by
  rcases afterPoll_cases sleep with hpc | hpc | hpc <;> rw [hpc] at h
  · exact (Option.some_inj.mp h).symm
  · contradiction
  · exact (Option.some_inj.mp h).symm

/-- Every instance of a run is recorded once, before the next one is spawned. -/
private theorem instances_eq {ls : List Label} {s : State} (h : p.machine.Run ls s) :
    ∀ n, s.pc.outstanding = some n → instances ls = (exits ls).length + n := by
  refine h.induct
    (I := fun ls s => ∀ n, s.pc.outstanding = some n → instances ls = (exits ls).length + n)
    ?_ ?_
  · rintro n hn
    obtain rfl : 0 = n := Option.some_inj.mp hn
    rfl
  · rintro ls l s s' - ih hl n hn
    have hcount := instances_append ls [l]
    cases (p.step_iff).mp hl with
    | record hpc hclock =>
      obtain rfl : 0 = n := Option.some_inj.mp hn
      have := ih 1 (by rw [hpc]; rfl)
      rw [hcount, exits_snoc_record, List.length_append, this]
      rfl
    | spawn hpc hclock =>
      obtain rfl : 1 = n := Option.some_inj.mp hn
      have := ih 0 (by rw [hpc]; rfl)
      rw [hcount, exits_snoc_of_ne ls (by simp), this]
      rfl
    | cancel =>
      rw [hcount, exits_snoc_of_ne ls (by simp)]
      exact ih n hn
    | factoryPanic hpc => exact absurd hn (by simp [Pc.outstanding])
    | join hpc | healthy hpc hclock =>
      rw [hcount, exits_snoc_of_ne ls (by simp)]
      exact ih n (by rw [hpc]; exact hn)
    | checkTop hpc | checkJoin hpc =>
      -- a check that returns leaves no restart to account for
      rw [hcount, exits_snoc_of_ne ls (by simp)]
      refine ih n ?_
      rw [← hn, hpc]
      cases hc : s.cancelled with
      | true => simp [hc, Pc.outstanding] at hn
      | false => rfl
    | classify hpc =>
      obtain rfl := p.outstanding_classifyOutcome hn
      rw [hcount, exits_snoc_of_ne ls (by simp)]
      exact ih 1 (by rw [hpc]; rfl)
    | budget hpc =>
      rw [hcount, exits_snoc_of_ne ls (by simp)]
      refine ih n ?_
      rw [← hn, hpc]
      cases p.budgetExceeded s.restartHistory <;> rfl
    | backoff hpc hclock =>
      rw [hcount, exits_snoc_of_ne ls (by simp)]
      refine ih n ?_
      rw [← hn, hpc]
      cases (p.sleepFor (bump s.consecutive) _).isZero <;> rfl
    | poll hpc hclock =>
      obtain rfl := outstanding_afterPoll hn
      rw [hcount, exits_snoc_of_ne ls (by simp)]
      exact ih 0 (by rw [hpc]; rfl)

/-! ### Rounds of the loop -/

/-- One round of the loop, as its environment has it: when the instance is spawned, how it ends,
when its exit is read from the clock, and the wall clock at the backoff that follows. -/
structure Round where
  spawnedAt : ℕ
  outcome : Outcome
  exitedAt : ℕ
  wall : ℤ

/-- The statements of a round, from the top of the loop through the budget check. -/
def Round.labels (r : Round) : List Label :=
  [.checkTop, .spawn r.spawnedAt, .join r.outcome, .checkJoin, .healthy r.exitedAt, .classify,
    .record r.exitedAt, .budget]

/-- The consecutive count after the healthy-run heuristic. -/
def streakAfter (consecutive : ℕ) (r : Round) : ℕ :=
  if p.maxBackoff.toNanos ≤ durationSince r.exitedAt r.spawnedAt then 0 else consecutive

/-- The delay before the round that follows. -/
def delayAfter (consecutive : ℕ) (r : Round) : Duration :=
  p.sleepFor (bump (p.streakAfter consecutive r)) r.wall

/-- The rounds can follow one another from the instant `ready` on: an instance is spawned when the
sleep before it is over, or later, and it ends after that, with an outcome worth a restart. -/
def Feasible : ℕ → ℕ → List Round → Prop
  | _, _, [] => True
  | consecutive, ready, r :: rounds =>
    ready ≤ r.spawnedAt ∧ r.spawnedAt ≤ r.exitedAt ∧ p.classifyOutcome r.outcome = .record ∧
      Feasible (bump (p.streakAfter consecutive r))
        (r.exitedAt + (p.delayAfter consecutive r).toNanos) rounds

/-- Where no delay is needed, any instants will do that do not decrease. -/
private theorem feasible_of_sorted (hzero : ∀ n wall, (p.sleepFor n wall).toNanos = 0)
    {rounds : List Round}
    (hrecord : ∀ r ∈ rounds, p.classifyOutcome r.outcome = .record)
    (hspawned : ∀ r ∈ rounds, r.spawnedAt = r.exitedAt) {ready : ℕ}
    (hsorted : (ready :: rounds.map Round.exitedAt).Pairwise (· ≤ ·)) (consecutive : ℕ) :
    p.Feasible consecutive ready rounds := by
  induction rounds generalizing ready consecutive with
  | nil => trivial
  | cons r rounds ih =>
    obtain ⟨hready, hsorted⟩ := List.pairwise_cons.mp hsorted
    have hle : ready ≤ r.exitedAt := hready _ List.mem_cons_self
    have hsame : r.spawnedAt = r.exitedAt := hspawned r List.mem_cons_self
    refine ⟨hsame ▸ hle, hsame.le, hrecord r List.mem_cons_self, ?_⟩
    rw [delayAfter, hzero, Nat.add_zero]
    exact ih (fun r hr => hrecord r (List.mem_cons_of_mem _ hr))
      (fun r hr => hspawned r (List.mem_cons_of_mem _ hr)) hsorted _

/-- The outcomes of the instances that a run has joined. -/
def joined (ls : List Label) : List Outcome :=
  ls.filterMap fun
    | .join outcome => some outcome
    | _ => none

/-- A run makes these rounds, and its token is not cancelled. -/
structure Makes (rounds : List Round) (ls : List Label) : Prop where
  silent : .cancel ∉ ls
  joined_eq : joined ls = rounds.map Round.outcome
  exits_eq : exits ls = rounds.map Round.exitedAt
  instances_eq : instances ls = rounds.length

theorem Makes.append {rounds rounds' : List Round} {ls ls' : List Label} (h : Makes rounds ls)
    (h' : Makes rounds' ls') : Makes (rounds ++ rounds') (ls ++ ls') where
  silent hmem := (List.mem_append.mp hmem).elim h.silent h'.silent
  joined_eq := by
    rw [List.map_append, ← h.joined_eq, ← h'.joined_eq]
    exact List.filterMap_append
  exits_eq := by rw [exits_append, h.exits_eq, h'.exits_eq, List.map_append]
  instances_eq := by rw [instances_append, h.instances_eq, h'.instances_eq, List.length_append]

theorem Round.makes (r : Round) : Makes [r] r.labels :=
  ⟨by simp [labels], rfl, rfl, rfl⟩

variable {p}

/-- **A round of the loop**, from its top through the budget check. -/
theorem exec_round {s : State} {r : Round} (hpc : s.pc = .loopTop) (hc : s.cancelled = false)
    (hspawn : s.clock ≤ r.spawnedAt) (hexit : r.spawnedAt ≤ r.exitedAt)
    (hrecord : p.classifyOutcome r.outcome = .record) :
    p.machine.exec s r.labels = some
      { cancelled := false
        clock := r.exitedAt
        restartHistory := p.recordExit s.restartHistory r.exitedAt
        consecutive := p.streakAfter s.consecutive r
        pc := if p.budgetExceeded (p.recordExit s.restartHistory r.exitedAt) then
            .returned (.error (p.budgetReport (p.recordExit s.restartHistory r.exitedAt)))
          else .backoff } := by
  obtain ⟨cancelled, clock, history, consecutive, pc⟩ := s
  obtain rfl : pc = .loopTop := hpc
  obtain rfl : cancelled = false := hc
  simp only [Round.labels, Machine.exec, machine_step, step, Bool.false_eq_true, if_false,
    Option.bind_some, if_pos hspawn, if_pos hexit, Nat.le_refl, if_true, hrecord, streakAfter]

/-- **The backoff after a round** ends at the top of the loop, when its delay is over. -/
theorem exec_backoff {s : State} (hpc : s.pc = .backoff) (hc : s.cancelled = false) (wall : ℤ) :
    ∃ ls, p.machine.exec s ls = some
        { cancelled := false
          clock := s.clock + (p.sleepFor (bump s.consecutive) wall).toNanos
          restartHistory := s.restartHistory
          consecutive := bump s.consecutive
          pc := .loopTop } ∧ Makes [] ls := by
  have hbackoff : p.step s (.backoff s.clock wall) = _ :=
    (p.step_iff).mpr (.backoff hpc (Nat.le_refl s.clock))
  generalize p.sleepFor (bump s.consecutive) wall = delay at hbackoff ⊢
  cases hzero : delay.isZero with
  | true =>
    rw [if_pos hzero] at hbackoff
    refine ⟨[.backoff s.clock wall], (p.machine.exec_cons_iff).mpr ⟨_, hbackoff, ?_⟩,
      by simp, rfl, rfl, rfl⟩
    rw [Machine.exec_nil, Duration.isZero_iff.mp hzero, hc]
    rfl
  | false =>
    -- the sleep is polled at its deadline
    rw [if_neg (by simp [hzero]), Sleep.start, if_neg (by simp [hzero])] at hbackoff
    have hpoll := (p.step_iff).mpr (Step.poll (p := p)
      (s := ⟨s.cancelled, s.clock, s.restartHistory, bump s.consecutive,
        .sleeping (.select () (s.clock + delay.toNanos))⟩) rfl
      (Nat.le_add_right s.clock delay.toNanos))
    refine ⟨[.backoff s.clock wall, .poll (s.clock + delay.toNanos)],
      (p.machine.exec_cons_iff).mpr ⟨_, hbackoff, (p.machine.exec_cons_iff).mpr ⟨_, hpoll, ?_⟩⟩,
      by simp, rfl, rfl, rfl⟩
    simp [Sleep.poll, hc, afterPoll]

/-- The budget check after a round, in a run: the history is the window of the exits. -/
private theorem budgetExceeded_of_run {ls : List Label} {s : State} (h : p.machine.Run ls s)
    (hfew : (exits ls).length < 2 ^ 32) : p.budgetExceeded s.restartHistory = true ↔
      ∃ cap, p.maxRestarts = some cap ∧ cap.val < (p.recency.recent (exits ls)).length := by
  rw [p.restartHistory_eq_recent h]
  exact p.budgetExceeded_iff (Nat.lt_of_le_of_lt (p.recency.length_recent_le _) hfew)

/-- **Rounds within the budget** are made, one after the other, up to the top of the loop. -/
theorem exists_makes {rounds rest : List Round} {ls : List Label} {s : State}
    (hrun : p.machine.Run ls s) (hpc : s.pc = .loopTop) (hc : s.cancelled = false)
    (hfeasible : p.Feasible s.consecutive s.clock (rounds ++ rest))
    (hfew : (exits ls).length + rounds.length < 2 ^ 32)
    (hwithin : ∀ cap, p.maxRestarts = some cap → ∀ xs, xs <+: rounds.map Round.exitedAt →
      (p.recency.recent (exits ls ++ xs)).length ≤ cap.val) :
    ∃ more s', p.machine.Run (ls ++ more) s' ∧ Makes rounds more ∧ s'.pc = .loopTop ∧
      s'.cancelled = false ∧ p.Feasible s'.consecutive s'.clock rest := by
  induction rounds generalizing ls s with
  | nil => exact ⟨[], s, by rwa [List.append_nil], ⟨by simp, rfl, rfl, rfl⟩, hpc, hc, hfeasible⟩
  | cons r rounds ih =>
    obtain ⟨hspawn, hexit, hrecord, hfeasible⟩ := hfeasible
    have hround := exec_round hpc hc hspawn hexit hrecord
    have hrun₁ := hrun.append hround
    have hexits : exits (ls ++ r.labels) = exits ls ++ [r.exitedAt] := by
      rw [exits_append, r.makes.exits_eq, List.map_singleton]
    rw [List.length_cons] at hfew
    -- the check passes, and the loop backs off
    have hpass : p.budgetExceeded (p.recordExit s.restartHistory r.exitedAt) = false := by
      refine Bool.eq_false_iff.mpr fun hexceeded => ?_
      obtain ⟨cap, hcap, hlt⟩ := (budgetExceeded_of_run hrun₁
        (by rw [hexits, List.length_append, List.length_singleton]; omega)).mp hexceeded
      have hle := hwithin cap hcap [r.exitedAt] (List.prefix_append _ _)
      rw [hexits] at hlt
      exact Nat.not_lt.mpr hle hlt
    rw [hpass, if_neg Bool.false_ne_true] at hround hrun₁
    obtain ⟨pause, hpause, hquiet⟩ := exec_backoff (p := p) (s := ⟨false, r.exitedAt,
      p.recordExit s.restartHistory r.exitedAt, p.streakAfter s.consecutive r, .backoff⟩)
      rfl rfl r.wall
    have hmakes : Makes [r] (r.labels ++ pause) := r.makes.append hquiet
    have hrun₂ := hrun₁.append hpause
    rw [List.append_assoc] at hrun₂
    have hexits₂ : exits (ls ++ (r.labels ++ pause)) = exits ls ++ [r.exitedAt] := by
      rw [exits_append, hmakes.exits_eq, List.map_singleton]
    obtain ⟨more, s', hrun', hmore, hpc', hc', hrest⟩ := ih hrun₂ rfl rfl hfeasible
      (by rw [hexits₂, List.length_append, List.length_singleton]; omega)
      fun cap hcap xs hxs => by
        rw [hexits₂, List.append_assoc]
        exact hwithin cap hcap _ (List.cons_prefix_cons.mpr ⟨rfl, hxs⟩)
    refine ⟨r.labels ++ pause ++ more, s', ?_, hmakes.append hmore, hpc', hc', hrest⟩
    rwa [List.append_assoc] at hrun'

/-- Rounds that keep to the budget are made from the start. -/
private theorem exists_makes_of_init {rounds : List Round} (rest : List Round)
    (hfeasible : p.Feasible 0 0 (rounds ++ rest)) (hfew : rounds.length < 2 ^ 32)
    (hwithin : ∀ cap, p.maxRestarts = some cap → ∀ xs, xs <+: rounds.map Round.exitedAt →
      (p.recency.recent xs).length ≤ cap.val) :
    ∃ ls s, p.machine.Run ls s ∧ Makes rounds ls ∧ s.pc = .loopTop ∧ s.cancelled = false ∧
      p.Feasible s.consecutive s.clock rest := by
  have hinit : p.machine.Run [] p.machine.init := rfl
  exact exists_makes hinit rfl rfl hfeasible (by simpa [exits] using hfew) hwithin

/-- **Rounds that exceed the budget** with their last exit are made as well, and `run` gives up. -/
theorem exists_makes_exhausted {rounds : List Round} (hfeasible : p.Feasible 0 0 rounds)
    (hfew : rounds.length < 2 ^ 32) {cap : NonZeroU32} (hcap : p.maxRestarts = some cap)
    (hfirst : p.recency.FirstExceeds cap.val (rounds.map Round.exitedAt)) :
    ∃ ls s r, p.machine.Run ls s ∧ Makes rounds ls ∧ s.pc = .returned (.error r) ∧
      r.currentContext = .retryExhausted := by
  obtain ⟨hexceeds, hearlier⟩ := hfirst
  rcases rounds.eq_nil_or_concat' with rfl | ⟨front, last, rfl⟩
  · exact absurd hexceeds (Nat.not_lt_zero _)
  rw [List.length_append, List.length_singleton] at hfew
  have hwithin : ∀ cap, p.maxRestarts = some cap → ∀ xs, xs <+: front.map Round.exitedAt →
      (p.recency.recent xs).length ≤ cap.val := by
    intro cap' hcap' xs hxs
    obtain rfl := Option.some_inj.mp (hcap.symm.trans hcap')
    rw [List.map_append] at hearlier
    refine hearlier xs (hxs.trans (List.prefix_append _ _)) fun heq => ?_
    have hle := heq ▸ hxs.length_le
    rw [List.length_append] at hle
    exact Nat.not_succ_le_self _ hle
  obtain ⟨ls, s, hrun, hmakes, hpc, hc, hlast⟩ :=
    exists_makes_of_init [last] hfeasible (Nat.lt_of_succ_lt hfew) hwithin
  obtain ⟨hspawn, hexit, hrecord, -⟩ := hlast
  have hround := hrun.append (exec_round hpc hc hspawn hexit hrecord)
  have hmakes' : Makes (front ++ [last]) (ls ++ last.labels) := hmakes.append last.makes
  have hfew' : (exits (ls ++ last.labels)).length < 2 ^ 32 := by
    rw [hmakes'.exits_eq, List.length_map, List.length_append, List.length_singleton]
    omega
  have hexceeded := (budgetExceeded_of_run hround hfew').mpr ⟨cap, hcap, by rwa [hmakes'.exits_eq]⟩
  exact ⟨_, _, _, hround, hmakes', if_pos hexceeded, rfl⟩

variable (p)

/-! ### The parts of the budget law -/

section

variable {ls : List Label} {s : State}

/-- **When `run` gives up**: at the first exit at which the window holds more than the cap. -/
theorem exhausted_iff_firstExceeds (hrun : p.machine.Run ls s) (hfew : (exits ls).length < 2 ^ 32)
    (hpc : s.pc ≠ .budget) :
    (∃ r, s.pc = .returned (.error r) ∧ r.currentContext = .retryExhausted) ↔
      ∃ cap, p.maxRestarts = some cap ∧ p.recency.FirstExceeds cap.val (exits ls) := by
  have hchecked := p.checked_of_run hrun hfew
  rw [← Pc.exhausted_iff, hchecked.last hpc]
  refine exists_congr fun cap => and_congr_right fun hcap => ?_
  exact ⟨fun hlt => ⟨hlt, hchecked.earlier cap hcap⟩, fun hfirst => hfirst.1⟩

/-- Without a window, giving up takes one instance more than the cap. -/
private theorem instances_of_exhausted (hrun : p.machine.Run ls s)
    (hfew : (exits ls).length < 2 ^ 32)
    {cap : NonZeroU32} {r : UtilsReport} (hcap : p.maxRestarts = some cap)
    (hwindow : p.restartWindow = none) (hpc : s.pc = .returned (.error r))
    (hctx : r.currentContext = .retryExhausted) : instances ls = cap.val + 1 := by
  obtain ⟨cap', hcap', hfirst⟩ :=
    (p.exhausted_iff_firstExceeds hrun hfew (by simp [hpc])).mp ⟨r, hpc, hctx⟩
  obtain rfl : cap' = cap := Option.some_inj.mp (hcap'.symm.trans hcap)
  have hrec : p.recency = Recency.unbounded := by rw [recency, hwindow]
  rw [hrec] at hfirst
  have hout : s.pc.outstanding = some 0 := by rw [hpc]; exact if_pos hctx
  rw [p.instances_eq hrun 0 hout]
  exact Recency.length_of_firstExceeds_unbounded hfirst

/-- A run that has not given up has at most `cap` exits in an interval as long as the window. -/
private theorem countP_exits_le (hrun : p.machine.Run ls s) (hfew : (exits ls).length < 2 ^ 32)
    {cap : NonZeroU32} {window : Duration} (hcap : p.maxRestarts = some cap)
    (hwindow : p.restartWindow = some window) (hpc : s.pc ≠ .budget)
    (hsurvive : ∀ r, s.pc = .returned (.error r) → r.currentContext ≠ .retryExhausted) (a : ℕ) :
    (exits ls).countP (fun t => a ≤ t && t ≤ a + window.toNanos) ≤ cap.val := by
  have hrec : p.recency = windowRecency window := by rw [recency, hwindow]
  have hearlier := (p.checked_of_run hrun hfew).earlier cap hcap
  -- every check made so far has passed
  have hcap_all : ∀ xs, xs <+: exits ls → (p.recency.recent xs).length ≤ cap.val := by
    intro xs hxs
    by_cases heq : xs = exits ls
    · subst heq
      refine Nat.le_of_not_lt fun hlt => ?_
      obtain ⟨r, hr, hctx⟩ :=
        (p.exhausted_iff_firstExceeds hrun hfew hpc).mpr ⟨cap, hcap, hlt, hearlier⟩
      exact hsurvive r hr hctx
    · exact hearlier xs hxs heq
  refine p.recency.countP_le_of_forall_recent hcap_all (p.exits_sorted hrun).1 ?_
  intro t t' ht ht' hle
  simp only [Bool.and_eq_true, decide_eq_true_eq] at ht ht'
  rw [hrec]
  exact decide_eq_true (show t' - t ≤ window.toNanos by omega)

end

/-! ### The budget law -/

/-- **The restart budget over a rolling window**, for every policy.

In every run with fewer than `2^32` recorded exits the restart history is the window of the
recorded exits; once the check at the last exit is made, which it can be, `run` has returned
`RetryExhausted` exactly when that exit is the first one at which the window holds more than the
cap; without a window this takes `cap + 1` instances; and while `run` has not given up, no closed
interval as long as the window holds more than the cap.

And the loop does all this: whatever the outcomes that are worth a restart, and whenever the
instances exit that it has spawned after its sleeps, it records every exit, goes on to the next
round as long as the budget holds, and gives up at the first exit that exceeds it. -/
theorem run_restart_budget :
    (∀ ls s, p.machine.Run ls s → (exits ls).length < 2 ^ 32 →
      s.restartHistory = p.recency.recent (exits ls) ∧
      (s.pc ≠ .budget →
        ((∃ r, s.pc = .returned (.error r) ∧ r.currentContext = .retryExhausted) ↔
          ∃ cap, p.maxRestarts = some cap ∧ p.recency.FirstExceeds cap.val (exits ls))) ∧
      (s.pc = .budget → ∃ s', p.machine.Run (ls ++ [.budget]) s' ∧ s'.pc ≠ .budget) ∧
      (∀ cap r, p.maxRestarts = some cap → p.restartWindow = none →
        s.pc = .returned (.error r) → r.currentContext = .retryExhausted →
        instances ls = cap.val + 1) ∧
      (∀ cap window, p.maxRestarts = some cap → p.restartWindow = some window →
        s.pc ≠ .budget →
        (∀ r, s.pc = .returned (.error r) → r.currentContext ≠ .retryExhausted) →
        ∀ a, (exits ls).countP (fun t => a ≤ t && t ≤ a + window.toNanos) ≤ cap.val)) ∧
    ∀ rounds : List Round, p.Feasible 0 0 rounds → rounds.length < 2 ^ 32 →
      (∀ cap, p.maxRestarts = some cap →
        p.recency.FirstExceeds cap.val (rounds.map Round.exitedAt) →
        ∃ ls s r, p.machine.Run ls s ∧ Makes rounds ls ∧ s.pc = .returned (.error r) ∧
          r.currentContext = .retryExhausted) ∧
      ((∀ cap, p.maxRestarts = some cap → ∀ xs, xs <+: rounds.map Round.exitedAt →
          (p.recency.recent xs).length ≤ cap.val) →
        ∃ ls s, p.machine.Run ls s ∧ Makes rounds ls ∧ s.pc = .loopTop) := by
  refine ⟨fun ls s hrun hfew => ⟨p.restartHistory_eq_recent hrun,
    p.exhausted_iff_firstExceeds hrun hfew, fun hpc => ?_, fun cap r => ?_, fun cap window => ?_⟩,
    fun rounds hfeasible hfew => ⟨fun cap => exists_makes_exhausted hfeasible hfew,
      fun hwithin => ?_⟩⟩
  · have hl := (p.step_iff).mpr (.budget hpc)
    refine ⟨_, hrun.snoc hl, fun heq => ?_⟩
    dsimp only at heq
    split at heq <;> contradiction
  · exact p.instances_of_exhausted hrun hfew
  · exact p.countP_exits_le hrun hfew
  · obtain ⟨ls, s, hrun, hmakes, hpc, -⟩ :=
      exists_makes_of_init [] (by rwa [List.append_nil]) hfew hwithin
    exact ⟨ls, s, hrun, hmakes, hpc⟩

/-- One restart per ten nanoseconds and no backoff. -/
def tightPolicy : Supervisor :=
  { new with
    maxRestarts := some ⟨1, by decide, by decide⟩
    restartWindow := some (Duration.fromNanos 10)
    baseBackoff := Duration.zero
    jitter := false }

/-- One round of the loop whose instance panics, exits at `now` and is restarted. -/
def crashRound (now : ℕ) : List Label :=
  [.checkTop, .spawn now, .join (.error ⟨true, "boom"⟩), .checkJoin, .healthy now, .classify,
    .record now, .budget]

/-- Three crashes, at `5`, `20` and `22`. -/
def threeCrashes : List Label :=
  crashRound 5 ++ [.backoff 5 0] ++ crashRound 20 ++ [.backoff 20 0] ++ crashRound 22

/-- The state the three crashes lead to. -/
def afterThreeCrashes : State :=
  ⟨false, 22, [20, 22], 2, .returned (.error (tightPolicy.budgetReport [20, 22]))⟩

/-- The first of the three crashes has left the window at the third, which is the first to
find two exits in it, so the loop gives up. -/
theorem run_restart_budget_threeCrashes :
    tightPolicy.machine.Run threeCrashes afterThreeCrashes ∧
      [20, 22] = tightPolicy.recency.recent (exits threeCrashes) ∧
      (∃ cap, tightPolicy.maxRestarts = some cap ∧
        tightPolicy.recency.FirstExceeds cap.val (exits threeCrashes)) ∧
      ∃ ls s r, tightPolicy.machine.Run ls s ∧ exits ls = [5, 20, 22] ∧ instances ls = 3 ∧
        s.pc = .returned (.error r) ∧ r.currentContext = .retryExhausted := by
  have hrun : tightPolicy.machine.Run threeCrashes afterThreeCrashes := by decide +kernel
  obtain ⟨hevery, hmade⟩ := tightPolicy.run_restart_budget
  obtain ⟨hhistory, hiff, -⟩ := hevery _ _ hrun (by decide)
  have hfirst := (hiff (by simp [afterThreeCrashes])).mp ⟨_, rfl, rfl⟩
  let rounds : List Round := [⟨5, .error ⟨true, "boom"⟩, 5, 0⟩, ⟨20, .error ⟨true, "boom"⟩, 20, 0⟩,
    ⟨22, .error ⟨true, "boom"⟩, 22, 0⟩]
  have hzero : ∀ n wall, (tightPolicy.sleepFor n wall).toNanos = 0 := fun n wall =>
    Duration.isZero_iff.mp (isZero_computeDelay_iff.mpr (Or.inl rfl))
  have hfeasible : tightPolicy.Feasible 0 0 rounds :=
    tightPolicy.feasible_of_sorted hzero (by decide) (by decide) (by decide) 0
  obtain ⟨cap, hcap, hexceeds⟩ := hfirst
  obtain ⟨ls, s, r, hls, hmakes, hpc, hctx⟩ :=
    (hmade rounds hfeasible (by decide)).1 cap hcap hexceeds
  exact ⟨hrun, hhistory, ⟨cap, hcap, hexceeds⟩, ls, s, r, hls, hmakes.exits_eq,
    hmakes.instances_eq, hpc, hctx⟩

end Supervisor

end RustUtils
