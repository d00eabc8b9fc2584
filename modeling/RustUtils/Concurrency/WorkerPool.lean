import Mathlib.Algebra.Group.Nat.Defs
import Mathlib.Data.List.Nodup
import RustUtils.Transition.Tasks

/-!
# `WorkerPool`

The owner of the pool is the main party: it submits one job at a time, reaps finished tasks
and finally joins the pool. Every spawned job is a task that holds a permit of the semaphore
from its spawn to its end. A `submit` may be dropped wherever it can be suspended: before
its first poll, while it waits for a permit, and when a permit has been handed to it that it
has not taken yet.

Jobs carry a ticket, their position in the order of the `submit` calls, and `events` is the
history of the tickets in a run. `worker_pool_safety` collects what holds of every
interleaving.
-/

namespace RustUtils

open Transition

namespace WorkerPool

variable {T : Type}

/-- `Semaphore::MAX_PERMITS` for a 64-bit `usize`. -/
def maxPermits : ℕ := (2 ^ 64 - 1) / 8

/-- Where a spawned job stands. -/
inductive Phase where
  /-- Spawned, and not polled yet. -/
  | spawned
  /-- The handler has been called with the job. -/
  | running
  | completed
  | panicked
  deriving DecidableEq

namespace Phase

/-- The task has ended: its permit is dropped and the `JoinSet` can reap it. -/
def finished : Phase → Bool
  | completed | panicked => true
  | _ => false

/-- How often the handler has been called. -/
def calls : Phase → ℕ
  | spawned => 0
  | _ => 1

end Phase

/-- A job on its way: its ticket and its payload. -/
structure Job (T : Type) where
  ticket : ℕ
  payload : T
  deriving DecidableEq

/-- A spawned task of the pool. -/
structure Task (T : Type) where
  job : Job T
  phase : Phase
  deriving DecidableEq

/-- The task has not finished; it holds its permit until then. -/
def Task.live (t : Task T) : Bool := !t.phase.finished

/-- Where the owner of the pool stands. -/
inductive Owner (T : Type) where
  | idle
  /-- `submit` has been called, and not polled yet. -/
  | called (job : Job T)
  /-- In the reaping loop of `submit`. -/
  | reaping (job : Job T)
  /-- Suspended in `acquire_owned`. -/
  | waiting (job : Job T)
  /-- A permit has been handed to this `submit`. -/
  | granted (job : Job T)
  /-- In the loop of `join`. -/
  | joining
  /-- `join` has returned. -/
  | joined
  deriving DecidableEq

/-- The pool and its owner. -/
structure Pool (T : Type) where
  /-- The permits of the semaphore that nobody holds. -/
  available : ℕ
  /-- The `JoinSet`. -/
  joins : List ℕ
  owner : Owner T
  /-- The next ticket. -/
  tickets : ℕ
  deriving DecidableEq

/-- A move of the owner. -/
inductive Move (T : Type) where
  | submit (payload : T)
  /-- The first poll of a `submit`. -/
  | enter
  /-- `try_join_next` returns a finished task. -/
  | reap (i : ℕ)
  /-- `try_join_next` returns `None`. -/
  | reaped
  /-- The semaphore hands a permit to the waiting `submit`. -/
  | acquire
  /-- The pending `submit` is dropped. -/
  | drop
  /-- The job is spawned and `submit` returns. -/
  | spawn
  | join
  /-- `join_next` returns a finished task. -/
  | joinNext (i : ℕ)
  /-- `join_next` returns `None` and `join` returns. -/
  | joined
  deriving DecidableEq

/-- A step of a spawned job. -/
inductive Act where
  /-- The first poll: the handler is called with the job. -/
  | start
  | complete
  | panic
  deriving DecidableEq

/-- The configurations of a pool and its tasks. -/
abbrev State (T : Type) := Config (Pool T) (Task T)

/-- The moves of a pool and its tasks. -/
abbrev Label (T : Type) := Transition.Move (Move T) Act

/-! ### The moves -/

/-- Task `i` has finished. -/
def isFinished (s : State T) (i : ℕ) : Bool := s.look (·.phase.finished) false i

/-- A move of the owner. -/
def owner (s : State T) (g : Move T) : Option (Pool T × List (Task T)) :=
  let pool := s.shared
  match g, pool.owner with
  | .submit payload, .idle =>
    some ({ pool with owner := .called ⟨pool.tickets, payload⟩, tickets := pool.tickets + 1 }, [])
  | .enter, .called job => some ({ pool with owner := .reaping job }, [])
  | .reap i, .reaping _ =>
    if i ∈ pool.joins ∧ isFinished s i = true then
      some ({ pool with joins := pool.joins.erase i }, [])
    else none
  | .reaped, .reaping job =>
    if pool.joins.any (isFinished s) then none
    else some ({ pool with owner := .waiting job }, [])
  | .acquire, .waiting job =>
    if 0 < pool.available then
      some ({ pool with available := pool.available - 1, owner := .granted job }, [])
    else none
  | .drop, .called _ => some ({ pool with owner := .idle }, [])
  | .drop, .waiting _ => some ({ pool with owner := .idle }, [])
  | .drop, .granted _ =>
    some ({ pool with available := pool.available + 1, owner := .idle }, [])
  | .spawn, .granted job =>
    some ({ pool with joins := pool.joins ++ [s.tasks.length], owner := .idle }, [⟨job, .spawned⟩])
  | .join, .idle => some ({ pool with owner := .joining }, [])
  | .joinNext i, .joining =>
    if i ∈ pool.joins ∧ isFinished s i = true then
      some ({ pool with joins := pool.joins.erase i }, [])
    else none
  | .joined, .joining =>
    if pool.joins = [] then some ({ pool with owner := .joined }, []) else none
  | _, _ => none

/-- A step of a spawned job. The permit lives in the task, so it is dropped when the task
ends, by a return of the handler or by unwinding. -/
def act (pool : Pool T) (t : Task T) (a : Act) : Option (Pool T × Task T) :=
  match a, t.phase with
  | .start, .spawned => some (pool, { t with phase := .running })
  | .complete, .running =>
    some ({ pool with available := pool.available + 1 }, { t with phase := .completed })
  | .panic, .running =>
    some ({ pool with available := pool.available + 1 }, { t with phase := .panicked })
  | _, _ => none

/-- A pool with `maxConcurrent` permits. -/
def system (maxConcurrent : ℕ) : TaskSystem (Pool T) (Task T) (Move T) Act where
  init := ⟨maxConcurrent, [], .idle, 0⟩
  main := owner
  act pool _ t a := act pool t a

/-- `WorkerPool::new`; `Semaphore::new` panics above `MAX_PERMITS`. -/
def new (maxConcurrent : ℕ) : Option (TaskSystem (Pool T) (Task T) (Move T) Act) :=
  if 0 < maxConcurrent ∧ maxConcurrent ≤ maxPermits then some (system maxConcurrent) else none

/-! ### Inversion of the moves -/

/-- What a move of the owner can do. -/
inductive Owns (s : State T) : Move T → Pool T → List (Task T) → Prop
  | submit {payload : T} (ho : s.shared.owner = .idle) :
      Owns s (.submit payload) { s.shared with
        owner := .called ⟨s.shared.tickets, payload⟩, tickets := s.shared.tickets + 1 } []
  | enter {job : Job T} (ho : s.shared.owner = .called job) :
      Owns s .enter { s.shared with owner := .reaping job } []
  | reap {i : ℕ} {job : Job T} (ho : s.shared.owner = .reaping job) (hmem : i ∈ s.shared.joins)
      (hfin : isFinished s i = true) :
      Owns s (.reap i) { s.shared with joins := s.shared.joins.erase i } []
  | reaped {job : Job T} (ho : s.shared.owner = .reaping job)
      (hnone : ∀ i ∈ s.shared.joins, isFinished s i = false) :
      Owns s .reaped { s.shared with owner := .waiting job } []
  | acquire {job : Job T} (ho : s.shared.owner = .waiting job) (hpos : 0 < s.shared.available) :
      Owns s .acquire
        { s.shared with available := s.shared.available - 1, owner := .granted job } []
  | drop {job : Job T} (ho : s.shared.owner = .called job ∨ s.shared.owner = .waiting job) :
      Owns s .drop { s.shared with owner := .idle } []
  | dropGranted {job : Job T} (ho : s.shared.owner = .granted job) :
      Owns s .drop { s.shared with available := s.shared.available + 1, owner := .idle } []
  | spawn {job : Job T} (ho : s.shared.owner = .granted job) :
      Owns s .spawn
        { s.shared with joins := s.shared.joins ++ [s.tasks.length], owner := .idle }
        [⟨job, .spawned⟩]
  | join (ho : s.shared.owner = .idle) : Owns s .join { s.shared with owner := .joining } []
  | joinNext {i : ℕ} (ho : s.shared.owner = .joining) (hmem : i ∈ s.shared.joins)
      (hfin : isFinished s i = true) :
      Owns s (.joinNext i) { s.shared with joins := s.shared.joins.erase i } []
  | joined (ho : s.shared.owner = .joining) (hempty : s.shared.joins = []) :
      Owns s .joined { s.shared with owner := .joined } []

theorem owns_of_owner {s : State T} {g : Move T} {pool : Pool T} {spawned : List (Task T)}
    (h : owner s g = some (pool, spawned)) : Owns s g pool spawned := by
  unfold owner at h
  dsimp only at h
  split at h
  all_goals simp only [Option.ite_none_right_eq_some, Option.ite_none_left_eq_some,
    Option.some_inj, Prod.mk.injEq, reduceCtorEq] at h
  · obtain ⟨rfl, rfl⟩ := h
    exact .submit ‹_›
  · obtain ⟨rfl, rfl⟩ := h
    exact .enter ‹_›
  · obtain ⟨⟨hmem, hfin⟩, rfl, rfl⟩ := h
    exact .reap ‹_› hmem hfin
  · obtain ⟨hnone, rfl, rfl⟩ := h
    exact .reaped ‹_› (by simpa using hnone)
  · obtain ⟨hpos, rfl, rfl⟩ := h
    exact .acquire ‹_› hpos
  · obtain ⟨rfl, rfl⟩ := h
    exact .drop (Or.inl ‹_›)
  · obtain ⟨rfl, rfl⟩ := h
    exact .drop (Or.inr ‹_›)
  · obtain ⟨rfl, rfl⟩ := h
    exact .dropGranted ‹_›
  · obtain ⟨rfl, rfl⟩ := h
    exact .spawn ‹_›
  · obtain ⟨rfl, rfl⟩ := h
    exact .join ‹_›
  · obtain ⟨⟨hmem, hfin⟩, rfl, rfl⟩ := h
    exact .joinNext ‹_› hmem hfin
  · obtain ⟨hempty, rfl, rfl⟩ := h
    exact .joined ‹_› hempty

/-- The owner spawns tasks that have not been polled. -/
private theorem Owns.phase_eq {s : State T} {g : Move T} {pool : Pool T} {spawned : List (Task T)}
    (h : Owns s g pool spawned) : ∀ t ∈ spawned, t.phase = .spawned := by
  cases h <;> simp

/-- What a step of a spawned job can do. -/
inductive Acts (pool : Pool T) (t : Task T) : Act → Pool T → Phase → Prop
  | start (hp : t.phase = .spawned) : Acts pool t .start pool .running
  | complete (hp : t.phase = .running) :
      Acts pool t .complete { pool with available := pool.available + 1 } .completed
  | panic (hp : t.phase = .running) :
      Acts pool t .panic { pool with available := pool.available + 1 } .panicked

theorem acts_of_act {pool pool' : Pool T} {t t' : Task T} {a : Act}
    (h : act pool t a = some (pool', t')) : ∃ p, t' = ⟨t.job, p⟩ ∧ Acts pool t a pool' p := by
  unfold act at h
  split at h
  all_goals simp only [Option.some_inj, Prod.mk.injEq, reduceCtorEq] at h
  all_goals obtain ⟨rfl, rfl⟩ := h
  · exact ⟨_, rfl, .start ‹_›⟩
  · exact ⟨_, rfl, .complete ‹_›⟩
  · exact ⟨_, rfl, .panic ‹_›⟩

/-- A step of a task that has not finished moves its permit, if at all, back to the
semaphore. -/
private theorem Acts.available_eq {pool pool' : Pool T} {t : Task T} {a : Act} {p : Phase}
    (h : Acts pool t a pool' p) :
    pool'.available + (if Task.live ⟨t.job, p⟩ then 1 else 0) = pool.available + 1 := by
  cases h <;> rfl

theorem Acts.live {pool pool' : Pool T} {t : Task T} {a : Act} {p : Phase}
    (h : Acts pool t a pool' p) : t.live = true := by
  cases h <;> simp [Task.live, Phase.finished, *]

/-- A step of a task touches neither the owner nor the `JoinSet`. -/
theorem Acts.frame {pool pool' : Pool T} {t : Task T} {a : Act} {p : Phase}
    (h : Acts pool t a pool' p) :
    pool'.owner = pool.owner ∧ pool'.joins = pool.joins ∧ pool'.tickets = pool.tickets := by
  cases h <;> exact ⟨rfl, rfl, rfl⟩

/-! ### The history of the jobs -/

/-- The job of the `submit` in progress. -/
def Owner.job : Owner T → Option (Job T)
  | called job | reaping job | waiting job | granted job => some job
  | _ => none

/-- The permits held by the `submit` in progress. -/
def Owner.permits : Owner T → ℕ
  | granted _ => 1
  | _ => 0

/-- What happens to a job. -/
inductive Event (T : Type) where
  /-- Its `submit` has returned. -/
  | returned (job : Job T)
  /-- Its `submit` has been dropped. -/
  | dropped (job : Job T)
  /-- The handler has been called with it. -/
  | called (job : Job T)
  deriving DecidableEq

/-- What a move does to a job. -/
def event (s : State T) : Label T → List (Event T)
  | .main .spawn => s.shared.owner.job.toList.map .returned
  | .main .drop => s.shared.owner.job.toList.map .dropped
  | .act i .start => (s.tasks[i]?).toList.map fun t => .called t.job
  | _ => []

/-- The history of the jobs in a run. -/
def events (n : ℕ) (ls : List (Label T)) : List (Event T) :=
  (system n).machine.observe event (system n).machine.init ls

variable {n : ℕ} {ls : List (Label T)} {s : State T}

private theorem events_snoc {l : Label T} (h : (system n).machine.Run ls s) :
    events n (ls ++ [l]) = events n ls ++ event s l :=
  Machine.observe_snoc _ _ h

/-- A task's own steps only call the handler. -/
private theorem called_of_mem_event (s : State T) (i : ℕ) (a : Act) :
    ∀ ev ∈ event s (.act i a), ∃ job, ev = .called job := by
  intro ev hev
  cases a with
  | start =>
    obtain ⟨t, -, rfl⟩ := List.mem_map.mp hev
    exact ⟨t.job, rfl⟩
  | complete | panic => exact absurd hev List.not_mem_nil

/-! ### Permits -/

/-- **Permit conservation**: every permit is available, held by a task that has not
finished, or handed to the `submit` in progress. -/
theorem permits_eq (h : (system n).machine.Run ls s) :
    s.shared.available + s.tasks.countP Task.live +
      s.shared.owner.permits = n := by
  refine h.invariant (P := fun s =>
    s.shared.available + s.tasks.countP Task.live +
      s.shared.owner.permits = n) rfl ?_
  intro s l s' ih hl
  cases ((system n).step_iff).mp hl with
  | main hmain =>
    rw [List.countP_append]
    cases owns_of_owner hmain with
    | acquire ho hpos =>
      -- the permit goes from the semaphore to the `submit`, and from there to the task
      rw [ho] at ih
      simp only [Owner.permits, List.countP_nil] at ih ⊢
      omega
    | drop ho =>
      rcases ho with ho | ho <;> simpa [ho, Owner.permits] using ih
    | dropGranted ho =>
      rw [ho] at ih
      simp only [Owner.permits, List.countP_nil] at ih ⊢
      omega
    | @spawn job ho =>
      have hlive : Task.live ⟨job, .spawned⟩ = true := rfl
      rw [ho] at ih
      simp only [Owner.permits, List.countP_singleton, hlive, if_true] at ih ⊢
      omega
    | reap ho | joinNext ho => exact ih
    | submit ho | enter ho | reaped ho | join ho | joined ho =>
      simpa [ho, Owner.permits] using ih
  | @act i a t t' pool htask hact =>
    have hcount : (s.tasks.set i t').countP Task.live + _ = _ := Config.countP_act htask
    obtain ⟨p, rfl, hacts⟩ := acts_of_act hact
    have havailable := hacts.available_eq
    rw [hacts.live, if_pos rfl] at hcount
    dsimp only
    rw [hacts.frame.1]
    omega

/-! ### Tickets -/

/-- The jobs of the spawned tasks. -/
def jobs (s : State T) : List (Job T) := s.tasks.map (·.job)

/-- The tickets below it are settled: their job is spawned or its `submit` dropped. -/
def settled (pool : Pool T) : ℕ :=
  match pool.owner.job with
  | some job => job.ticket
  | none => pool.tickets

/-- The tickets of a run are used in order, each for one job. -/
structure Tickets (es : List (Event T)) (s : State T) : Prop where
  sorted : (jobs s).Pairwise fun j k => j.ticket < k.ticket
  lt_settled : ∀ job ∈ jobs s, job.ticket < settled s.shared
  lt_tickets : ∀ job, s.shared.owner.job = some job → job.ticket < s.shared.tickets
  returned_iff : ∀ job, .returned job ∈ es ↔ job ∈ jobs s
  dropped : ∀ job, .dropped job ∈ es →
    job.ticket < settled s.shared ∧ ∀ job' ∈ jobs s, job'.ticket ≠ job.ticket

/-- A move that settles no ticket. -/
private theorem Tickets.quiet {es e : List (Event T)} {s s' : State T} (h : Tickets es s)
    (hjobs : jobs s' = jobs s) (hsettled : settled s'.shared = settled s.shared)
    (hlt : ∀ job, s'.shared.owner.job = some job → job.ticket < s'.shared.tickets)
    (hquiet : ∀ ev ∈ e, ∃ job, ev = .called job) : Tickets (es ++ e) s' := by
  have hmem : ∀ ev, (∀ job, ev ≠ .called job) → (ev ∈ es ++ e ↔ ev ∈ es) := by
    intro ev hne
    refine ⟨fun hev => (List.mem_append.mp hev).resolve_right fun hnew => ?_,
      List.mem_append_left e⟩
    obtain ⟨job, rfl⟩ := hquiet ev hnew
    exact hne job rfl
  refine ⟨hjobs ▸ h.sorted, ?_, hlt, fun job => ?_, fun job hjob => ?_⟩
  · rw [hjobs, hsettled]
    exact h.lt_settled
  · rw [hmem _ (by simp), hjobs, h.returned_iff]
  · rw [hjobs, hsettled]
    exact h.dropped job ((hmem _ (by simp)).mp hjob)

/-- Dropping the `submit` in progress settles its ticket without a task. -/
private theorem Tickets.drop {es : List (Event T)} {s s' : State T} {job : Job T} (h : Tickets es s)
    (howner : s.shared.owner.job = some job) (hjobs : jobs s' = jobs s)
    (howner' : s'.shared.owner.job = none) (htickets : s'.shared.tickets = s.shared.tickets) :
    Tickets (es ++ [.dropped job]) s' := by
  have hsettled : settled s.shared = job.ticket := by rw [settled, howner]
  have hsettled' : settled s'.shared = s.shared.tickets := by rw [settled, howner', htickets]
  have hlt : job.ticket < s.shared.tickets := h.lt_tickets job howner
  refine ⟨hjobs ▸ h.sorted, fun j hj => ?_, fun j hj => ?_, fun j => ?_, fun j hj => ?_⟩
  · rw [hjobs] at hj
    have := h.lt_settled j hj
    omega
  · simp [howner'] at hj
  · rw [hjobs, ← h.returned_iff]
    simp
  · rw [hjobs, hsettled']
    rcases List.mem_append.mp hj with hj | hj
    · have := h.dropped j hj
      exact ⟨by omega, this.2⟩
    · obtain rfl : j = job := by simpa using hj
      refine ⟨hlt, fun k hk => ?_⟩
      have := h.lt_settled k hk
      omega

/-- Spawning the submitted job settles its ticket with a task. -/
private theorem Tickets.spawn {es : List (Event T)} {s s' : State T} {job : Job T}
    (h : Tickets es s)
    (howner : s.shared.owner.job = some job) (hjobs : jobs s' = jobs s ++ [job])
    (howner' : s'.shared.owner.job = none) (htickets : s'.shared.tickets = s.shared.tickets) :
    Tickets (es ++ [.returned job]) s' := by
  have hsettled : settled s.shared = job.ticket := by rw [settled, howner]
  have hsettled' : settled s'.shared = s.shared.tickets := by rw [settled, howner', htickets]
  have hlt : job.ticket < s.shared.tickets := h.lt_tickets job howner
  refine ⟨?_, fun j hj => ?_, fun j hj => ?_, fun j => ?_, fun j hj => ?_⟩
  · rw [hjobs]
    refine List.pairwise_append.mpr ⟨h.sorted, List.pairwise_singleton _ _, fun j hj k hk => ?_⟩
    obtain rfl := List.mem_singleton.mp hk
    exact hsettled ▸ h.lt_settled j hj
  · rw [hjobs] at hj
    rcases List.mem_append.mp hj with hj | hj
    · have := h.lt_settled j hj
      omega
    · obtain rfl := List.mem_singleton.mp hj
      omega
  · simp [howner'] at hj
  · rw [hjobs, List.mem_append, List.mem_append, h.returned_iff]
    simp
  · have hj' : .dropped j ∈ es := by simpa using hj
    obtain ⟨hsettledj, hne⟩ := h.dropped j hj'
    refine ⟨by omega, fun k hk => ?_⟩
    rw [hjobs] at hk
    rcases List.mem_append.mp hk with hk | hk
    · exact hne k hk
    · obtain rfl := List.mem_singleton.mp hk
      omega

private theorem tickets_of_run (h : (system n).machine.Run ls s) : Tickets (events n ls) s := by
  refine h.induct (I := fun ls s => Tickets (events n ls) s) ?_ ?_
  · exact ⟨List.Pairwise.nil, fun job hj => absurd hj List.not_mem_nil,
      fun job hj => absurd hj (by simp [TaskSystem.machine, system, Owner.job]),
      fun job => by simp [events, jobs, TaskSystem.machine],
      fun job hj => absurd hj List.not_mem_nil⟩
  · intro ls l s s' hrun ih hl
    rw [events_snoc hrun]
    have hlt := ih.lt_tickets
    cases ((system n).step_iff).mp hl with
    | main hmain =>
      cases owns_of_owner hmain with
      | submit ho =>
        refine ih.quiet (by simp [jobs]) (by simp [settled, ho, Owner.job]) ?_ (by simp [event])
        rintro job hjob
        obtain rfl := Option.some_inj.mp hjob
        exact Nat.lt_succ_self _
      | drop ho =>
        rcases ho with ho | ho <;>
          simpa [event, ho, Owner.job] using
            ih.drop (by rw [ho]; rfl) (by simp [jobs]) (by rfl) (by rfl)
      | dropGranted ho =>
        simpa [event, ho, Owner.job] using
          ih.drop (by rw [ho]; rfl) (by simp [jobs]) (by rfl) (by rfl)
      | spawn ho =>
        simpa [event, ho, Owner.job] using
          ih.spawn (by rw [ho]; rfl) (by simp [jobs]) (by rfl) (by rfl)
      | reap ho | joinNext ho =>
        exact ih.quiet (by simp [jobs]) rfl hlt (by simp [event])
      | enter ho | reaped ho | acquire ho =>
        exact ih.quiet (by simp [jobs]) (by simp [settled, ho, Owner.job])
          (by simpa [ho, Owner.job] using hlt) (by simp [event])
      | join ho | joined ho =>
        exact ih.quiet (by simp [jobs]) (by simp [settled, ho, Owner.job])
          (by simp [Owner.job]) (by simp [event])
    | @act i a t t' pool htask hact =>
      obtain ⟨p, rfl, hacts⟩ := acts_of_act hact
      obtain ⟨howner, -, htickets⟩ := hacts.frame
      refine ih.quiet (Config.map_act htask rfl) ?_ ?_ (called_of_mem_event s i a)
      · dsimp only
        rw [settled, settled, howner, htickets]
      · dsimp only
        rwa [howner, htickets]

/-! ### Calls of the handler -/

/-- The handler has been called with the job of this task. -/
def Task.called [DecidableEq T] (job : Job T) (t : Task T) : Bool :=
  t.job = job && t.phase ≠ .spawned

/-- The handler is called with a job by the task of that job, when it starts. -/
private theorem count_called [DecidableEq T] (h : (system n).machine.Run ls s) (job : Job T) :
    (events n ls).count (.called job) = s.tasks.countP (Task.called job) := by
  refine h.induct (I := fun ls s =>
    (events n ls).count (.called job) = s.tasks.countP (Task.called job)) rfl ?_
  intro ls l s s' hrun ih hl
  rw [events_snoc hrun, List.count_append, ih]
  cases ((system n).step_iff).mp hl with
  | @main g pool spawned hmain =>
    have hnone : (event s (.main g)).count (.called job) = 0 := by
      refine List.count_eq_zero.mpr ?_
      cases g <;> simp [event]
    have hspawned : spawned.countP (Task.called job) = 0 := by
      refine List.countP_eq_zero.mpr fun t ht => ?_
      simp [Task.called, (owns_of_owner hmain).phase_eq t ht]
    rw [hnone, List.countP_append, hspawned]
  | @act i a t t' pool htask hact =>
    have hcount : (s.tasks.set i t').countP (Task.called job) + _ = _ := Config.countP_act htask
    obtain ⟨p, rfl, hacts⟩ := acts_of_act hact
    cases hacts with
    | start hp =>
      have hevent : event s (.act i .start) = [.called t.job] := by simp [event, htask]
      rw [hevent, List.count_singleton]
      simp only [Task.called, hp, ne_eq, not_true, decide_false, Bool.and_false,
        Bool.false_eq_true, if_false, reduceCtorEq, not_false_eq_true, decide_true,
        Bool.and_true, decide_eq_true_eq] at hcount
      simp only [beq_iff_eq, Event.called.injEq]
      exact hcount.symm
    | complete hp | panic hp =>
      simp only [Task.called, hp, ne_eq, reduceCtorEq, not_false_eq_true, decide_true,
        Bool.and_true, decide_eq_true_eq] at hcount
      simp only [event, List.count_nil, Nat.add_zero]
      exact (Nat.add_right_cancel hcount).symm

/-! ### Joining -/

/-- The `JoinSet` loses finished tasks only, and is empty once `join` has returned. -/
private theorem joins_of_run (h : (system n).machine.Run ls s) :
    (∀ i, i < s.tasks.length → isFinished s i = false → i ∈ s.shared.joins) ∧
      (s.shared.owner = .joined → s.shared.joins = []) := by
  refine h.invariant (P := fun s =>
    (∀ i, i < s.tasks.length → isFinished s i = false → i ∈ s.shared.joins) ∧
      (s.shared.owner = .joined → s.shared.joins = [])) ⟨?_, fun _ => rfl⟩ ?_
  · exact fun i hi => absurd hi (Nat.not_lt_zero i)
  · rintro s l s' ⟨hmem, hjoined⟩ hl
    cases ((system n).step_iff).mp hl with
    | @main g pool spawned hmain =>
      have howns := owns_of_owner hmain
      have hlook : ∀ i, isFinished ⟨pool, s.tasks ++ spawned⟩ i = isFinished s i :=
        Config.look_spawn fun t ht => by rw [howns.phase_eq t ht]; rfl
      simp only [hlook]
      cases howns with
      | @spawn job ho =>
        refine ⟨fun i hi hfin => ?_, by simp⟩
        by_cases hlt : i < s.tasks.length
        · exact List.mem_append_left _ (hmem i hlt hfin)
        · have heq : i = s.tasks.length := by
            rw [List.length_append, List.length_singleton] at hi
            omega
          exact List.mem_append_right _ (List.mem_singleton.mpr heq)
      | @reap i job ho hin hfin | @joinNext i ho hin hfin =>
        -- only a finished task is taken out
        refine ⟨fun j hj hlive => ?_, by simp [ho]⟩
        have hne : j ≠ i := fun heq => by simp [heq, hfin] at hlive
        rw [List.append_nil] at hj
        exact (List.mem_erase_of_ne hne).mpr (hmem j hj hlive)
      | joined ho hempty => exact ⟨by simpa using hmem, fun _ => hempty⟩
      | _ => exact ⟨by simpa using hmem, by simp⟩
    | @act i a t t' pool htask hact =>
      obtain ⟨p, rfl, hacts⟩ := acts_of_act hact
      obtain ⟨howner, hjoins, -⟩ := hacts.frame
      refine ⟨fun j hj hlive => ?_, ?_⟩
      · rw [List.length_set] at hj
        dsimp only
        rw [hjoins]
        rw [isFinished, Config.look_act htask] at hlive
        by_cases hij : j = i
        · subst hij
          refine hmem j hj ?_
          have := hacts.live
          rw [isFinished, Config.look_of_getElem? htask]
          simpa [Task.live] using this
        · exact hmem j hj (by rwa [if_neg hij] at hlive)
      · dsimp only
        rwa [howner, hjoins]

/-- Every task has finished once `join` has returned. -/
private theorem finished_of_joined (h : (system n).machine.Run ls s)
    (hj : s.shared.owner = .joined) :
    ∀ t ∈ s.tasks, t.phase.finished = true := by
  obtain ⟨hmem, hempty⟩ := joins_of_run h
  intro t ht
  obtain ⟨i, hi, rfl⟩ := List.getElem_of_mem ht
  by_contra hlive
  have hin := hmem i hi (by simpa [isFinished, Config.look, hi] using hlive)
  rw [hempty hj] at hin
  exact List.not_mem_nil hin

/-! ### Panics -/

/-- The task as if its handler had returned. -/
def Task.calm (t : Task T) : Task T :=
  { t with phase := if t.phase = .panicked then .completed else t.phase }

/-- The configuration as if the handlers of the jobs in `quiet` had returned. -/
def calm (quiet : ℕ → Bool) (s : State T) : State T :=
  { s with tasks := s.tasks.mapIdx fun i t => if quiet i then t.calm else t }

/-- The same move, with a return of the handler for a panic. -/
def Label.calm (quiet : ℕ → Bool) : Label T → Label T
  | .act i a => .act i (if quiet i && a = .panic then .complete else a)
  | l => l

private theorem finished_calm (t : Task T) : t.calm.phase.finished = t.phase.finished := by
  obtain ⟨job, phase⟩ := t
  cases phase <;> rfl

private theorem isFinished_calm (quiet : ℕ → Bool) (s : State T) :
    isFinished (calm quiet s) = isFinished s := by
  funext i
  rw [isFinished, isFinished, Config.look, Config.look, calm, List.getElem?_mapIdx]
  cases s.tasks[i]? with
  | none => rfl
  | some t => cases quiet i <;> simp [finished_calm]

/-- The owner cannot tell a panic from a return. -/
private theorem owner_calm (quiet : ℕ → Bool) (s : State T) (g : Move T) :
    owner (calm quiet s) g = owner s g := by
  have hlength : (calm quiet s).tasks.length = s.tasks.length := List.length_mapIdx
  have hshared : (calm quiet s).shared = s.shared := rfl
  unfold owner
  rw [isFinished_calm, hlength, hshared]

/-- Nor can the semaphore: both drop the permit. -/
private theorem act_calm {pool pool' : Pool T} {t t' : Task T} {a : Act}
    (h : act pool t a = some (pool', t')) :
    act pool t.calm (if a = .panic then .complete else a) = some (pool', t'.calm) := by
  obtain ⟨p, rfl, hacts⟩ := acts_of_act h
  cases hacts with
  | start hp | complete hp | panic hp => simp [act, Task.calm, hp]

/-- **Panics affect no other job.** A run stays a run when panics of any jobs are replaced
by returns, and ends in the same configuration up to the phases of these jobs. -/
theorem run_calm (quiet : ℕ → Bool) (h : (system n).machine.Run ls s) :
    (system n).machine.Run (ls.map (Label.calm quiet)) (calm quiet s) := by
  refine (system n).machine.exec_map (N := (system n).machine) (f := calm quiet) ?_ h
  intro s l s' hl
  refine ((system n).step_iff).mpr ?_
  cases ((system n).step_iff).mp hl with
  | @main g pool spawned hmain =>
    -- a spawned task has not panicked yet
    have hspawned : calm quiet ⟨pool, s.tasks ++ spawned⟩ =
        ⟨pool, (calm quiet s).tasks ++ spawned⟩ := by
      rw [calm, List.mapIdx_append]
      cases owns_of_owner hmain <;> simp [calm, Task.calm]
    rw [hspawned]
    exact .main ((owner_calm quiet s g).trans hmain)
  | @act i a t t' pool htask hact =>
    have htask' : (calm quiet s).tasks[i]? = some (if quiet i then t.calm else t) := by
      rw [calm, List.getElem?_mapIdx, htask, Option.map_some]
    have hset : calm quiet ⟨pool, s.tasks.set i t'⟩ =
        ⟨pool, (calm quiet s).tasks.set i (if quiet i then t'.calm else t')⟩ := by
      rw [calm, List.mapIdx_set, calm]
    rw [hset]
    refine .act htask' ?_
    cases quiet i with
    | true =>
      have hcalm : (system n).act (calm quiet s).shared i t.calm _ = _ := act_calm hact
      simpa using hcalm
    | false => exact hact

/-! ### Safety of the pool -/

/-- **Safety of the worker pool**, for any order of steps. Permits are conserved, so at most
`n` handlers run at once; the handler is called at most once with any job, and exactly once
with every submitted job by the time `join` returns, when all of them have finished; the job
of a dropped `submit` never becomes a task; every task is a submitted job; and replacing the
panics of any jobs by returns changes nothing for the pool and the other jobs. -/
theorem worker_pool_safety [DecidableEq T] {pool : TaskSystem (Pool T) (Task T) (Move T) Act}
    (hnew : new n = some pool) (hrun : pool.machine.Run ls s) :
    s.shared.available + s.tasks.countP Task.live + s.shared.owner.permits = n ∧
    s.tasks.countP (fun t => t.phase = .running) ≤ n ∧
    (∀ job, (events n ls).count (.called job) ≤ 1) ∧
    (s.shared.owner = .joined → ∀ job, .returned job ∈ events n ls →
      (events n ls).count (.called job) = 1 ∧
        ∃ t ∈ s.tasks, t.job = job ∧ t.phase.finished = true) ∧
    (∀ job, .dropped job ∈ events n ls →
      (events n ls).count (.called job) = 0 ∧ ∀ t ∈ s.tasks, t.job ≠ job) ∧
    (∀ t ∈ s.tasks, .returned t.job ∈ events n ls) ∧
    (∀ quiet, pool.machine.Run (ls.map (Label.calm quiet)) (calm quiet s)) := by
  obtain ⟨-, hsystem⟩ := Option.ite_none_right_eq_some.mp hnew
  obtain rfl := Option.some_inj.mp hsystem
  have hpermits := permits_eq hrun
  have htickets := tickets_of_run hrun
  -- tickets are distinct, so there is at most one task for a job
  have hnodup : (jobs s).Nodup := htickets.sorted.imp fun h heq => by simp [heq] at h
  have htask : ∀ job, s.tasks.countP (fun t => t.job = job) = (jobs s).count job := by
    intro job
    rw [jobs, List.count, List.countP_map]
    congr 1
  refine ⟨hpermits, ?_, fun job => ?_, fun hjoined job hjob => ?_, fun job hjob => ?_, ?_,
    fun quiet => run_calm quiet hrun⟩
  · have hrunning : s.tasks.countP (fun t => t.phase = .running) ≤ s.tasks.countP Task.live := by
      refine List.countP_mono_left fun t _ ht => ?_
      rw [decide_eq_true_eq] at ht
      rw [Task.live, ht]
      rfl
    omega
  · have hle : s.tasks.countP (Task.called job) ≤ s.tasks.countP (fun t => t.job = job) :=
      List.countP_mono_left fun t _ ht => by simp_all [Task.called]
    have hone := List.nodup_iff_count_le_one.mp hnodup job
    rw [count_called hrun]
    have := htask job
    omega
  · have hfinished := finished_of_joined hrun hjoined
    obtain ⟨t, ht, rfl⟩ := List.mem_map.mp ((htickets.returned_iff job).mp hjob)
    refine ⟨?_, t, ht, rfl, hfinished t ht⟩
    have hcalled : s.tasks.countP (Task.called t.job) =
        s.tasks.countP (fun u => u.job = t.job) := by
      refine List.countP_congr fun u hu => ?_
      have hne : u.phase ≠ .spawned := fun heq => by
        simpa [heq, Phase.finished] using hfinished u hu
      simp [Task.called, hne]
    rw [count_called hrun, hcalled, htask]
    exact List.count_eq_one_of_mem hnodup (List.mem_map_of_mem ht)
  · have hne : ∀ t ∈ s.tasks, t.job ≠ job := fun t ht heq =>
      (htickets.dropped job hjob).2 t.job (List.mem_map_of_mem ht) (by rw [heq])
    refine ⟨?_, hne⟩
    rw [count_called hrun, List.countP_eq_zero]
    intro t ht
    simp [Task.called, hne t ht]
  · exact fun t ht => (htickets.returned_iff t.job).mpr (List.mem_map_of_mem ht)

/-- Three jobs for one permit: the first panics, the `submit` of the second is dropped while
it waits, and the third completes. -/
def panicAndDrop : List (Label Char) :=
  [.main (.submit 'a'), .main .enter, .main .reaped, .main .acquire, .main .spawn,
    .main (.submit 'b'), .main .enter, .main .reaped, .act 0 .start, .main .drop,
    .act 0 .panic, .main (.submit 'c'), .main .enter, .main (.reap 0), .main .reaped,
    .main .acquire, .main .spawn, .main .join, .act 1 .start, .act 1 .complete,
    .main (.joinNext 1), .main .joined]

theorem worker_pool_safety_panicAndDrop :
    (events 1 panicAndDrop).count (.called ⟨2, 'c'⟩) = 1 ∧
      (events 1 panicAndDrop).count (.called ⟨1, 'b'⟩) = 0 := by
  have hnew : new (T := Char) 1 = some (system 1) := if_pos (by decide)
  have hrun : (system 1).machine.Run panicAndDrop
      ⟨⟨1, [], .joined, 3⟩, [⟨⟨0, 'a'⟩, .panicked⟩, ⟨⟨2, 'c'⟩, .completed⟩]⟩ := by
    decide +kernel
  obtain ⟨-, -, -, hjoined, hdropped, -⟩ := worker_pool_safety hnew hrun
  exact ⟨(hjoined rfl ⟨2, 'c'⟩ (by decide +kernel)).1, (hdropped ⟨1, 'b'⟩ (by decide +kernel)).1⟩

end WorkerPool

end RustUtils
