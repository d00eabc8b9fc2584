import RustUtils.Runtime.Duration
import RustUtils.Timeline.Admission
import RustUtils.Transition.Tasks

/-!
# `Throttle`

A throttle shared by any number of callers. Every call of `try_run` or `reset` is a task of
its own, and a task takes one step for taking the lock, one for the critical section, one
for dropping the guard, and further steps for the closure it was admitted to run. A closure
may return, panic or be dropped with the future that awaits it; a panic poisons the mutex if
it happens under the guard.

`Throttle.ledger` is what a run makes visible: the verdicts and resets in the order of the
lock. `throttle_law` states the admission law of the ledger, for every interleaving.
-/

namespace RustUtils

open Transition Timeline

/-- `Throttle`, without the state behind its mutex. -/
structure Throttle where
  minInterval : Duration

namespace Throttle

/-- The mutex with its guarded `last_run`, and the clock. -/
structure Mutex where
  lastRun : Option ℕ
  /-- The call that holds the guard. -/
  holder : Option ℕ
  poisoned : Bool
  /-- The latest clock reading. -/
  clock : ℕ
  deriving DecidableEq

/-- Where a call of `try_run` or `reset` stands. -/
inductive Phase where
  /-- `try_run` has been called. -/
  | tryRun
  | tryLocked
  /-- The check-and-set is done, at `t`; the guard is still held. -/
  | checked (admitted : Bool) (t : ℕ)
  /-- `try_run` has returned `None`. -/
  | discarded (t : ℕ)
  /-- The guard is dropped and the closure is about to be invoked. -/
  | admitted (t : ℕ)
  /-- The closure has been invoked and its future is awaited. -/
  | running (t : ℕ)
  /-- `try_run` has returned `Some`. -/
  | returned (t : ℕ)
  /-- The closure or its future has panicked. -/
  | panicked (t : ℕ)
  /-- The caller has dropped the pending `try_run`. -/
  | dropped (t : ℕ)
  /-- `reset` has been called. -/
  | reset
  | resetLocked
  /-- `last_run` is cleared; the guard is still held. -/
  | cleared
  | resetDone
  /-- The `expect` on a poisoned mutex has panicked. -/
  | lockPanicked
  deriving DecidableEq

/-- A call arrives. -/
inductive Call where
  | tryRun
  | reset
  deriving DecidableEq

/-- One step of a call. -/
inductive Act where
  | lock
  | check (now : ℕ)
  | clear
  | unlock
  | invoke
  | finish
  | panic
  | drop
  deriving DecidableEq

/-! ### The steps of a call -/

/-- The critical section of `try_run`: whether the call is admitted, and the new stamp. -/
def checkAndSet (minInterval : Duration) (lastRun : Option ℕ) (now : ℕ) : Bool × Option ℕ :=
  match lastRun with
  | some previous =>
    if durationSince now previous < minInterval.toNanos then (false, lastRun)
    else (true, some now)
  | none => (true, some now)

/-- `lock().expect(..)`: wait for the guard, and panic if the mutex is poisoned. -/
def lock (m : Mutex) (i : ℕ) (locked : Phase) : Option (Mutex × Phase) :=
  if m.holder = none then
    if m.poisoned then some (m, .lockPanicked) else some ({ m with holder := some i }, locked)
  else none

variable (th : Throttle)

/-- One step of call `i`. -/
def act (m : Mutex) (i : ℕ) (p : Phase) (a : Act) : Option (Mutex × Phase) :=
  match a, p with
  | .lock, .tryRun => lock m i .tryLocked
  | .lock, .reset => lock m i .resetLocked
  | .check now, .tryLocked =>
    if m.clock ≤ now then
      some ({ m with clock := now, lastRun := (checkAndSet th.minInterval m.lastRun now).2 },
        .checked (checkAndSet th.minInterval m.lastRun now).1 now)
    else none
  | .clear, .resetLocked => some ({ m with lastRun := none }, .cleared)
  | .unlock, .checked true t => some ({ m with holder := none }, .admitted t)
  | .unlock, .checked false t => some ({ m with holder := none }, .discarded t)
  | .unlock, .cleared => some ({ m with holder := none }, .resetDone)
  | .invoke, .admitted t => some (m, .running t)
  | .finish, .running t => some (m, .returned t)
  | .panic, .running t =>
    some ({ m with poisoned := m.poisoned || m.holder = some i }, .panicked t)
  | .drop, .running t => some (m, .dropped t)
  | _, _ => none

/-- A new call. -/
def call : Call → Phase
  | .tryRun => .tryRun
  | .reset => .reset

/-- A new throttle and its callers. -/
def system : TaskSystem Mutex Phase Call Act where
  init := ⟨none, none, false, 0⟩
  main s c := some (s.shared, [call c])
  act := th.act

/-- The configurations of a throttle and its calls. -/
abbrev State := Config Mutex Phase

/-- The moves of a throttle and its calls. -/
abbrev Label := Move Call Act

/-- The verdict a step of call `i` makes, or the reset. -/
def verdict (m : Mutex) (i : ℕ) : Act → List (Entry ℕ)
  | .check now =>
    if (checkAndSet th.minInterval m.lastRun now).1 then [.accept i now] else [.discard i now]
  | .clear => [.reset]
  | _ => []

/-- The verdicts and resets of a run, in the order of the lock. -/
def ledger (ls : List Label) : List (Entry ℕ) :=
  th.system.machine.observe (fun s l =>
    match l with
    | .main _ => []
    | .act i a => th.verdict s.shared i a) th.system.machine.init ls

/-- How often call `i` has invoked its closure. -/
def invocations (ls : List Label) (i : ℕ) : ℕ := ls.count (.act i .invoke)

/-! ### Inversion of the steps -/

/-- What one step of call `i` can do. -/
inductive Step (m : Mutex) (i : ℕ) : Phase → Act → Mutex → Phase → Prop
  | tryLock (hfree : m.holder = none) (hok : m.poisoned = false) :
      Step m i .tryRun .lock { m with holder := some i } .tryLocked
  | resetLock (hfree : m.holder = none) (hok : m.poisoned = false) :
      Step m i .reset .lock { m with holder := some i } .resetLocked
  | lockPanic {p : Phase} (hcall : p = .tryRun ∨ p = .reset) (hpoisoned : m.poisoned = true) :
      Step m i p .lock m .lockPanicked
  | check {now : ℕ} (hclock : m.clock ≤ now) :
      Step m i .tryLocked (.check now)
        { m with clock := now, lastRun := (checkAndSet th.minInterval m.lastRun now).2 }
        (.checked (checkAndSet th.minInterval m.lastRun now).1 now)
  | clear : Step m i .resetLocked .clear { m with lastRun := none } .cleared
  | accept {t : ℕ} : Step m i (.checked true t) .unlock { m with holder := none } (.admitted t)
  | discard {t : ℕ} :
      Step m i (.checked false t) .unlock { m with holder := none } (.discarded t)
  | resetReturn : Step m i .cleared .unlock { m with holder := none } .resetDone
  | invoke {t : ℕ} : Step m i (.admitted t) .invoke m (.running t)
  | finish {t : ℕ} : Step m i (.running t) .finish m (.returned t)
  | panic {t : ℕ} : Step m i (.running t) .panic
      { m with poisoned := m.poisoned || m.holder = some i } (.panicked t)
  | drop {t : ℕ} : Step m i (.running t) .drop m (.dropped t)

private theorem lock_cases {m m' : Mutex} {i : ℕ} {locked p' : Phase}
    (h : lock m i locked = some (m', p')) :
    m.poisoned = true ∧ m' = m ∧ p' = .lockPanicked ∨
      m.holder = none ∧ m.poisoned = false ∧ m' = { m with holder := some i } ∧ p' = locked := by
  rw [lock, Option.ite_none_right_eq_some] at h
  obtain ⟨hfree, h⟩ := h
  cases hp : m.poisoned with
  | true =>
    rw [hp, if_pos rfl] at h
    obtain ⟨rfl, rfl⟩ := Prod.mk.inj (Option.some_inj.mp h)
    exact Or.inl ⟨rfl, rfl, rfl⟩
  | false =>
    rw [hp, if_neg Bool.false_ne_true] at h
    obtain ⟨rfl, rfl⟩ := Prod.mk.inj (Option.some_inj.mp h)
    exact Or.inr ⟨hfree, rfl, rfl, rfl⟩

private theorem step_of_act {m m' : Mutex} {i : ℕ} {p p' : Phase} {a : Act}
    (h : th.act m i p a = some (m', p')) : th.Step m i p a m' p' := by
  unfold act at h
  split at h
  · obtain ⟨hp, rfl, rfl⟩ | ⟨hfree, hok, rfl, rfl⟩ := lock_cases h
    · exact .lockPanic (Or.inl rfl) hp
    · exact .tryLock hfree hok
  · obtain ⟨hp, rfl, rfl⟩ | ⟨hfree, hok, rfl, rfl⟩ := lock_cases h
    · exact .lockPanic (Or.inr rfl) hp
    · exact .resetLock hfree hok
  all_goals simp only [Option.ite_none_right_eq_some, Option.some_inj, Prod.mk.injEq,
    reduceCtorEq] at h
  · obtain ⟨hclock, rfl, rfl⟩ := h
    exact .check hclock
  all_goals
    obtain ⟨rfl, rfl⟩ := h
    constructor

/-! ### What a phase knows -/

namespace Phase

/-- The call holds the guard. -/
def holds : Phase → Bool
  | tryLocked | checked _ _ | resetLocked | cleared => true
  | _ => false

/-- The verdict on call `i`, once there is one. -/
def entry (i : ℕ) : Phase → List (Entry ℕ)
  | checked true t | admitted t | running t | returned t | panicked t | dropped t => [.accept i t]
  | checked false t | discarded t => [.discard i t]
  | _ => []

/-- How often the call has invoked its closure. -/
def invoked : Phase → ℕ
  | running _ | returned _ | panicked _ | dropped _ => 1
  | _ => 0

/-- The call is over. -/
def ended : Phase → Bool
  | discarded _ | returned _ | panicked _ | dropped _ | resetDone | lockPanicked => true
  | _ => false

end Phase

variable {th}

/-- The phase keeps the call's own verdict. -/
private theorem Step.entry_eq {m m' : Mutex} {i : ℕ} {p p' : Phase} {a : Act}
    (h : th.Step m i p a m' p') :
    p'.entry i = p.entry i ++ (th.verdict m i a).filter (·.caller = some i) := by
  cases h with
  | check hclock =>
    rw [verdict]
    cases (checkAndSet th.minInterval m.lastRun _).1 <;> simp [Phase.entry, Entry.caller]
  | lockPanic hcall => rcases hcall with rfl | rfl <;> rfl
  | _ => rfl

private theorem Step.invoked_eq {m m' : Mutex} {i : ℕ} {p p' : Phase} {a : Act}
    (h : th.Step m i p a m' p') : p'.invoked = p.invoked + if a = .invoke then 1 else 0 := by
  cases h with
  | lockPanic hcall => rcases hcall with rfl | rfl <;> rfl
  | _ => rfl

/-- A verdict is about the call that makes it. -/
private theorem filter_verdict_of_ne {m : Mutex} {i j : ℕ} {a : Act} (h : j ≠ i) :
    (th.verdict m i a).filter (·.caller = some j) = [] := by
  unfold verdict
  split
  · split <;> simp [Entry.caller, Ne.symm h]
  · rfl
  · rfl

/-! ### Invariants of a run -/

@[simp]
theorem ledger_nil : th.ledger [] = [] := rfl

private theorem ledger_snoc_main {ls : List Label} {s : State} {c : Call}
    (h : th.system.machine.Run ls s) : th.ledger (ls ++ [.main c]) = th.ledger ls := by
  rw [ledger, Machine.observe_snoc _ _ h, ← ledger, List.append_nil]

private theorem ledger_snoc_act {ls : List Label} {s : State} {i : ℕ} {a : Act}
    (h : th.system.machine.Run ls s) :
    th.ledger (ls ++ [.act i a]) = th.ledger ls ++ th.verdict s.shared i a :=
  Machine.observe_snoc _ _ h

/-- The check-and-set admits a call iff the latest admission, if there is one, is at least
the interval ago. -/
private theorem checkAndSet_cases (minInterval : Duration) {lastRun : Option ℕ} {now : ℕ}
    (hclock : ∀ t, lastRun = some t → t ≤ now) :
    checkAndSet minInterval lastRun now = (true, some now) ∧
        (∀ u, lastRun = some u → u + minInterval.toNanos ≤ now) ∨
      checkAndSet minInterval lastRun now = (false, lastRun) ∧
        ∃ u, lastRun = some u ∧ u ≤ now ∧ now < u + minInterval.toNanos := by
  cases lastRun with
  | none => exact Or.inl ⟨rfl, fun u hu => absurd hu (by simp)⟩
  | some previous =>
    have hle : previous ≤ now := hclock previous rfl
    by_cases hrecent : durationSince now previous < minInterval.toNanos
    · refine Or.inr ⟨if_pos hrecent, previous, rfl, hle, ?_⟩
      rw [durationSince] at hrecent
      omega
    · refine Or.inl ⟨if_neg hrecent, fun u hu => ?_⟩
      obtain rfl := Option.some_inj.mp hu
      rw [durationSince] at hrecent
      omega

/-- **Mutual exclusion**: the holder of the guard is the one call inside the lock, and no
closure ever panics there. -/
theorem holder_iff {ls : List Label} {s : State} (h : th.system.machine.Run ls s) :
    (∀ i, s.look Phase.holds false i = true ↔ s.shared.holder = some i) ∧
      s.shared.poisoned = false := by
  refine h.invariant (P := fun s =>
    (∀ i, s.look Phase.holds false i = true ↔ s.shared.holder = some i) ∧
      s.shared.poisoned = false)
    ⟨fun i => by simp [TaskSystem.machine, system, Config.look], rfl⟩ ?_
  rintro s l s' ⟨hholds, hok⟩ hl
  cases (th.system.step_iff).mp hl with
  | @main c _ _ hmain =>
    obtain ⟨rfl, rfl⟩ := Prod.mk.inj (Option.some_inj.mp hmain)
    refine ⟨fun i => ?_, hok⟩
    rw [Config.look_spawn (by cases c <;> simp [call, Phase.holds])]
    exact hholds i
  | @act i a p p' m' htask hact =>
    -- the guard moves with the phase of the call that steps, and is free for a `lock`
    have hself := hholds i
    rw [Config.look_of_getElem? htask] at hself
    constructor
    · intro j
      rw [Config.look_act htask]
      have hj := hholds j
      cases th.step_of_act hact with
      | lockPanic hcall hpoisoned => simp [hok] at hpoisoned
      | _ => grind [Phase.holds]
    · cases th.step_of_act hact with
      | panic =>
        -- a running closure does not hold the guard
        simpa [hok, Phase.holds] using hself
      | _ => exact hok

/-- **The stamp is the latest admission**, and every verdict was right when it was made. -/
theorem lastRun_eq_latest {ls : List Label} {s : State} (h : th.system.machine.Run ls s) :
    s.shared.lastRun = latest (th.ledger ls) ∧
      Lawful th.minInterval.toNanos (th.ledger ls) ∧
      ∀ t, s.shared.lastRun = some t → t ≤ s.shared.clock := by
  refine h.induct (I := fun ls s => s.shared.lastRun = latest (th.ledger ls) ∧
    Lawful th.minInterval.toNanos (th.ledger ls) ∧
      ∀ t, s.shared.lastRun = some t → t ≤ s.shared.clock) ?_ ?_
  · exact ⟨rfl, lawful_nil, fun t ht => absurd ht (by simp [TaskSystem.machine, system])⟩
  · rintro ls l s s' hrun ⟨hlast, hlawful, hclock⟩ hl
    cases (th.system.step_iff).mp hl with
    | main hmain =>
      obtain ⟨rfl, rfl⟩ := Prod.mk.inj (Option.some_inj.mp hmain)
      rw [ledger_snoc_main hrun]
      exact ⟨hlast, hlawful, hclock⟩
    | act htask hact =>
      rw [ledger_snoc_act hrun]
      cases th.step_of_act hact with
      | @check now hnow =>
        have hle : ∀ t, s.shared.lastRun = some t → t ≤ now :=
          fun t ht => Nat.le_trans (hclock t ht) hnow
        rcases checkAndSet_cases th.minInterval hle with
          ⟨haccept, hspace⟩ | ⟨hdiscard, hrecent⟩
        · simp only [verdict, haccept, if_true]
          rw [hlast] at hspace
          refine ⟨by simp [latest], hlawful.snoc hspace, fun t ht => ?_⟩
          exact (Option.some_inj.mp ht).symm.le
        · -- a discarded call leaves the stamp, and the ledger its latest admission
          simp only [verdict, hdiscard, Bool.false_eq_true, if_false]
          rw [hlast] at hrecent
          refine ⟨?_, hlawful.snoc hrecent, hle⟩
          rw [latest, sinceReset_snoc_discard, ← latest, hlast]
      | clear =>
        refine ⟨by simp [verdict, latest], hlawful.snoc trivial, fun t ht => ?_⟩
        exact absurd ht (by simp)
      | _ =>
        simp only [verdict, List.append_nil]
        exact ⟨hlast, hlawful, hclock⟩

/-- A call and the ledger agree on its verdict. -/
private theorem filter_ledger {ls : List Label} {s : State} (h : th.system.machine.Run ls s)
    (i : ℕ) :
    (th.ledger ls).filter (·.caller = some i) = s.look (Phase.entry i) [] i := by
  refine h.induct (I := fun ls s =>
    (th.ledger ls).filter (·.caller = some i) = s.look (Phase.entry i) [] i) rfl ?_
  intro ls l s s' hrun ih hl
  cases (th.system.step_iff).mp hl with
  | @main c _ _ hmain =>
    obtain ⟨rfl, rfl⟩ := Prod.mk.inj (Option.some_inj.mp hmain)
    rw [ledger_snoc_main hrun, ih, Config.look_spawn (by cases c <;> simp [call, Phase.entry])]
  | @act j a p p' m' htask hact =>
    rw [ledger_snoc_act hrun, List.filter_append, ih, Config.look_act htask]
    by_cases hij : i = j
    · subst hij
      rw [if_pos rfl, Config.look_of_getElem? htask, (th.step_of_act hact).entry_eq]
    · rw [if_neg hij, filter_verdict_of_ne hij, List.append_nil]

/-- A call and the run agree on its invocations. -/
private theorem invocations_eq {ls : List Label} {s : State} (h : th.system.machine.Run ls s)
    (i : ℕ) :
    invocations ls i = s.look Phase.invoked 0 i := by
  refine h.induct (I := fun ls s => invocations ls i = s.look Phase.invoked 0 i) rfl ?_
  intro ls l s s' hrun ih hl
  have hsnoc : invocations (ls ++ [l]) i = invocations ls i + [l].count (.act i .invoke) :=
    List.count_append
  rw [hsnoc, ih]
  cases (th.system.step_iff).mp hl with
  | @main c _ _ hmain =>
    obtain ⟨rfl, rfl⟩ := Prod.mk.inj (Option.some_inj.mp hmain)
    rw [Config.look_spawn (by cases c <;> simp [call, Phase.invoked])]
    rfl
  | @act j a p p' m' htask hact =>
    rw [Config.look_act htask, List.count_singleton]
    by_cases hij : i = j
    · subst hij
      rw [if_pos rfl, Config.look_of_getElem? htask, (th.step_of_act hact).invoked_eq]
      simp
    · simp [hij, Ne.symm hij]

/-! ### The admission law -/

/-- An admitted call that has not invoked its closure is about to. -/
private theorem Phase.eq_of_entry_accept {i t : ℕ} {p : Phase} (hentry : p.entry i = [.accept i t])
    (hinvoked : p.invoked = 0) : p = .checked true t ∨ p = .admitted t := by
  unfold entry at hentry
  split at hentry <;> simp_all [invoked]

/-- An admitted call that has not invoked its closure does so in its own next steps, which
nothing can block. -/
private theorem exec_invoke {s : State} {i t : ℕ} {p : Phase} (htask : s.tasks[i]? = some p)
    (hp : p = .checked true t ∨ p = .admitted t) :
    ∃ more s', (∀ l ∈ more, ∃ a, l = .act i a) ∧ th.system.machine.exec s more = some s' ∧
      s'.tasks[i]? = some (.running t) := by
  have hinvoke : ∀ {s : State}, s.tasks[i]? = some (.admitted t) →
      th.system.machine.exec s [.act i .invoke] =
        some ⟨s.shared, s.tasks.set i (.running t)⟩ := fun h =>
    (Machine.exec_cons_iff _).mpr ⟨_, (th.system.step_iff).mpr (.act h rfl), rfl⟩
  have hlt : i < s.tasks.length := (List.getElem?_eq_some_iff.mp htask).1
  rcases hp with rfl | rfl
  · have hunlock : th.system.machine.step s (.act i .unlock) =
        some ⟨{ s.shared with holder := none }, s.tasks.set i (.admitted t)⟩ :=
      (th.system.step_iff).mpr (.act htask rfl)
    refine ⟨[.act i .unlock, .act i .invoke], _, by simp, (Machine.exec_cons_iff _).mpr
      ⟨_, hunlock, hinvoke (List.getElem?_set_self hlt)⟩, ?_⟩
    exact List.getElem?_set_self (by rwa [List.length_set])
  · exact ⟨[.act i .invoke], _, by simp, hinvoke htask, List.getElem?_set_self hlt⟩

/-- The task behind a verdict, with its phase. -/
private theorem getElem?_of_mem_ledger {ls : List Label} {s : State}
    (hrun : th.system.machine.Run ls s) {e : Entry ℕ} {i : ℕ} (he : e ∈ th.ledger ls)
    (hcaller : e.caller = some i) :
    ∃ p, s.tasks[i]? = some p ∧ p.entry i = [e] ∧ invocations ls i = p.invoked := by
  have hmem : e ∈ s.look (Phase.entry i) [] i := by
    rw [← filter_ledger hrun]
    exact List.mem_filter.mpr ⟨he, decide_eq_true hcaller⟩
  cases hp : s.tasks[i]? with
  | none => simp [Config.look, hp] at hmem
  | some p =>
    rw [Config.look_of_getElem? hp] at hmem
    refine ⟨p, rfl, ?_, by rw [invocations_eq hrun, Config.look_of_getElem? hp]⟩
    unfold Phase.entry at hmem ⊢
    split at hmem <;> simp_all

/-- **The admission law**, for every interleaving of any number of calls. The stamp is the
latest admission since the latest reset. Two admissions without a reset between them are at
least the interval apart, so a stretch without a reset does not crowd. A call is discarded
exactly when some admission since the latest reset is less than the interval before it. An
admitted call invokes its closure once, a discarded one never. The mutex is never poisoned. -/
theorem throttle_law {ls : List Label} {s : State} (hrun : th.system.machine.Run ls s) :
    s.shared.lastRun = latest (th.ledger ls) ∧
    (∀ before between after i j t t',
      th.ledger ls = before ++ [.accept i t] ++ between ++ [.accept j t'] ++ after →
      .reset ∉ between → t + th.minInterval.toNanos ≤ t') ∧
    (∀ before stretch after a len,
      th.ledger ls = before ++ stretch ++ after → .reset ∉ stretch →
      0 < th.minInterval.toNanos →
      (stamps stretch).countP (fun t => a ≤ t && t < a + len) ≤
        len ⌈/⌉ th.minInterval.toNanos) ∧
    (∀ before e after i t, th.ledger ls = before ++ e :: after →
      e = .accept i t ∨ e = .discard i t →
      (e = .discard i t ↔
        ∃ u ∈ sinceReset before, u ≤ t ∧ t < u + th.minInterval.toNanos)) ∧
    (∀ i t, .accept i t ∈ th.ledger ls →
      invocations ls i ≤ 1 ∧ (s.look Phase.ended false i = true → invocations ls i = 1) ∧
      (invocations ls i = 0 → ∃ more s', (∀ l ∈ more, ∃ a, l = .act i a) ∧
        th.system.machine.Run (ls ++ more) s' ∧ invocations (ls ++ more) i = 1)) ∧
    (∀ i t, .discard i t ∈ th.ledger ls → invocations ls i = 0) ∧
    s.shared.poisoned = false := by
  obtain ⟨hlast, hlawful, -⟩ := lastRun_eq_latest hrun
  refine ⟨hlast, ?_, ?_, ?_, ?_, ?_, (holder_iff hrun).2⟩
  · intro before between after i j t t' hsplit hno
    rw [hsplit] at hlawful
    exact hlawful.add_le_of_accept hno
  · intro before stretch after a len hsplit hno hpos
    rw [hsplit] at hlawful
    exact hlawful.countP_stamps_le hpos hno a len
  · intro before e after i t hsplit he
    rw [hsplit] at hlawful
    rcases he with rfl | rfl
    · refine iff_of_false (by simp) ?_
      rintro ⟨u, hu, -, hlt⟩
      have hle := hlawful.add_le_of_mem hu
      omega
    · exact iff_of_true rfl hlawful.exists_of_discard
  · intro i t hmem
    obtain ⟨p, htask, hentry, hcount⟩ := getElem?_of_mem_ledger hrun hmem rfl
    rw [hcount, Config.look_of_getElem? htask]
    refine ⟨?_, ?_, fun hzero => ?_⟩
    · unfold Phase.invoked
      split <;> decide
    · intro hended
      unfold Phase.ended at hended
      split at hended <;> simp_all [Phase.entry, Phase.invoked]
    · obtain ⟨more, s', hown, hexec, htask'⟩ :=
        exec_invoke htask (Phase.eq_of_entry_accept hentry hzero)
      refine ⟨more, s', hown, hrun.append hexec, ?_⟩
      rw [invocations_eq (hrun.append hexec), Config.look_of_getElem? htask', Phase.invoked]
  · intro i t hmem
    obtain ⟨p, -, hentry, hcount⟩ := getElem?_of_mem_ledger hrun hmem rfl
    rw [hcount]
    unfold Phase.entry at hentry
    split at hentry <;> simp_all [Phase.invoked]

/-- Three callers and a reset, ten nanoseconds apart at least: the second caller comes too
early and the closure of the first panics meanwhile. -/
def panicAndReset : List Label :=
  [.main .tryRun, .main .tryRun, .main .reset, .main .tryRun, .act 0 .lock, .act 0 (.check 5),
    .act 0 .unlock, .act 0 .invoke, .act 1 .lock, .act 1 (.check 9), .act 0 .panic,
    .act 1 .unlock, .act 2 .lock, .act 2 .clear, .act 2 .unlock, .act 3 .lock,
    .act 3 (.check 11), .act 3 .unlock, .act 3 .invoke]

theorem throttle_law_panicAndReset :
    some 11 = latest ((⟨Duration.fromNanos 10⟩ : Throttle).ledger panicAndReset) ∧
      (∃ u ∈ sinceReset [Entry.accept 0 5], u ≤ 9 ∧ 9 < u + (Duration.fromNanos 10).toNanos) ∧
      invocations panicAndReset 1 = 0 := by
  let th : Throttle := ⟨Duration.fromNanos 10⟩
  have hrun : th.system.machine.Run panicAndReset
      ⟨⟨some 11, none, false, 11⟩, [.panicked 5, .discarded 9, .resetDone, .running 11]⟩ := by
    decide +kernel
  have hledger : th.ledger panicAndReset =
      [.accept 0 5] ++ .discard 1 9 :: [.reset, .accept 3 11] := by
    decide +kernel
  obtain ⟨hlast, -, -, hdiscard, -, hnever, -⟩ := throttle_law hrun
  refine ⟨hlast, (hdiscard _ _ _ 1 9 hledger (Or.inr rfl)).mp rfl, hnever 1 9 ?_⟩
  rw [hledger]
  decide

end Throttle

end RustUtils
