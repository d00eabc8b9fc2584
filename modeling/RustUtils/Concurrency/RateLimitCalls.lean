import Mathlib.Logic.Function.Basic
import RustUtils.Concurrency.RateLimit
import RustUtils.Timeline.Rate
import RustUtils.Transition.Journal
import RustUtils.Transition.Tasks

/-!
# Calls of the rate limiters

Any number of limiters and of calls of their `run` and `wait_for_slot`. A `RateLimiter` and a
`KeyedRateLimiter` are references to a limiter, which their clones share. A call awaits one
bucket after the other, as its `run`s are nested, and then invokes its closure: `PacedCall` is
what it has still to await.

The buckets are the ones of `governor`, and so is the store they are kept in: `Governor.Limiters`
is what is used of them. A check at a clock reading takes a cell or does not, and a denied check
suspends the call. A call that gets a cell goes on at once, to the next bucket or to the closure;
it can be dropped where it is suspended, and while it awaits the closure's future. `ledger` is the
history of the cells, under the number of the call that takes them.
-/

namespace RustUtils

open Transition Timeline

/-! ### The limiters -/

/-- A bucket: the one of a direct limiter, or the one of a key. -/
inductive Slot (K : Type) where
  | direct (limiter : ℕ)
  | keyed (limiter : ℕ) (key : K)
  deriving DecidableEq

/-- The limiter of a bucket. -/
def Slot.limiter {K : Type} : Slot K → ℕ
  | direct limiter => limiter
  | keyed limiter _ => limiter

/-- The bucket is one of the keyed limiter. -/
def Slot.isKeyOf {K : Type} (limiter : ℕ) : Slot K → Bool
  | direct _ => false
  | keyed limiter' _ => limiter' = limiter

/-- `RateLimiter`, by the reference to its limiter. -/
structure RateLimiter where
  limiter : ℕ

/-- `KeyedRateLimiter`, by the reference to its limiter. -/
structure KeyedRateLimiter (K : Type) where
  limiter : ℕ

/-- What an async call has still to await. -/
inductive PacedCall (K : Type) where
  /-- `until_ready` or `until_key_ready`, then the rest. -/
  | untilReady (slot : Slot K) (rest : PacedCall K)
  /-- The closure is invoked and its future awaited. -/
  | closure
  deriving DecidableEq

/-- The buckets a call has still to pass. -/
def PacedCall.slots {K : Type} : PacedCall K → List (Slot K)
  | untilReady slot rest => slot :: rest.slots
  | closure => []

/-- `RateLimiter::wait_for_slot`, before the rest of a call. -/
def RateLimiter.waitForSlot {K : Type} (self : RateLimiter) (rest : PacedCall K) : PacedCall K :=
  .untilReady (.direct self.limiter) rest

/-- `RateLimiter::run`. -/
def RateLimiter.run {K : Type} (self : RateLimiter) (f : PacedCall K) : PacedCall K :=
  self.waitForSlot f

/-- `KeyedRateLimiter::wait_for_slot`, before the rest of a call. -/
def KeyedRateLimiter.waitForSlot {K : Type} (self : KeyedRateLimiter K) (key : K)
    (rest : PacedCall K) : PacedCall K :=
  .untilReady (.keyed self.limiter key) rest

/-- `KeyedRateLimiter::run`. -/
def KeyedRateLimiter.run {K : Type} (self : KeyedRateLimiter K) (key : K) (f : PacedCall K) :
    PacedCall K :=
  self.waitForSlot key f

/-- What the limiters of `governor` do; `σ` is the state of all their buckets. -/
structure Governor.Limiters (g : Governor) (K σ : Type) where
  /-- The quota each limiter was built with, by reference. -/
  quota : ℕ → g.Quota
  init : σ
  /-- Try to take a cell of a bucket at a clock reading. -/
  check : σ → Slot K → ℕ → Option σ
  /-- `KeyedRateLimiter::retain_recent` of a limiter, at a clock reading. -/
  retainRecent : σ → ℕ → ℕ → σ

/-- The rate of a plain quota. -/
def Governor.plainRate (quota : Governor.plain.Quota) : Rate :=
  ⟨quota.1.val, quota.2.toNanos, quota.1.property.1⟩

/-- Limiters that keep the theoretical arrival time of each bucket, for the plain governor. -/
def Governor.plainLimiters (K : Type) [DecidableEq K] (quota : ℕ → Governor.plain.Quota) :
    Governor.plain.Limiters K (Slot K → Option ℕ) where
  quota := quota
  init _ := none
  check st slot now :=
    let rate := plainRate (quota slot.limiter)
    if rate.Gives (st slot) now then
      some (Function.update st slot (some (rate.charge (st slot) now)))
    else none
  retainRecent st limiter now slot :=
    if slot.isKeyOf limiter then (st slot).filter (now < ·) else st slot

/-! ### Calls -/

namespace RateLimit

/-- Where a call stands. -/
inductive Phase (K : Type) where
  /-- Not polled yet, or pending in `until_ready`. -/
  | suspended (rest : PacedCall K)
  /-- Being polled. -/
  | polling (rest : PacedCall K)
  /-- The closure has been invoked and its future is awaited. -/
  | running
  | returned
  | panicked
  /-- Dropped before the closure was invoked. -/
  | dropped (rest : PacedCall K)
  /-- Dropped while the closure's future was awaited. -/
  | interrupted
  deriving DecidableEq

/-- A call: what it was to await, and where it stands. -/
structure Call (K : Type) where
  plan : PacedCall K
  phase : Phase K
  deriving DecidableEq

/-- A call is made, or a keyed limiter is told to forget old keys. -/
inductive Move (K : Type) where
  | call (plan : PacedCall K)
  | retainRecent (limiter now : ℕ)
  deriving DecidableEq

/-- One step of a call. -/
inductive Act where
  | poll
  /-- `check` of the bucket the call awaits, at a clock reading. -/
  | check (now : ℕ)
  | invoke
  | finish
  | panic
  | drop
  deriving DecidableEq

variable {g : Governor} {K σ : Type} (L : g.Limiters K σ)

/-- The configurations of the limiters and the calls. -/
abbrev State (K σ : Type) := Config σ (Call K)

/-- The moves of the limiters and the calls. -/
abbrev Label (K : Type) := Transition.Move (Move K) Act

/-- A move of the caller. -/
def main (s : State K σ) : Move K → Option (σ × List (Call K))
  | .call plan => some (s.shared, [⟨plan, .suspended plan⟩])
  | .retainRecent limiter now => some (L.retainRecent s.shared limiter now, [])

/-- One step of a call. -/
def act (st : σ) (a : Act) (p : Phase K) : Option (σ × Phase K) :=
  match a, p with
  | .poll, .suspended rest => some (st, .polling rest)
  | .check now, .polling (.untilReady slot rest) =>
    match L.check st slot now with
    | some st' => some (st', .polling rest)
    | none => some (st, .suspended (.untilReady slot rest))
  | .invoke, .polling .closure => some (st, .running)
  | .finish, .running => some (st, .returned)
  | .panic, .running => some (st, .panicked)
  | .drop, .suspended rest => some (st, .dropped rest)
  | .drop, .running => some (st, .interrupted)
  | _, _ => none

/-- Limiters nobody has called yet, and their callers. -/
def system : TaskSystem (σ) (Call K) (Move K) Act where
  init := L.init
  main := main L
  act st _ t a := (act L st a t.phase).map fun r => (r.1, { t with phase := r.2 })

/-- The cell a step takes, with its clock reading. -/
def taken (st : σ) (a : Act) (p : Phase K) : List (Slot K × ℕ) :=
  match a, p with
  | .check now, .polling (.untilReady slot _) =>
    if (L.check st slot now).isSome then [(slot, now)] else []
  | _, _ => []

/-- The cells a move gives out. -/
def cells (s : State K σ) : Label K → Journal (Slot K × ℕ)
  | .main _ => []
  | .act i a => (s.tasks[i]?).elim [] fun t => Journal.tag i (taken L s.shared a t.phase)

/-- The cells of a run, in the order in which they are taken. -/
def ledger (ls : List (Label K)) : Journal (Slot K × ℕ) :=
  (system L).machine.observe (cells L) (system L).machine.init ls

/-- How often call `i` has invoked its closure. -/
def invocations [DecidableEq K] (ls : List (Label K)) (i : ℕ) : ℕ := ls.count (.act i .invoke)

/-! ### Inversion of the steps -/

/-- What one step of a call can do, with the cells it takes. -/
inductive Step (st : σ) :
    Act → Phase K → σ → Phase K → List (Slot K × ℕ) → Prop
  | poll {rest : PacedCall K} : Step st .poll (.suspended rest) st (.polling rest) []
  | take {now : ℕ} {slot : Slot K} {rest : PacedCall K} {st' : σ}
      (hcheck : L.check st slot now = some st') :
      Step st (.check now) (.polling (.untilReady slot rest)) st' (.polling rest) [(slot, now)]
  | wait {now : ℕ} {slot : Slot K} {rest : PacedCall K} (hcheck : L.check st slot now = none) :
      Step st (.check now) (.polling (.untilReady slot rest)) st
        (.suspended (.untilReady slot rest)) []
  | invoke : Step st .invoke (.polling .closure) st .running []
  | finish : Step st .finish .running st .returned []
  | panic : Step st .panic .running st .panicked []
  | drop {rest : PacedCall K} : Step st .drop (.suspended rest) st (.dropped rest) []
  | interrupt : Step st .drop .running st .interrupted []

variable {L}

/-- A step that the code takes is one of `Step`, and takes the cells it says. -/
private theorem step_of_act {st st' : σ} {a : Act} {p p' : Phase K}
    (h : act L st a p = some (st', p')) : Step L st a p st' p' (taken L st a p) := by
  unfold act at h
  split at h
  · obtain ⟨rfl, rfl⟩ := Prod.mk.inj (Option.some_inj.mp h)
    exact .poll
  · split at h
    · next hcheck =>
      obtain ⟨rfl, rfl⟩ := Prod.mk.inj (Option.some_inj.mp h)
      simp only [taken, hcheck, Option.isSome_some, if_true]
      exact .take hcheck
    · next hcheck =>
      obtain ⟨rfl, rfl⟩ := Prod.mk.inj (Option.some_inj.mp h)
      simp only [taken, hcheck, Option.isSome_none, Bool.false_eq_true, if_false]
      exact .wait hcheck
  · obtain ⟨rfl, rfl⟩ := Prod.mk.inj (Option.some_inj.mp h)
    exact .invoke
  · obtain ⟨rfl, rfl⟩ := Prod.mk.inj (Option.some_inj.mp h)
    exact .finish
  · obtain ⟨rfl, rfl⟩ := Prod.mk.inj (Option.some_inj.mp h)
    exact .panic
  · obtain ⟨rfl, rfl⟩ := Prod.mk.inj (Option.some_inj.mp h)
    exact .drop
  · obtain ⟨rfl, rfl⟩ := Prod.mk.inj (Option.some_inj.mp h)
    exact .interrupt
  · contradiction

/-- Every step of `Step` is taken by the code. -/
private theorem act_of_step {st st' : σ} {a : Act} {p p' : Phase K} {cs : List (Slot K × ℕ)}
    (h : Step L st a p st' p' cs) : act L st a p = some (st', p') ∧ taken L st a p = cs := by
  cases h with
  | take hcheck | wait hcheck => simp [act, taken, hcheck]
  | _ => exact ⟨rfl, rfl⟩

/-- A step of a call, in the system. -/
theorem step_of_system {st st' : σ} {i : ℕ} {t t' : Call K} {a : Act}
    (h : (system L).act st i t a = some (st', t')) :
    ∃ p', t' = { t with phase := p' } ∧ Step L st a t.phase st' p' (taken L st a t.phase) := by
  obtain ⟨⟨st₁, p'⟩, hact, heq⟩ := Option.map_eq_some_iff.mp h
  obtain ⟨rfl, rfl⟩ := Prod.mk.inj heq
  exact ⟨p', rfl, step_of_act hact⟩

/-! ### What a phase knows -/

namespace Phase

/-- The buckets the call has still to pass. -/
def pending : Phase K → List (Slot K)
  | suspended rest | polling rest | dropped rest => rest.slots
  | _ => []

/-- How often the closure has been invoked. -/
def invoked : Phase K → ℕ
  | running | returned | panicked | interrupted => 1
  | _ => 0

/-- The call is being polled. -/
def polled : Phase K → Bool
  | polling _ => true
  | _ => false

end Phase

/-- The buckets a call has passed. -/
def Call.passed (t : Call K) : List (Slot K) :=
  t.plan.slots.take (t.plan.slots.length - t.phase.pending.length)

/-- What has been passed and what is pending make up the call. -/
private theorem Call.passed_eq {t : Call K} {front : List (Slot K)}
    (h : front ++ t.phase.pending = t.plan.slots) : t.passed = front := by
  rw [passed, ← h, List.length_append, Nat.add_sub_cancel, List.take_left]

/-- A call waits for the buckets at the end of its plan. -/
structure Call.Sound (t : Call K) : Prop where
  pending_suffix : t.phase.pending <:+ t.plan.slots
  /-- A call that is not being polled waits for a bucket, unless it has invoked its closure or
  has none to wait for. -/
  waits : t.phase.polled = false → t.plan.slots ≠ [] → t.phase.pending = [] → t.phase.invoked = 1
  invokes : t.phase.invoked = 1 → t.phase.pending = []

/-- A step passes the buckets whose cells it takes. -/
private theorem Step.pending_eq {st st' : σ} {a : Act} {p p' : Phase K}
    {cs : List (Slot K × ℕ)} (h : Step L st a p st' p' cs) :
    p.pending = cs.map Prod.fst ++ p'.pending := by
  cases h <;> rfl

/-- Only an invocation counts as one. -/
private theorem Step.invoked_eq {st st' : σ} {a : Act} {p p' : Phase K}
    {cs : List (Slot K × ℕ)} (h : Step L st a p st' p' cs) :
    p'.invoked = p.invoked + if a = .invoke then 1 else 0 := by
  cases h <;> rfl

/-- A step keeps a call sound, and takes the cells of the buckets it passes. -/
private theorem Call.Sound.step {st st' : σ} {a : Act} {t : Call K} {p' : Phase K}
    {cs : List (Slot K × ℕ)} (ht : t.Sound) (h : Step L st a t.phase st' p' cs) :
    Call.Sound { t with phase := p' } ∧
      Call.passed { t with phase := p' } = t.passed ++ cs.map Prod.fst := by
  obtain ⟨plan, p⟩ := t
  obtain ⟨hsuffix, hwaits, hinvokes⟩ := ht
  dsimp only at h hsuffix hwaits hinvokes ⊢
  have hpending := h.pending_eq
  obtain ⟨front, hfront⟩ := hsuffix
  refine ⟨⟨⟨front ++ cs.map Prod.fst, ?_⟩, ?_, ?_⟩, ?_⟩
  · rw [List.append_assoc, ← hpending, hfront]
  · cases h <;> simp_all [Phase.polled, Phase.pending, Phase.invoked, PacedCall.slots]
  · cases h <;> simp_all [Phase.pending, Phase.invoked, PacedCall.slots]
  · have hafter : Call.passed ⟨plan, p'⟩ = front ++ cs.map Prod.fst :=
      Call.passed_eq (by rw [List.append_assoc, ← hpending, hfront])
    rw [hafter, Call.passed_eq (t := ⟨plan, p⟩) hfront]

/-! ### The cells of a run -/

variable {ls : List (Label K)} {s : State K σ}

/-- One more step adds its cells to the ledger. -/
theorem ledger_snoc (h : (system L).machine.Run ls s) (l : Label K) :
    ledger L (ls ++ [l]) = ledger L ls ++ cells L s l :=
  (system L).machine.observe_snoc _ h

/-- A step of call `i` takes cells in the name of `i`. -/
theorem cells_act {i : ℕ} {t : Call K} {a : Act} (h : s.tasks[i]? = some t) :
    cells L s (.act i a) = Journal.tag i (taken L s.shared a t.phase) := by
  rw [cells, h, Option.elim_some]

/-- A call makes in the system whatever step its phase can make, and takes the same cells. -/
theorem machine_step_act {i : ℕ} {t : Call K} {a : Act} {st' : σ} {p' : Phase K}
    {cs : List (Slot K × ℕ)} (htask : s.tasks[i]? = some t)
    (h : Step L s.shared a t.phase st' p' cs) :
    (system L).machine.step s (.act i a) = some ⟨st', s.tasks.set i { t with phase := p' }⟩ ∧
      cells L s (.act i a) = Journal.tag i cs := by
  obtain ⟨hact, htaken⟩ := act_of_step h
  rw [cells_act htask, htaken]
  exact ⟨((system L).step_iff).mpr (.act htask (Option.map_eq_some_iff.mpr ⟨_, hact, rfl⟩)), rfl⟩

/-- A new call is suspended, with its whole plan before it. -/
private theorem eq_of_main {s : State K σ} {g : Move K} {st : σ}
    {spawned : List (Call K)}
    (h : main L s g = some (st, spawned)) : ∀ t ∈ spawned, t = ⟨t.plan, .suspended t.plan⟩ := by
  cases g with
  | call plan =>
    obtain ⟨-, rfl⟩ := Prod.mk.inj (Option.some_inj.mp h)
    intro t ht
    obtain rfl := List.mem_singleton.mp ht
    rfl
  | retainRecent limiter now =>
    obtain ⟨-, rfl⟩ := Prod.mk.inj (Option.some_inj.mp h)
    exact fun t ht => absurd ht List.not_mem_nil

/-- **The cells are the passed buckets**: every call has taken a cell of each bucket it has passed,
in order, and no cell of any other. -/
theorem passed_of_run (h : (system L).machine.Run ls s) :
    (∀ t ∈ s.tasks, t.Sound) ∧
      ∀ i, ((ledger L ls).entries i).map Prod.fst = s.look Call.passed [] i := by
  refine h.induct (I := fun ls s => (∀ t ∈ s.tasks, t.Sound) ∧
    ∀ i, ((ledger L ls).entries i).map Prod.fst = s.look Call.passed [] i) ?_ ?_
  · exact ⟨fun t ht => absurd ht List.not_mem_nil, fun _ => rfl⟩
  · rintro ls l s s' hrun ⟨hsound, hentries⟩ hl
    rw [ledger_snoc hrun]
    cases ((system L).step_iff).mp hl with
    | @main g st spawned hmain =>
      have hnew : ∀ t ∈ spawned, t.Sound ∧ t.passed = [] := by
        intro t ht
        rw [eq_of_main hmain t ht]
        exact ⟨⟨List.suffix_rfl, fun _ hne hnil => absurd hnil hne, by simp [Phase.invoked]⟩,
          Call.passed_eq rfl⟩
      refine ⟨fun t ht => ?_, fun i => ?_⟩
      · exact (List.mem_append.mp ht).elim (hsound t) fun ht => (hnew t ht).1
      · rw [Config.look_spawn fun t ht => (hnew t ht).2, cells, List.append_nil]
        exact hentries i
    | @act i a t t' st htask hact =>
      obtain ⟨p', rfl, hstep⟩ := step_of_system hact
      obtain ⟨hsound', hpassed⟩ := (hsound t (List.mem_of_getElem? htask)).step hstep
      refine ⟨fun u hu => ?_, fun k => ?_⟩
      · rcases List.mem_or_eq_of_mem_set hu with hu | rfl
        · exact hsound u hu
        · exact hsound'
      · rw [Config.look_act htask, cells_act htask, Journal.entries_append, Journal.entries_tag,
          List.map_append, hentries]
        by_cases hk : k = i
        · subst hk
          rw [if_pos rfl, if_pos rfl, hpassed, Config.look_of_getElem? htask]
        · rw [if_neg hk, if_neg hk, List.map_nil, List.append_nil]

/-- A call invokes its closure at most once. -/
private theorem invocations_eq [DecidableEq K] (h : (system L).machine.Run ls s) (i : ℕ) :
    invocations ls i = s.look (·.phase.invoked) 0 i := by
  refine h.induct (I := fun ls s => ∀ i, invocations ls i = s.look (·.phase.invoked) 0 i)
    (fun _ => rfl) (fun ls l s s' hrun ih hl i => ?_) i
  have hsnoc : invocations (ls ++ [l]) i =
      invocations ls i + if l == .act i .invoke then 1 else 0 := by
    rw [invocations, List.count_append, List.count_singleton, invocations]
  rw [hsnoc]
  cases ((system L).step_iff).mp hl with
  | @main g st spawned hmain =>
    have hnew : ∀ t ∈ spawned, t.phase.invoked = 0 := fun t ht => by
      rw [eq_of_main hmain t ht]
      rfl
    rw [Config.look_spawn hnew, ih]
    simp
  | @act j a t t' st htask hact =>
    obtain ⟨p', rfl, hstep⟩ := step_of_system hact
    rw [Config.look_act htask, ih, hstep.invoked_eq]
    by_cases hij : i = j
    · subst hij
      rw [if_pos rfl, Config.look_of_getElem? htask]
      simp
    · have hne : (Transition.Move.act j a : Label K) ≠ .act i .invoke := fun heq => by
        simp only [Transition.Move.act.injEq] at heq
        exact hij heq.1.symm
      rw [if_neg hij, beq_eq_false_iff_ne.mpr hne]
      rfl

/-! ### The law of the calls -/

/-- A phase has invoked at most once. -/
private theorem Phase.invoked_le_one (p : Phase K) : p.invoked ≤ 1 := by
  unfold invoked
  split <;> decide

/-- A call that has passed a bucket at the end of its plan, and is not being polled, has invoked its
closure. -/
private theorem Call.Sound.count_passed [DecidableEq K] {t : Call K} (ht : t.Sound)
    (hpolled : t.phase.polled = false) {slot : Slot K}
    (hlast : slot ∈ t.plan.slots → ∃ front, t.plan.slots = front ++ [slot] ∧ slot ∉ front) :
    t.passed.countP (· = slot) =
      if (slot ∈ t.plan.slots && t.phase.invoked = 1 : Bool) then 1 else 0 := by
  obtain ⟨passed, hpassed⟩ := ht.pending_suffix
  rw [Call.passed_eq hpassed]
  by_cases hmem : slot ∈ t.plan.slots
  · obtain ⟨front, hslots, hfront⟩ := hlast hmem
    by_cases hinvoked : t.phase.invoked = 1
    · -- all buckets are passed, the last one once
      rw [ht.invokes hinvoked, List.append_nil] at hpassed
      rw [hpassed, hslots, List.countP_append]
      have hzero : front.countP (· = slot) = 0 :=
        List.countP_eq_zero.mpr fun x hx => by
          rw [decide_eq_true_eq]
          exact fun heq => hfront (heq ▸ hx)
      simp [hzero, hinvoked]
    · -- the last bucket is still to be passed
      have hpending : t.phase.pending ≠ [] := fun hnil =>
        hinvoked (ht.waits hpolled (List.ne_nil_of_mem hmem) hnil)
      obtain ⟨rest, last, hrest⟩ := (List.eq_nil_or_concat' t.phase.pending).resolve_left hpending
      rw [hrest, hslots, ← List.append_assoc] at hpassed
      obtain ⟨rfl, -⟩ := List.append_inj' hpassed rfl
      rw [if_neg (by simp [hinvoked]), List.countP_eq_zero]
      intro x hx
      rw [decide_eq_true_eq]
      exact fun heq => hfront (heq ▸ List.mem_append_left _ hx)
  · rw [if_neg (by simp [hmem]), List.countP_eq_zero]
    intro x hx
    rw [decide_eq_true_eq]
    exact fun heq => hmem (heq ▸ hpassed ▸ List.mem_append_left _ hx)

/-- **The law of the calls**, for every interleaving of any number of nested `run`s on any limiters.
A call has taken one cell of each bucket it has passed, in the order of its `run`s, and invokes its
closure at most once, which it does when it has passed all of them before it is suspended again. So
no cell of a bucket at which calls arrive last is lost: when no call is being polled, exactly as
many cells of it have been given out as closures invoked, whichever calls have been dropped. -/
theorem calls_law [DecidableEq K] (hrun : (system L).machine.Run ls s) :
    (∀ i t, s.tasks[i]? = some t →
      ((ledger L ls).entries i).map Prod.fst ++ t.phase.pending = t.plan.slots ∧
      invocations ls i ≤ 1 ∧
      (invocations ls i = 1 → ((ledger L ls).entries i).map Prod.fst = t.plan.slots) ∧
      (t.phase.polled = false → t.plan.slots ≠ [] →
        ((ledger L ls).entries i).map Prod.fst = t.plan.slots → invocations ls i = 1)) ∧
    ∀ slot : Slot K, (∀ t ∈ s.tasks, t.phase.polled = false) →
      (∀ t ∈ s.tasks, slot ∈ t.plan.slots →
        ∃ front, t.plan.slots = front ++ [slot] ∧ slot ∉ front) →
      (ledger L ls).countP (fun e => e.2.1 = slot) =
        s.tasks.countP fun t => slot ∈ t.plan.slots && t.phase.invoked = 1 := by
  obtain ⟨hsound, hentries⟩ := passed_of_run hrun
  refine ⟨fun i t ht => ?_, fun slot hpolled hlast => ?_⟩
  · have hmem := List.mem_of_getElem? ht
    obtain ⟨passed, hpassed⟩ := (hsound t hmem).pending_suffix
    rw [hentries, invocations_eq hrun, Config.look_of_getElem? ht, Config.look_of_getElem? ht,
      Call.passed_eq hpassed]
    refine ⟨hpassed, t.phase.invoked_le_one, fun hinvoked => ?_, fun hpolled hne hall => ?_⟩
    · rw [← hpassed, (hsound t hmem).invokes hinvoked, List.append_nil]
    · have hnil : t.phase.pending = [] :=
        List.append_right_eq_self.mp (hpassed.trans hall.symm)
      exact (hsound t hmem).waits hpolled hne hnil
  · have hjournal : ∀ i, Journal.entries ((ledger L ls).map fun e => (e.1, e.2.1)) i =
        (s.tasks[i]?).elim [] Call.passed := fun i => by
      rw [Journal.entries_map (f := Prod.fst), hentries, Config.look]
    have hcount := Journal.countP_eq (p := (· = slot)) hjournal fun t ht =>
      (hsound t ht).count_passed (hpolled t ht) (hlast t ht)
    rw [List.countP_map] at hcount
    exact hcount

/-- A limiter for all chats and one for each chat, of one cell every ten nanoseconds. -/
def everyTen (K : Type) [DecidableEq K] : Governor.plain.Limiters K (Slot K → Option ℕ) :=
  Governor.plainLimiters K fun _ => (⟨1, Governor.one_isNonZeroU32⟩, Duration.fromNanos 10)

/-- The recommended order: the limiter of the chat first. -/
def perChatFirst (chat : Char) : PacedCall Char :=
  (⟨1⟩ : KeyedRateLimiter Char).run chat ((⟨0⟩ : RateLimiter).run .closure)

/-- Two calls for one chat and one for another: the second one is denied the cell of its chat and
dropped, the third one the cell of all chats. -/
def threeCalls : List (Label Char) :=
  [.main (.call (perChatFirst 'a')), .main (.call (perChatFirst 'a')),
    .main (.call (perChatFirst 'b')), .act 0 .poll, .act 0 (.check 3), .act 0 (.check 3),
    .act 0 .invoke, .act 1 .poll, .act 1 (.check 4), .act 1 .drop, .act 2 .poll,
    .act 2 (.check 5), .act 2 (.check 6)]

/-- Where they stand then. -/
def afterThreeCalls : State Char (Slot Char → Option ℕ) :=
  ((system (everyTen Char)).machine.exec (system (everyTen Char)).machine.init threeCalls).getD
    (system (everyTen Char)).machine.init

private theorem run_threeCalls :
    (system (everyTen Char)).machine.Run threeCalls afterThreeCalls := rfl

theorem calls_law_threeCalls :
    (ledger (everyTen Char) threeCalls).countP (fun e => e.2.1 = .direct 0) = 1 ∧
      invocations threeCalls 1 ≤ 1 := by
  obtain ⟨hcalls, hlast⟩ := calls_law run_threeCalls
  have htasks : afterThreeCalls.tasks = [⟨perChatFirst 'a', .running⟩,
      ⟨perChatFirst 'a', .dropped (perChatFirst 'a')⟩,
      ⟨perChatFirst 'b', .suspended ((⟨0⟩ : RateLimiter).run .closure)⟩] := rfl
  rw [htasks] at hcalls hlast
  refine ⟨hlast (.direct 0) (by decide) ?_, (hcalls 1 _ rfl).2.1⟩
  intro t ht _
  have hslots : t.plan.slots = [.keyed 1 'a', .direct 0] ∨
      t.plan.slots = [.keyed 1 'b', .direct 0] := by
    revert t
    decide
  rcases hslots with hslots | hslots
  · exact ⟨[.keyed 1 'a'], hslots, by decide⟩
  · exact ⟨[.keyed 1 'b'], hslots, by decide⟩

/-- In the other order a cell of the limiter for all chats is lost: two cells for one closure. -/
example : let allFirst := (⟨0⟩ : RateLimiter).run ((⟨1⟩ : KeyedRateLimiter Char).run 'a' .closure)
    let ls : List (Label Char) := [.main (.call allFirst), .main (.call allFirst), .act 0 .poll,
      .act 0 (.check 3), .act 0 (.check 3), .act 0 .invoke, .act 1 .poll, .act 1 (.check 13),
      .act 1 (.check 12), .act 1 .drop]
    (ledger (everyTen Char) ls).countP (fun e => e.2.1 = .direct 0) = 2 ∧
      invocations ls 1 = 0 := by
  decide +kernel

end RateLimit

end RustUtils
