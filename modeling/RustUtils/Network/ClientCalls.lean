import RustUtils.Concurrency.RateLimitLaw
import RustUtils.Network.ClientPrograms

/-!
# Concurrent calls of the HTTP clients

Any number of calls of any stacks of clients, made on clones that share their limiters, and
interleaved in any way. A call follows its program. It is suspended in `until_ready` when a check of
its bucket is denied, in `reqwest::Client::execute` until the transport answers, and in
`sleep_or_cancel`; there it can be dropped. `Act` is what a call does next, `elapse` lets the clock
go on, and the answers of the transport and the readings of the wall clock are arbitrary.

`journal` notes every effect of a call when it has been answered, with the instants at which it
was begun and answered. `Call.Sound` is the invariant of a call, and `sound_of_run` its run lemma.
-/

namespace RustUtils

open Transition Timeline Resumption

namespace ClientCalls

/-! ### The machine -/

/-- What the calls share. -/
structure Shared (σ : Type) where
  /-- The monotonic clock, which the limiters and the sleeps read. -/
  now : ℕ
  /-- The buckets of the limiters, which have no keys. -/
  buckets : σ

/-- Where a call stands with the next effect of its program. -/
inductive Mode where
  /-- Not polled yet, or pending in `until_ready`. -/
  | suspended
  /-- Being polled. -/
  | polled
  /-- The request has gone out. -/
  | inFlight (since : ℕ)
  /-- Pending in `sleep_or_cancel`. -/
  | asleep (since : ℕ) (sleep : Sleep CancellationToken)
  | dropped
  /-- Dropped with its request in flight. -/
  | interrupted
  deriving DecidableEq

/-- Where a call stands, and what is left of its program. -/
structure Phase where
  mode : Mode
  rest : Program (UtilsResult Response)

/-- A call of `execute` on a stack of clients. -/
structure Call where
  stack : ClientStack
  request : Request
  phase : Phase

/-- A call is made, or time goes by. -/
inductive Move where
  | call (stack : ClientStack) (req : Request)
  | elapse (nanos : ℕ)

/-- One step of a call. -/
inductive Act where
  | poll
  /-- `check` of the bucket the call awaits. -/
  | check
  /-- The request goes out. -/
  | dispatch
  /-- The transport answers. -/
  | answer (result : Except ReqwestError Response)
  | readClock (wall : ℤ)
  /-- `sleep_or_cancel` is entered and polled. -/
  | sleep
  | drop
  deriving DecidableEq

/-- An answered effect of a call. -/
structure Note where
  effect : Effect
  answer : effect.Answer
  startedAt : ℕ
  finishedAt : ℕ

/-- The effect with its answer. -/
def Note.event (n : Note) : Sigma Effect.Answer := ⟨n.effect, n.answer⟩

variable {g : Governor} {σ : Type} (L : g.Limiters Empty σ)

/-- The configurations of the limiters and the calls. -/
abbrev State (σ : Type) := Config (Shared σ) Call

/-- The moves of the callers and the steps of the calls. -/
abbrev Label := Transition.Move Move Act

/-- A call after a poll of its `sleep_or_cancel`. -/
def slept (now since : ℕ) (token : Option CancellationToken) (delay : Duration)
    (k : Bool → Program (UtilsResult Response)) : Sleep CancellationToken → Phase × List Note
  | .done elapsed => (⟨.polled, k elapsed⟩, [⟨.sleep token delay, elapsed, since, now⟩])
  | sleep => (⟨.asleep since sleep, .await (.sleep token delay) k⟩, [])

/-- One step of a call, with what it notes. -/
def act (sh : Shared σ) (a : Act) (p : Phase) : Option (Shared σ × Phase × List Note) :=
  match a, p with
  | .poll, ⟨.suspended, rest⟩ => some (sh, ⟨.polled, rest⟩, [])
  | .check, ⟨.polled, .await (.untilReady limiter) k⟩ =>
    match L.check sh.buckets (.direct limiter) sh.now with
    | some buckets =>
      some ({ sh with buckets := buckets }, ⟨.polled, k ()⟩,
        [⟨.untilReady limiter, (), sh.now, sh.now⟩])
    | none => some (sh, ⟨.suspended, .await (.untilReady limiter) k⟩, [])
  | .dispatch, ⟨.polled, .await (.send req) k⟩ =>
    some (sh, ⟨.inFlight sh.now, .await (.send req) k⟩, [])
  | .answer result, ⟨.inFlight since, .await (.send req) k⟩ =>
    some (sh, ⟨.polled, k result⟩, [⟨.send req, result, since, sh.now⟩])
  | .readClock wall, ⟨.polled, .await .wallClock k⟩ =>
    some (sh, ⟨.polled, k wall⟩, [⟨.wallClock, wall, sh.now, sh.now⟩])
  | .sleep, ⟨.polled, .await (.sleep token delay) k⟩ =>
    some (sh, slept sh.now sh.now token delay k
      ((Sleep.start token delay sh.now).poll (·.isCancelled sh.now) sh.now))
  | .poll, ⟨.asleep since sleep, .await (.sleep token delay) k⟩ =>
    some (sh, slept sh.now since token delay k (sleep.poll (·.isCancelled sh.now) sh.now))
  | .drop, ⟨.suspended, rest⟩ | .drop, ⟨.asleep _ _, rest⟩ => some (sh, ⟨.dropped, rest⟩, [])
  | .drop, ⟨.inFlight _, rest⟩ => some (sh, ⟨.interrupted, rest⟩, [])
  | _, _ => none

/-- A move of the callers. -/
def main (s : State σ) : Move → Option (Shared σ × List Call)
  | .call stack req => some (s.shared, [⟨stack, req, ⟨.suspended, stack.execute req⟩⟩])
  | .elapse nanos => some ({ s.shared with now := s.shared.now + nanos }, [])

/-- Limiters nobody has used yet, and the calls on them. -/
def system : TaskSystem (Shared σ) Call Move Act where
  init := ⟨0, L.init⟩
  main := main
  act sh _ t a := (act L sh a t.phase).map fun r => (r.1, { t with phase := r.2.1 })

/-- What a step notes. -/
def notes (s : State σ) : Label → Journal Note
  | .main _ => []
  | .act i a => (s.tasks[i]?).elim [] fun t =>
    Journal.tag i (((act L s.shared a t.phase).map (·.2.2)).getD [])

/-- What the calls of a run have noted. -/
def journal (ls : List Label) : Journal Note :=
  (system L).machine.observe (notes L) (system L).machine.init ls

/-! ### Inversion of the steps -/

/-- The poll of a `sleep_or_cancel` in a step, with the instant at which it was entered. -/
inductive Polls (now : ℕ) (token : Option CancellationToken) (delay : Duration) :
    Act → Mode → ℕ → Sleep CancellationToken → Prop
  | enter : Polls now token delay .sleep .polled now
      ((Sleep.start token delay now).poll (·.isCancelled now) now)
  | again {since : ℕ} {sleep : Sleep CancellationToken} :
      Polls now token delay .poll (.asleep since sleep) since
        (sleep.poll (·.isCancelled now) now)

/-- What one step of a call can do, with what it notes. -/
inductive Step (sh : Shared σ) : Act → Phase → Shared σ → Phase → List Note → Prop
  | poll {rest : Program (UtilsResult Response)} :
      Step sh .poll ⟨.suspended, rest⟩ sh ⟨.polled, rest⟩ []
  | take {limiter : ℕ} {k : Unit → Program (UtilsResult Response)} {buckets : σ}
      (hcheck : L.check sh.buckets (.direct limiter) sh.now = some buckets) :
      Step sh .check ⟨.polled, .await (.untilReady limiter) k⟩ { sh with buckets := buckets }
        ⟨.polled, k ()⟩ [⟨.untilReady limiter, (), sh.now, sh.now⟩]
  | wait {limiter : ℕ} {k : Unit → Program (UtilsResult Response)}
      (hcheck : L.check sh.buckets (.direct limiter) sh.now = none) :
      Step sh .check ⟨.polled, .await (.untilReady limiter) k⟩ sh
        ⟨.suspended, .await (.untilReady limiter) k⟩ []
  | dispatch {req : Request}
      {k : Except ReqwestError Response → Program (UtilsResult Response)} :
      Step sh .dispatch ⟨.polled, .await (.send req) k⟩ sh
        ⟨.inFlight sh.now, .await (.send req) k⟩ []
  | answer {result : Except ReqwestError Response} {since : ℕ} {req : Request}
      {k : Except ReqwestError Response → Program (UtilsResult Response)} :
      Step sh (.answer result) ⟨.inFlight since, .await (.send req) k⟩ sh ⟨.polled, k result⟩
        [⟨.send req, result, since, sh.now⟩]
  | readClock {wall : ℤ} {k : ℤ → Program (UtilsResult Response)} :
      Step sh (.readClock wall) ⟨.polled, .await .wallClock k⟩ sh ⟨.polled, k wall⟩
        [⟨.wallClock, wall, sh.now, sh.now⟩]
  | doze {a : Act} {m : Mode} {token : Option CancellationToken} {delay : Duration}
      {k : Bool → Program (UtilsResult Response)} {since : ℕ} {sleep : Sleep CancellationToken}
      (hpoll : Polls sh.now token delay a m since sleep) (hpending : ∀ b, sleep ≠ .done b) :
      Step sh a ⟨m, .await (.sleep token delay) k⟩ sh
        ⟨.asleep since sleep, .await (.sleep token delay) k⟩ []
  | wake {a : Act} {m : Mode} {token : Option CancellationToken} {delay : Duration}
      {k : Bool → Program (UtilsResult Response)} {since : ℕ} {elapsed : Bool}
      (hpoll : Polls sh.now token delay a m since (.done elapsed)) :
      Step sh a ⟨m, .await (.sleep token delay) k⟩ sh ⟨.polled, k elapsed⟩
        [⟨.sleep token delay, elapsed, since, sh.now⟩]
  | drop {rest : Program (UtilsResult Response)} :
      Step sh .drop ⟨.suspended, rest⟩ sh ⟨.dropped, rest⟩ []
  | dropAsleep {since : ℕ} {sleep : Sleep CancellationToken}
      {rest : Program (UtilsResult Response)} :
      Step sh .drop ⟨.asleep since sleep, rest⟩ sh ⟨.dropped, rest⟩ []
  | interrupt {since : ℕ} {rest : Program (UtilsResult Response)} :
      Step sh .drop ⟨.inFlight since, rest⟩ sh ⟨.interrupted, rest⟩ []

variable {L}

private theorem Step.of_polls {sh : Shared σ} {a : Act} {m : Mode}
    {token : Option CancellationToken}
    {delay : Duration} {k : Bool → Program (UtilsResult Response)} {since : ℕ}
    {sleep : Sleep CancellationToken} (h : Polls sh.now token delay a m since sleep) :
    Step L sh a ⟨m, .await (.sleep token delay) k⟩ sh (slept sh.now since token delay k sleep).1
      (slept sh.now since token delay k sleep).2 := by
  cases sleep with
  | done elapsed => exact .wake h
  | timer deadline => exact .doze h nofun
  | select token' deadline => exact .doze h nofun

/-- A step that the code takes is one of `Step`. -/
theorem step_of_act {sh sh' : Shared σ} {a : Act} {p p' : Phase} {ns : List Note}
    (h : act L sh a p = some (sh', p', ns)) : Step L sh a p sh' p' ns := by
  unfold act at h
  split at h
  · cases h
    exact .poll
  · split at h
    · next hcheck =>
      cases h
      exact .take hcheck
    · next hcheck =>
      cases h
      exact .wait hcheck
  · cases h
    exact .dispatch
  · cases h
    exact .answer
  · cases h
    exact .readClock
  · obtain ⟨rfl, hslept⟩ := Prod.mk.inj (Option.some_inj.mp h)
    obtain rfl : _ = p' := congrArg Prod.fst hslept
    obtain rfl : _ = ns := congrArg Prod.snd hslept
    exact .of_polls .enter
  · obtain ⟨rfl, hslept⟩ := Prod.mk.inj (Option.some_inj.mp h)
    obtain rfl : _ = p' := congrArg Prod.fst hslept
    obtain rfl : _ = ns := congrArg Prod.snd hslept
    exact .of_polls .again
  · cases h
    exact .drop
  · cases h
    exact .dropAsleep
  · cases h
    exact .interrupt
  · contradiction

/-! ### What the notes say -/

/-- The request of a note, with what came back. -/
def Note.dispatch : Note → Option Dispatch
  | ⟨.send req, result, _, _⟩ => some ⟨req, result⟩
  | _ => none

/-- The cell of a note, with the instant at which it was taken. -/
def Note.cell : Note → Option (Slot Empty × ℕ)
  | ⟨.untilReady limiter, _, _, finished⟩ => some (.direct limiter, finished)
  | _ => none

/-- The requests of a call that have been answered. -/
def sent (ns : List Note) : List Dispatch := ns.filterMap Note.dispatch

/-- The notes of the requests that have been answered. -/
def responses (ns : List Note) : List Note := ns.filter (·.dispatch.isSome)

/-- The cells of a call. -/
def cells (ns : List Note) : List (Slot Empty × ℕ) := ns.filterMap Note.cell

/-- What a call has performed. -/
def tally (ns : List Note) : Tally := ns.foldl (fun t n => t.next n.effect n.answer) Tally.init

@[simp]
theorem tally_snoc (ns : List Note) (n : Note) :
    tally (ns ++ [n]) = (tally ns).next n.effect n.answer := by
  rw [tally, List.foldl_append]
  rfl

@[simp]
theorem sent_append (ns ns' : List Note) : sent (ns ++ ns') = sent ns ++ sent ns' :=
  List.filterMap_append

private theorem sent_snoc (ns : List Note) (n : Note) :
    sent (ns ++ [n]) = sent ns ++ n.dispatch.toList := by
  rw [sent, List.filterMap_append]
  cases h : n.dispatch <;> simp [sent, h]

private theorem cells_snoc (ns : List Note) (n : Note) :
    cells (ns ++ [n]) = cells ns ++ n.cell.toList := by
  rw [cells, List.filterMap_append]
  cases h : n.cell <;> simp [cells, h]

private theorem responses_snoc (ns : List Note) (n : Note) :
    responses (ns ++ [n]) = if n.dispatch.isSome then responses ns ++ [n] else responses ns := by
  rw [responses, List.filter_append]
  cases h : n.dispatch <;> simp [responses, h]

/-- The monitor of a call keeps its tally. -/
theorem after_events (client : SharedClient) (layers : List RetryLayer) (req : Request)
    (limit : ℕ) (ns : List Note) :
    (watch client layers req limit).after Tally.init (ns.map Note.event) = tally ns := by
  rw [Monitor.after, List.foldl_map]
  rfl

/-- The tally counts the cells and the requests. -/
theorem tally_spec (ns : List Note) :
    (tally ns).cells = (cells ns).length ∧ (tally ns).sends = (sent ns).length ∧
      (tally ns).last = (sent ns).getLast?.map Dispatch.outcome := by
  induction ns using List.reverseRecOn with
  | nil => exact ⟨rfl, rfl, rfl⟩
  | append_singleton ns n ih =>
    obtain ⟨hcells, hsends, hlast⟩ := ih
    rw [tally_snoc, cells_snoc, sent_snoc]
    obtain ⟨effect, answer, started, finished⟩ := n
    cases effect with
    | untilReady limiter => simp [Tally.next, Note.cell, Note.dispatch, hcells, hsends, hlast]
    | send req => simp [Tally.next, Note.cell, Note.dispatch, hcells, hsends, Dispatch.outcome]
    | wallClock => simp [Tally.next, Note.cell, Note.dispatch, hcells, hsends, hlast]
    | sleep token delay =>
      cases answer <;> simp [Tally.next, Note.cell, Note.dispatch, hcells, hsends, hlast]

/-- An effect takes no negative time, and a sleep is cut short by its token only: it has lasted its
delay, at the end of which its token is not cancelled unless the delay is zero; or its token is. -/
def Note.Timely : Note → Prop
  | ⟨.sleep token delay, elapsed, started, finished⟩ =>
    started ≤ finished ∧ if elapsed then started + delay.toNanos ≤ finished ∧
        (delay.isZero = true ∨ ∀ tok ∈ token, tok.isCancelled finished = false)
      else delay.isZero = false ∧ ∃ tok ∈ token, tok.isCancelled finished = true
  | n => n.startedAt ≤ n.finishedAt

/-! ### The invariant of a call -/

/-- The instant at which the effect a call awaits was begun. -/
def Mode.since (now : ℕ) : Mode → ℕ
  | inFlight since | asleep since _ => since
  | _ => now

/-- A call that is not being polled waits for what its mode says. -/
def Phase.Sound (p : Phase) : Prop :=
  match p.mode with
  | .inFlight _ | .interrupted => ∃ req k, p.rest = .await (.send req) k
  | .asleep since sleep => ∃ token delay k, p.rest = .await (.sleep token delay) k ∧
    sleep = Sleep.start token delay since
  | _ => True

/-- A call that is suspended or has been dropped has begun nothing, or no further request. -/
def Phase.Idle (p : Phase) (ns : List Note) : Prop :=
  ns = [] ∨ (∃ limiter k, p.rest = .await (.untilReady limiter) k) ∨
    ∃ token delay k, p.rest = .await (.sleep token delay) k

/-- The delay has passed from one instant to another one, and has not been cut short. -/
def SleptSince (start : ℕ) (token : Option CancellationToken) (delay : Duration) (now : ℕ) :
    Prop :=
  start + delay.toNanos ≤ now ∧
    (delay.isZero = true ∨ ∀ tok ∈ token, tok.isCancelled (start + delay.toNanos) = false)

private theorem SleptSince.mono {start now now' : ℕ} {token : Option CancellationToken}
    {delay : Duration}
    (h : SleptSince start token delay now) (hle : now ≤ now') :
    SleptSince start token delay now' :=
  ⟨h.1.trans hle, h.2⟩

/-- What is known of a call with these notes. -/
structure Call.Sound (now : ℕ) (ns : List Note) (t : Call) : Prop where
  reaches : (t.stack.execute t.request).Reaches (ns.map Note.event) t.phase.rest
  phase : t.phase.Sound
  idle : t.phase.mode = .suspended ∨ t.phase.mode = .dropped → t.phase.Idle ns
  timely : ∀ n ∈ ns, n.Timely
  isChain : ns.IsChain fun n n' => n.finishedAt ≤ n'.startedAt
  le_since : ∀ n ∈ ns, n.finishedAt ≤ t.phase.mode.since now
  since_le : t.phase.mode.since now ≤ now
  slept : ∀ n ∈ (responses ns).getLast?, ∀ token delay, (tally ns).slept = some (token, delay) →
    SleptSince n.finishedAt token delay (t.phase.mode.since now)

private theorem Mode.since_mono (m : Mode) {now now' : ℕ} (h : now ≤ now') :
    m.since now ≤ m.since now' := by
  cases m with
  | inFlight since | asleep since sleep => exact le_rfl
  | _ => exact h

/-- A poll that does not resolve a sleep leaves it as it is. -/
theorem poll_eq_self {sleep : Sleep CancellationToken} {isCancelled : CancellationToken → Bool}
    {now : ℕ} (h : ∀ b, sleep.poll isCancelled now ≠ .done b) :
    sleep.poll isCancelled now = sleep := by
  cases sleep with
  | done elapsed => rfl
  | timer deadline =>
    by_cases hend : deadline ≤ now
    · exact absurd (if_pos hend) (h true)
    · exact if_neg hend
  | select tok deadline =>
    rw [Sleep.poll] at h ⊢
    by_cases hcancel : isCancelled tok = true
    · exact absurd (if_pos hcancel) (h false)
    · rw [if_neg hcancel] at h ⊢
      by_cases hend : deadline ≤ now
      · exact absurd (if_pos hend) (h true)
      · exact if_neg hend

/-- A poll that resolves is in time. -/
private theorem timely_of_poll {token : Option CancellationToken} {delay : Duration} {since now : ℕ}
    {elapsed : Bool} (hle : since ≤ now)
    (h : .done elapsed = (Sleep.start token delay since).poll (·.isCancelled now) now) :
    Note.Timely ⟨.sleep token delay, elapsed, since, now⟩ := by
  refine ⟨hle, ?_⟩
  cases hzero : delay.isZero with
  | true =>
    simp only [Sleep.start, hzero, if_true, Sleep.poll, Sleep.done.injEq] at h
    rw [if_pos h, Duration.isZero_iff.mp hzero]
    exact ⟨hle, Or.inl rfl⟩
  | false =>
    simp only [Sleep.start, hzero, Bool.false_eq_true, if_false] at h
    cases token with
    | none =>
      rw [Sleep.poll] at h
      split at h
      · next hend =>
        rw [if_pos (Sleep.done.inj h)]
        exact ⟨hend, Or.inr fun tok htok => absurd htok (Option.not_mem_none tok)⟩
      · contradiction
    | some tok =>
      rw [Sleep.poll] at h
      split at h
      · next hcancel =>
        obtain rfl := Sleep.done.inj h
        exact ⟨rfl, tok, rfl, hcancel⟩
      · next hcancel =>
        split at h
        · next hend =>
          rw [if_pos (Sleep.done.inj h)]
          refine ⟨hend, Or.inr fun tok' htok => ?_⟩
          obtain rfl := Option.mem_some.mp htok
          exact Bool.eq_false_iff.mpr hcancel
        · contradiction

/-! ### The steps of a call -/

/-- The poll of a step is one of the sleep as it was entered. -/
private theorem Polls.eq {now since : ℕ} {token : Option CancellationToken} {delay : Duration}
    {a : Act}
    {m : Mode} {sleep : Sleep CancellationToken} {k : Bool → Program (UtilsResult Response)}
    (h : Polls now token delay a m since sleep)
    (hp : Phase.Sound ⟨m, .await (.sleep token delay) k⟩) :
    since = m.since now ∧
      sleep = (Sleep.start token delay since).poll (·.isCancelled now) now := by
  cases h with
  | enter => exact ⟨rfl, rfl⟩
  | again =>
    obtain ⟨token', delay', k', hrest, rfl⟩ := hp
    obtain ⟨heffect, -⟩ := Resumption.await.inj hrest
    obtain ⟨rfl, rfl⟩ := Effect.sleep.inj heffect
    exact ⟨rfl, rfl⟩

section

variable {sh sh' : Shared σ} {a : Act} {p p' : Phase} {ns : List Note}

private theorem Step.now_eq (h : Step L sh a p sh' p' ns) : sh'.now = sh.now := by
  cases h <;> rfl

/-- Every step of a call keeps its phase sound. -/
private theorem Step.sound (h : Step L sh a p sh' p' ns) (hp : p.Sound) : p'.Sound := by
  cases h with
  | dispatch => exact ⟨_, _, rfl⟩
  | doze hpoll hpending =>
    obtain ⟨-, rfl⟩ := hpoll.eq hp
    exact ⟨_, _, _, rfl, poll_eq_self hpending⟩
  | interrupt => exact hp
  | _ => trivial

/-- A call is suspended in `until_ready`, and dropped where it is suspended or asleep. -/
private theorem Step.idle (h : Step L sh a p sh' p' ns) (hp : p.Sound) {before : List Note}
    (hidle : p.mode = .suspended ∨ p.mode = .dropped → p.Idle before)
    (hmode : p'.mode = .suspended ∨ p'.mode = .dropped) : p'.Idle before := by
  cases h with
  | wait hcheck => exact Or.inr (Or.inl ⟨_, _, rfl⟩)
  | drop => exact hidle (Or.inl rfl)
  | dropAsleep =>
    obtain ⟨token, delay, k, hrest, -⟩ := hp
    exact Or.inr (Or.inr ⟨token, delay, k, hrest⟩)
  | _ => simp at hmode

/-- What a call awaits is begun anew, or has been before. -/
private theorem Step.since_le (h : Step L sh a p sh' p' ns) (hp : p.Sound)
    (hsince : p.mode.since sh.now ≤ sh.now) :
    p.mode.since sh.now ≤ p'.mode.since sh.now ∧ p'.mode.since sh.now ≤ sh.now := by
  cases h with
  | doze hpoll hpending =>
    rw [Mode.since, (hpoll.eq hp).1]
    exact ⟨le_rfl, hsince⟩
  | _ => exact ⟨hsince, le_rfl⟩

/-- **A step of a call** leaves its program alone and notes nothing, or answers its next effect. -/
theorem Step.noted (h : Step L sh a p sh' p' ns) (hp : p.Sound)
    (hsince : p.mode.since sh.now ≤ sh.now) :
    ns = [] ∧ p'.rest = p.rest ∨
      ∃ e k answer, p.rest = .await e k ∧ p' = ⟨.polled, k answer⟩ ∧
        ns = [⟨e, answer, p.mode.since sh.now, sh.now⟩] ∧
        Note.Timely ⟨e, answer, p.mode.since sh.now, sh.now⟩ := by
  cases h with
  | take hcheck => exact Or.inr ⟨_, _, _, rfl, rfl, rfl, le_rfl⟩
  | answer => exact Or.inr ⟨_, _, _, rfl, rfl, rfl, hsince⟩
  | readClock => exact Or.inr ⟨_, _, _, rfl, rfl, rfl, le_rfl⟩
  | wake hpoll =>
    obtain ⟨heq, hdone⟩ := hpoll.eq hp
    subst heq
    exact Or.inr ⟨_, _, _, rfl, rfl, rfl, timely_of_poll hsince hdone⟩
  | _ => exact Or.inl ⟨rfl, rfl⟩

end

/-- A sleep that is noted began after all that has been noted before. -/
private theorem Note.Timely.sleptSince {token : Option CancellationToken} {delay : Duration}
    {started now start : ℕ} (h : Note.Timely ⟨.sleep token delay, true, started, now⟩)
    (hstart : start ≤ started) : SleptSince start token delay now := by
  obtain ⟨-, hslept⟩ := h
  rw [if_pos rfl] at hslept
  obtain ⟨hend, hcancel⟩ := hslept
  have hle : start + delay.toNanos ≤ now := (Nat.add_le_add_right hstart _).trans hend
  refine ⟨hle, hcancel.imp_right fun hnot tok htok => ?_⟩
  -- a token that had been cancelled by then would still be
  rw [Bool.eq_false_iff]
  intro hyes
  exact absurd (CancellationToken.isCancelled_mono hle hyes) (Bool.eq_false_iff.mp (hnot tok htok))

/-- What a note tells of the latest sleep since the latest response. -/
private theorem slept_next {t : Tally} {n : Note} {token : Option CancellationToken}
    {delay : Duration}
    (h : (t.next n.effect n.answer).slept = some (token, delay)) :
    n.dispatch = none ∧ (t.slept = some (token, delay) ∨
      n = ⟨.sleep token delay, true, n.startedAt, n.finishedAt⟩) := by
  obtain ⟨effect, answer, started, finished⟩ := n
  cases effect with
  | untilReady limiter | wallClock => exact ⟨rfl, Or.inl h⟩
  | send req => exact absurd h (Option.some_ne_none _).symm
  | sleep token' delay' =>
    refine ⟨rfl, ?_⟩
    cases answer with
    | false => exact Or.inl h
    | true =>
      obtain ⟨rfl, rfl⟩ := Prod.mk.inj (Option.some_inj.mp h)
      exact Or.inr rfl

/-- A step keeps what is known of a call. -/
private theorem Call.Sound.step {sh sh' : Shared σ} {a : Act} {t : Call} {p' : Phase}
    {ns new : List Note}
    (h : t.Sound sh.now ns) (hstep : Step L sh a t.phase sh' p' new) :
    Call.Sound sh'.now (ns ++ new) { t with phase := p' } := by
  obtain ⟨hsince, hnow⟩ := hstep.since_le h.phase h.since_le
  rw [hstep.now_eq]
  rcases hstep.noted h.phase h.since_le with ⟨rfl, hrest⟩ | ⟨e, k, answer, hrest, rfl, rfl, htimely⟩
  · rw [List.append_nil]
    exact
      { reaches := hrest ▸ h.reaches
        phase := hstep.sound h.phase
        idle := hstep.idle h.phase h.idle
        timely := h.timely
        isChain := h.isChain
        le_since := fun n hn => (h.le_since n hn).trans hsince
        since_le := hnow
        slept := fun n hn token delay hslept => (h.slept n hn token delay hslept).mono hsince }
  · refine ⟨?_, trivial, fun hmode => by simp at hmode, ?_, ?_, ?_, le_rfl, ?_⟩
    · rw [List.map_append]
      exact .snoc (hrest ▸ h.reaches) answer
    · intro n hn
      rcases List.mem_append.mp hn with hn | hn
      · exact h.timely n hn
      · obtain rfl := List.mem_singleton.mp hn
        exact htimely
    · refine List.isChain_append.mpr ⟨h.isChain, .singleton _, fun n hn n' hn' => ?_⟩
      obtain rfl := Option.mem_some.mp hn'
      exact h.le_since n (List.mem_of_getLast? hn)
    · intro n hn
      rcases List.mem_append.mp hn with hn | hn
      · exact (h.le_since n hn).trans h.since_le
      · obtain rfl := List.mem_singleton.mp hn
        exact le_rfl
    · intro n hn token delay hslept
      rw [tally_snoc] at hslept
      obtain ⟨hdispatch, hslept⟩ := slept_next hslept
      rw [responses_snoc, hdispatch, Option.isSome_none, if_neg Bool.false_ne_true] at hn
      rcases hslept with hslept | hnote
      · exact (h.slept n hn token delay hslept).mono h.since_le
      · have hmem : n ∈ ns := (List.mem_filter.mp (List.mem_of_getLast? hn)).1
        exact (hnote ▸ htimely).sleptSince (h.le_since n hmem)

/-! ### The calls of a run -/

variable {ls : List Label} {s s' : State σ}

/-- A step of a call, in the system. -/
theorem act_of_system {sh sh' : Shared σ} {i : ℕ} {t t' : Call} {a : Act}
    (h : (system L).act sh i t a = some (sh', t')) :
    ∃ p' ns, t' = { t with phase := p' } ∧ act L sh a t.phase = some (sh', p', ns) := by
  obtain ⟨⟨sh₁, p', ns⟩, hact, heq⟩ := Option.map_eq_some_iff.mp h
  obtain ⟨rfl, rfl⟩ := Prod.mk.inj heq
  exact ⟨p', ns, rfl, hact⟩

theorem journal_snoc (h : (system L).machine.Run ls s) (l : Label) :
    journal L (ls ++ [l]) = journal L ls ++ notes L s l :=
  (system L).machine.observe_snoc _ h

theorem notes_act {i : ℕ} {t : Call} {a : Act} {sh' : Shared σ} {p' : Phase} {ns : List Note}
    (htask : s.tasks[i]? = some t) (hact : act L s.shared a t.phase = some (sh', p', ns)) :
    notes L s (.act i a) = Journal.tag i ns := by
  rw [notes, htask, Option.elim_some, hact]
  rfl

/-- Time goes by, and nothing else. -/
private theorem Call.Sound.elapse {now : ℕ} {ns : List Note} {t : Call} (h : t.Sound now ns)
    (nanos : ℕ) : t.Sound (now + nanos) ns :=
  have hle := t.phase.mode.since_mono (Nat.le_add_right now nanos)
  { h with
    le_since := fun n hn => (h.le_since n hn).trans hle
    since_le := by
      have hsince := h.since_le
      cases hmode : t.phase.mode with
      | inFlight since | asleep since sleep =>
        rw [hmode] at hsince
        exact hsince.trans (Nat.le_add_right _ _)
      | _ => exact le_rfl
    slept := fun n hn token delay hslept => (h.slept n hn token delay hslept).mono hle }

/-- A call that has just been made. -/
private theorem sound_of_new (stack : ClientStack) (req : Request) (now : ℕ) :
    Call.Sound now [] ⟨stack, req, ⟨.suspended, stack.execute req⟩⟩ where
  reaches := .refl
  phase := trivial
  idle := fun _ => Or.inl rfl
  timely := fun _ hn => absurd hn List.not_mem_nil
  isChain := .nil
  le_since := fun _ hn => absurd hn List.not_mem_nil
  since_le := le_rfl
  slept := fun _ hn => absurd hn (Option.not_mem_none _)

/-- **The calls of a run** are sound, and only they note anything. -/
theorem sound_of_run (h : (system L).machine.Run ls s) :
    (∀ i (t : Call), s.tasks[i]? = some t → t.Sound s.shared.now ((journal L ls).entries i)) ∧
      ∀ i, s.tasks.length ≤ i → (journal L ls).entries i = [] := by
  refine h.induct (I := fun ls (s : State σ) =>
    (∀ i (t : Call), s.tasks[i]? = some t → t.Sound s.shared.now ((journal L ls).entries i)) ∧
      ∀ i, s.tasks.length ≤ i → (journal L ls).entries i = []) ?_ ?_
  · exact ⟨fun i t ht => by simp [TaskSystem.machine] at ht, fun _ _ => rfl⟩
  · rintro ls l s s' hrun ⟨hsound, hnone⟩ hl
    rw [journal_snoc hrun]
    cases ((system L).step_iff).mp hl with
    | @main g sh spawned hmain =>
      rw [notes, List.append_nil]
      cases g with
      | call stack req =>
        obtain ⟨rfl, rfl⟩ := Prod.mk.inj (Option.some_inj.mp hmain)
        refine ⟨fun i t ht => ?_, fun i hi => hnone i ?_⟩
        · rcases Nat.lt_trichotomy i s.tasks.length with hi | rfl | hi
          · rw [List.getElem?_append_left hi] at ht
            exact hsound i t ht
          · rw [List.getElem?_concat_length] at ht
            obtain rfl := Option.some_inj.mp ht
            rw [hnone _ le_rfl]
            exact sound_of_new stack req _
          · rw [List.getElem?_eq_none (by simp; omega)] at ht
            contradiction
        · rw [List.length_append] at hi
          omega
      | elapse nanos =>
        obtain ⟨rfl, rfl⟩ := Prod.mk.inj (Option.some_inj.mp hmain)
        rw [List.append_nil]
        exact ⟨fun i t ht => (hsound i t ht).elapse nanos, hnone⟩
    | @act i a t t' sh htask hact =>
      obtain ⟨p', ns, rfl, hphase⟩ := act_of_system hact
      have hstep := step_of_act hphase
      have hi : i < s.tasks.length := (List.getElem?_eq_some_iff.mp htask).1
      rw [notes_act htask hphase]
      refine ⟨fun k u hu => ?_, fun k hk => ?_⟩
      · rw [Journal.entries_append, Journal.entries_tag]
        by_cases hk : k = i
        · subst hk
          rw [List.getElem?_set_self hi] at hu
          obtain rfl := Option.some_inj.mp hu
          rw [if_pos rfl]
          exact (hsound k t htask).step hstep
        · rw [List.getElem?_set_ne (Ne.symm hk)] at hu
          rw [if_neg hk, List.append_nil]
          dsimp only
          rw [hstep.now_eq]
          exact hsound k u hu
      · rw [List.length_set] at hk
        rw [Journal.entries_append, Journal.entries_tag, if_neg (by omega), List.append_nil]
        exact hnone k hk

/-! ### Dispatches -/

/-- How often call `i` has handed its request to the inner client. -/
def dispatches (ls : List Label) (i : ℕ) : ℕ :=
  ls.countP fun
    | .act j .dispatch => j = i
    | _ => false

/-- The requests a call has out. -/
def Mode.outstanding : Mode → ℕ
  | inFlight _ | interrupted => 1
  | _ => 0

private theorem Polls.outstanding_eq {now since : ℕ} {token : Option CancellationToken}
    {delay : Duration}
    {a : Act} {m : Mode} {sleep : Sleep CancellationToken}
    (h : Polls now token delay a m since sleep) : a ≠ .dispatch ∧ m.outstanding = 0 := by
  cases h <;> exact ⟨nofun, rfl⟩

/-- A step hands a request over, or gets the response. -/
private theorem Step.outstanding_eq {sh sh' : Shared σ} {a : Act} {p p' : Phase} {ns : List Note}
    (h : Step L sh a p sh' p' ns) :
    (sent ns).length + p'.mode.outstanding =
      p.mode.outstanding + if a = .dispatch then 1 else 0 := by
  cases h with
  | doze hpoll hpending | wake hpoll =>
    rw [hpoll.outstanding_eq.2, if_neg hpoll.outstanding_eq.1]
    rfl
  | _ => rfl

/-- **Every request is answered or still out.** -/
theorem dispatches_eq (h : (system L).machine.Run ls s) (i : ℕ) :
    dispatches ls i =
      (sent ((journal L ls).entries i)).length + s.look (·.phase.mode.outstanding) 0 i := by
  refine h.induct (I := fun ls s => ∀ i, dispatches ls i =
    (sent ((journal L ls).entries i)).length + s.look (·.phase.mode.outstanding) 0 i)
    (fun _ => rfl) (fun ls l s s' hrun ih hl i => ?_) i
  rw [journal_snoc hrun, dispatches, List.countP_append, ← dispatches, ih]
  cases ((system L).step_iff).mp hl with
  | @main g sh spawned hmain =>
    have hnew : ∀ t ∈ spawned, t.phase.mode.outstanding = 0 := by
      intro t ht
      cases g with
      | call stack req =>
        obtain ⟨-, rfl⟩ := Prod.mk.inj (Option.some_inj.mp hmain)
        obtain rfl := List.mem_singleton.mp ht
        rfl
      | elapse nanos =>
        obtain ⟨-, rfl⟩ := Prod.mk.inj (Option.some_inj.mp hmain)
        exact absurd ht List.not_mem_nil
    rw [Config.look_spawn hnew, notes, List.append_nil]
    rfl
  | @act j a t t' sh htask hact =>
    obtain ⟨p', ns, rfl, hphase⟩ := act_of_system hact
    have hstep := (step_of_act hphase).outstanding_eq
    rw [notes_act htask hphase, Journal.entries_append, Journal.entries_tag,
      Config.look_act htask, List.countP_singleton]
    by_cases hij : i = j
    · subst hij
      rw [if_pos rfl, if_pos rfl, Config.look_of_getElem? htask, sent_append, List.length_append]
      cases a with
      | dispatch => simp only [decide_true, if_true] at hstep ⊢; omega
      | _ => simp only [reduceCtorEq, if_false, Bool.false_eq_true] at hstep ⊢; omega
    · rw [if_neg hij, if_neg hij, List.append_nil]
      cases a with
      | dispatch => simp [Ne.symm hij]
      | _ => rfl

end ClientCalls

end RustUtils
