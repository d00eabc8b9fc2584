import Mathlib.Data.List.Basic
import RustUtils.Network.NatsServe

/-!
# Whole runs of the serve loop

Every step of the serve loop uses up fuel, and only a loop that has returned or unwound is
stuck, so every run ends, with `Ok` unless the subscription fails or a pipeline panics.
`serve_law` is what such a run has done when no handler panics: exactly the effects of every
message, in some order. `serve_isolates_iff` is what becomes of it when a handler does panic:
the pipelines are polled inline, so the panic ends the loop and all other pipelines.
-/

namespace RustUtils

open Transition

namespace Nats

variable {Req Resp : Type} {svc : Service Req Resp} {stream : List Message}
  {ls : List Label} {s : State Req}

/-! ### Where a poll leads -/

/-- How far a pipeline is from its end. -/
def Phase.weight : Phase Req → ℕ
  | received => 3
  | handling _ => 2
  | publishing => 1
  | ended | panicked => 0

private theorem handleMessage_outcome (svc : Service Req Resp) (m : Message) :
    (handleMessage svc m).outcome = .ok .ended ∨
      (∃ req, (handleMessage svc m).outcome = .ok (.handling req)) ∨
      ∃ msg, (handleMessage svc m).outcome = .error msg := by
  rw [handleMessage_eq]
  cases svc.request m with
  | none => exact Or.inl rfl
  | some req =>
    dsimp only
    split
    · exact Or.inr (Or.inr ⟨_, rfl⟩)
    · exact Or.inr (Or.inl ⟨_, rfl⟩)

private theorem resume_outcome (svc : Service Req Resp) (m : Message) (req : Req) :
    (resume svc m req).outcome = .ok .ended ∨ (resume svc m req).outcome = .ok .publishing ∨
      ∃ msg, (resume svc m req).outcome = .error msg := by
  unfold resume
  split
  · exact Or.inr (Or.inr ⟨_, rfl⟩)
  · exact Or.inr (Or.inr ⟨_, rfl⟩)
  · exact Or.inl rfl
  · split
    · exact Or.inl rfl
    · split
      · exact Or.inl rfl
      · exact Or.inr (Or.inl rfl)

/-- A poll brings a pipeline nearer to its end, and leaves it panicked only by a panic. -/
private theorem Pipeline.phase_after {t : Pipeline Req} {a : Act} {p : Poll Req}
    (h : t.poll svc a = some p) :
    (t.after p).phase.weight < t.phase.weight ∧
      ((t.after p).phase = .panicked ↔ ∃ msg, p.outcome = .error msg) := by
  obtain ⟨m, phase⟩ := t
  cases a with
  | start =>
    cases phase <;> simp only [poll, reduceCtorEq, Option.some_inj] at h
    subst h
    rcases handleMessage_outcome svc m with hout | ⟨req, hout⟩ | ⟨msg, hout⟩ <;>
      simp [after, hout, Phase.weight]
  | resume =>
    cases phase <;> simp only [poll, reduceCtorEq, Option.some_inj] at h
    subst h
    rename_i req
    rcases resume_outcome svc m req with hout | hout | ⟨msg, hout⟩ <;>
      simp [after, hout, Phase.weight]
  | published result =>
    cases phase <;> simp only [poll, reduceCtorEq, Option.some_inj] at h
    subst h
    simp [after, Phase.weight]

/-! ### Every run ends -/

/-- How far the loop is from its end, its pipelines apart. -/
def Status.weight : Status → ℕ
  | subscribing => 3
  | streaming => 2
  | draining => 1
  | returned _ | unwound _ => 0

/-- How many steps the loop can still make, at most. -/
def fuel (s : State Req) : ℕ :=
  4 * s.shared.stream.length + (s.tasks.map fun t => t.phase.weight).sum + s.shared.status.weight

private theorem fuel_lt {s' : State Req} {l : Label}
    (hl : (system svc stream).machine.step s l = some s') :
    fuel s' < fuel s := by
  cases ((system svc stream).step_iff).mp hl with
  | main hmain =>
    cases serves_of_serve hmain with
    | pull hs hstream hroom =>
      simp only [fuel, hstream, List.map_append, List.map_singleton, List.sum_append,
        List.sum_singleton, List.length_cons, Phase.weight]
      omega
    | refuse hs | subscribe hs | exhaust hs hnil | finish hs hended =>
      simp [fuel, hs, Status.weight]
  | @act i a t t' server htask hact =>
    obtain ⟨hpolling, p, hp, rfl, rfl⟩ := poll_of_act hact
    have hsum := Config.sum_act (f := fun t => t.phase.weight) (q := t.after p) htask
    have hlt := (Pipeline.phase_after hp).1
    have hstatus : (s.shared.after i p).status.weight ≤ s.shared.status.weight := by
      dsimp only [Server.after]
      split
      · exact Nat.le_refl _
      · exact Nat.zero_le _
    have hstream : (s.shared.after i p).stream = s.shared.stream := rfl
    simp only [fuel, hstream] at hsum ⊢
    omega

/-- The loop has unwound exactly when a pipeline has panicked, has nothing left when it has
returned `Ok`, and has taken no message before it has subscribed. -/
def Standing (s : State Req) : Prop :=
  match s.shared.status with
  | .subscribing | .returned (.error _) => s.tasks = []
  | .streaming => ∀ t ∈ s.tasks, t.phase ≠ .panicked
  | .draining => s.shared.stream = [] ∧ ∀ t ∈ s.tasks, t.phase ≠ .panicked
  | .returned (.ok ()) => s.shared.stream = [] ∧ ∀ t ∈ s.tasks, t.phase = .ended
  | .unwound _ => ∃ t ∈ s.tasks, t.phase = .panicked

private theorem standing_of_run (h : (system svc stream).machine.Run ls s) : Standing s := by
  refine h.invariant (P := Standing) ?_ ?_
  · exact rfl
  intro s l s' ih hl
  cases ((system svc stream).step_iff).mp hl with
  | main hmain =>
    cases serves_of_serve hmain with
    | refuse hs | subscribe hs =>
      simp only [Standing, hs] at ih
      simp [Standing, ih]
    | pull hs hstream hroom =>
      simp only [Standing, hs] at ih ⊢
      simpa [or_imp, forall_and] using ih
    | exhaust hs hnil =>
      simp only [Standing, hs] at ih
      simpa [Standing, hnil] using ih
    | finish hs hended =>
      simp only [Standing, hs] at ih
      simp only [Standing, List.append_nil]
      refine ⟨ih.1, fun t ht => ?_⟩
      -- a pipeline that is neither in flight nor panicked has ended
      have hlive := hended t ht
      have hcalm := ih.2 t ht
      cases hphase : t.phase <;> simp_all [Pipeline.live]
  | @act i a t t' server htask hact =>
    obtain ⟨hpolling, p, hp, rfl, rfl⟩ := poll_of_act hact
    have hpanicked := (Pipeline.phase_after hp).2
    have hi : i < s.tasks.length := (List.getElem?_eq_some_iff.mp htask).1
    cases hout : p.outcome with
    | error msg =>
      simp only [Standing, Server.after, hout]
      exact ⟨t.after p, List.mem_set hi _, hpanicked.mpr ⟨msg, hout⟩⟩
    | ok phase =>
      have hcalm : (t.after p).phase ≠ .panicked := fun heq => by
        obtain ⟨msg, hmsg⟩ := hpanicked.mp heq
        simp [hout] at hmsg
      have hset : (∀ u ∈ s.tasks, u.phase ≠ .panicked) →
          ∀ u ∈ s.tasks.set i (t.after p), u.phase ≠ .panicked := fun hall u hu =>
        (List.mem_or_eq_of_mem_set hu).elim (hall u) fun heq => heq ▸ hcalm
      cases hs : s.shared.status <;> simp only [hs, Status.polling, Bool.false_eq_true] at hpolling
      · simp only [Standing, Server.after, hout, hs] at ih ⊢
        exact hset ih
      · simp only [Standing, Server.after, hout, hs] at ih ⊢
        exact ⟨ih.1, hset ih.2⟩

/-- **No deadlock**: only a loop that has returned or unwound is stuck. -/
theorem ended_of_stuck (hstuck : (system svc stream).machine.Stuck s) :
    (∃ result, s.shared.status = .returned result) ∨ ∃ msg, s.shared.status = .unwound msg := by
  have hmain : ∀ g, serve svc s g = none := fun g => Option.map_eq_none_iff.mp (hstuck (.main g))
  -- a pipeline in flight can be polled, as long as the loop polls
  have hidle : s.shared.status.polling = true → ∀ t ∈ s.tasks, t.live = false := by
    intro hpolling t ht
    refine Bool.eq_false_iff.mpr fun hlive => ?_
    obtain ⟨i, hi, rfl⟩ := List.getElem_of_mem ht
    obtain ⟨a, p, hp⟩ := Pipeline.exists_poll svc hlive
    have hstep : (system svc stream).machine.step s (.act i a) = some
        ⟨s.shared.after i p, s.tasks.set i (s.tasks[i].after p)⟩ := by
      refine ((system svc stream).step_iff).mpr (.act (List.getElem?_eq_getElem hi) ?_)
      show act svc s.shared i s.tasks[i] a = _
      rw [act, if_pos hpolling, hp]
      rfl
    rw [hstuck] at hstep
    contradiction
  cases hs : s.shared.status with
  | subscribing => simpa [serve, hs] using hmain .subscribe
  | streaming =>
    have hended := hidle (by rw [hs]; rfl)
    have hroom : room svc s = true := by
      have hnone : s.tasks.countP Pipeline.live = 0 :=
        List.countP_eq_zero.mpr fun t ht => by simp [hended t ht]
      rw [room]
      cases svc.config.maxConcurrency with
      | none => rfl
      | some cap => simpa [hnone] using cap.2.1
    cases hstream : s.shared.stream with
    | nil => simpa [serve, hs, hstream, hroom] using hmain .exhaust
    | cons m rest => simpa [serve, hs, hstream, hroom] using hmain .pull
  | draining =>
    have hended := hidle (by rw [hs]; rfl)
    have hfinish := hmain .finish
    simp only [serve, hs] at hfinish
    rw [if_neg (by simpa using hended)] at hfinish
    contradiction
  | returned result => exact Or.inl ⟨result, rfl⟩
  | unwound msg => exact Or.inr ⟨msg, rfl⟩

/-- Nothing happens after a panic has unwound through the loop. -/
private theorem stuck_of_unwound {msg : String} (hs : s.shared.status = .unwound msg) :
    (system svc stream).machine.Stuck s := by
  intro l
  cases l with
  | main g =>
    have hnone : serve svc s g = none := by cases g <;> simp [serve, hs]
    exact Option.map_eq_none_iff.mpr hnone
  | act i a =>
    refine Option.bind_eq_none_iff.mpr fun t _ => Option.map_eq_none_iff.mpr ?_
    show act svc s.shared i t a = none
    rw [act, hs]
    rfl

/-! ### What a run has done -/

/-- The call of the handler, if the effect is one. -/
def Effect.toCall : Effect Req → Option Req
  | called req => some req
  | published _ _ => none

/-- The publish, if the effect is one. -/
def Effect.toPublish : Effect Req → Option (String × List UInt8)
  | called _ => none
  | published subject payload => some (subject, payload)

private theorem filterMap_toCall_effects (m : Message) :
    (svc.effects m).filterMap Effect.toCall = (svc.request m).toList := by
  rw [Service.effects]
  cases svc.request m <;> cases svc.answer m <;> rfl

theorem filterMap_toPublish_effects (m : Message) :
    (svc.effects m).filterMap Effect.toPublish = (svc.answer m).toList := by
  rw [Service.effects]
  cases svc.request m <;> cases svc.answer m <;> rfl

/-- The message of pipeline `i` is message `i` of the stream. -/
private theorem message_of_pipeline (h : (system svc stream).machine.Run ls s) {i : ℕ}
    {t : Pipeline Req}
    (ht : s.tasks[i]? = some t) : stream[i]? = some t.message := by
  have hlen : i < (s.tasks.map (·.message)).length := by
    rw [List.length_map]
    exact (List.getElem?_eq_some_iff.mp ht).1
  rw [← messages_eq h, List.getElem?_append_left hlen, List.getElem?_map, ht, Option.map_some]

/-- At any time a message has had a part of its effects, and no message any other ones. -/
theorem entries_isPrefix (h : (system svc stream).machine.Run ls s) (i : ℕ) :
    s.shared.history.entries i <+: (stream[i]?).elim [] svc.effects := by
  obtain ⟨hsound, hhistory⟩ := pipelines_of_run h
  rw [hhistory, Config.look]
  cases ht : s.tasks[i]? with
  | none => exact List.nil_prefix
  | some t =>
    rw [message_of_pipeline h ht, Option.elim_some, Option.elim_some]
    have hsound := hsound t (List.mem_of_getElem? ht)
    unfold Pipeline.done
    unfold Pipeline.Sound at hsound
    cases hphase : t.phase with
    | received => exact List.nil_prefix
    | handling req =>
      rw [hphase] at hsound
      simp [Service.effects, show svc.request t.message = some req from hsound]
    | publishing | ended | panicked => exact List.prefix_rfl

/-- A loop that has returned `Ok` has had all effects of all messages, and no panic. -/
theorem entries_of_returned (h : (system svc stream).machine.Run ls s)
    (hok : s.shared.status = .returned (.ok ())) :
    (∀ i, s.shared.history.entries i = (stream[i]?).elim [] svc.effects) ∧
      ∀ m ∈ stream, svc.panicsOn m = false := by
  obtain ⟨hsound, hhistory⟩ := pipelines_of_run h
  have hstanding := standing_of_run h
  rw [Standing, hok] at hstanding
  obtain ⟨hnil, hended⟩ := hstanding
  have hmessages : s.tasks.map (·.message) = stream := by
    rw [← messages_eq h, hnil, List.append_nil]
  constructor
  · intro i
    rw [hhistory, Config.look, ← hmessages, List.getElem?_map]
    cases ht : s.tasks[i]? with
    | none => rfl
    | some t => simp [Pipeline.done, hended t (List.mem_of_getElem? ht)]
  · intro m hm
    rw [← hmessages] at hm
    obtain ⟨t, ht, rfl⟩ := List.mem_map.mp hm
    simpa [Pipeline.Sound, hended t ht] using hsound t ht

/-- Only a panic of the handler unwinds through the loop. -/
private theorem panicsOn_of_unwound (h : (system svc stream).machine.Run ls s) {msg : String}
    (hs : s.shared.status = .unwound msg) : ∃ m ∈ stream, svc.panicsOn m = true := by
  have hstanding := standing_of_run h
  rw [Standing, hs] at hstanding
  obtain ⟨t, ht, hphase⟩ := hstanding
  refine ⟨t.message, ?_, ?_⟩
  · rw [← messages_eq h]
    exact List.mem_append_left _ (List.mem_map_of_mem ht)
  · simpa [Pipeline.Sound, hphase] using (pipelines_of_run h).1 t ht

/-- A loop that has come to its end without a panic has returned `Ok`, or its subscription has
failed. -/
private theorem returned_of_stuck (h : (system svc stream).machine.Run ls s)
    (hstuck : (system svc stream).machine.Stuck s)
    (hcalm : ∀ m ∈ stream, svc.panicsOn m = false) :
    s.shared.status = .returned (.ok ()) ∨
      ∃ report, s.shared.status = .returned (.error report) := by
  rcases ended_of_stuck hstuck with ⟨result, hs⟩ | ⟨msg, hs⟩
  · cases result with
    | ok _ => exact Or.inl hs
    | error report => exact Or.inr ⟨report, hs⟩
  · obtain ⟨m, hm, hpanics⟩ := panicsOn_of_unwound h hs
    simp [hcalm m hm] at hpanics

/-! ### The law of the serve loop -/

/-- **No lost, duplicated or misrouted reply.** For a handler that always returns, every stream
and every interleaving: at most `max_concurrency` pipelines are in flight, and at any time every
message has had a part of its own effects. When the loop has returned, the handler has been
called once with every request and the publishes are the answers, each message having had its
own call and its own publish, whatever the other messages of the stream are. And every run
returns after at most four steps for each message. -/
theorem serve_law (hcalm : ∀ req, ∃ result, svc.handler req = .returns result)
    (hrun : (system svc stream).machine.Run ls s) :
    (∀ cap, svc.config.maxConcurrency = some cap → s.tasks.countP Pipeline.live ≤ cap.val) ∧
    (∀ i, s.shared.history.entries i <+: (stream[i]?).elim [] svc.effects) ∧
    (s.shared.status = .returned (.ok ()) →
      ((s.shared.history.map Prod.snd).filterMap Effect.toCall).Perm
        (stream.filterMap svc.request) ∧
      ((s.shared.history.map Prod.snd).filterMap Effect.toPublish).Perm
        (stream.filterMap svc.answer) ∧
      (∀ i m, stream[i]? = some m →
        (s.shared.history.entries i).filterMap Effect.toCall = (svc.request m).toList ∧
        (s.shared.history.entries i).filterMap Effect.toPublish = (svc.answer m).toList) ∧
      ∀ stream' ls' s', (system svc stream').machine.Run ls' s' →
        s'.shared.status = .returned (.ok ()) → ∀ i, stream'[i]? = stream[i]? →
        s'.shared.history.entries i = s.shared.history.entries i) ∧
    (∀ msg, s.shared.status ≠ .unwound msg) ∧
    ((system svc stream).machine.Stuck s → s.shared.status = .returned (.ok ()) ∨
      ∃ report, s.shared.status = .returned (.error report)) ∧
    ls.length ≤ 4 * stream.length + 3 := by
  have hpanics : ∀ m, svc.panicsOn m = false := by
    intro m
    rw [Service.panicsOn]
    cases svc.request m with
    | none => rfl
    | some req =>
      obtain ⟨result, hresult⟩ := hcalm req
      dsimp only
      rw [hresult]
  refine ⟨fun cap => in_flight_le hrun, entries_isPrefix hrun, fun hok => ?_, fun msg hs => ?_,
    fun hstuck => returned_of_stuck hrun hstuck fun m _ => hpanics m, ?_⟩
  · obtain ⟨hentries, -⟩ := entries_of_returned hrun hok
    have hperm := Journal.perm_flatMap hentries
    refine ⟨?_, ?_, fun i m hm => ?_, fun stream' ls' s' hrun' hok' i hi => ?_⟩
    · refine (hperm.filterMap _).trans (.of_eq ?_)
      rw [List.filterMap_flatMap, List.filterMap_eq_flatMap_toList]
      simp only [filterMap_toCall_effects]
    · refine (hperm.filterMap _).trans (.of_eq ?_)
      rw [List.filterMap_flatMap, List.filterMap_eq_flatMap_toList]
      simp only [filterMap_toPublish_effects]
    · rw [hentries, hm, Option.elim_some]
      exact ⟨filterMap_toCall_effects m, filterMap_toPublish_effects m⟩
    · rw [hentries, (entries_of_returned hrun' hok').1, hi]
  · obtain ⟨m, -, hm⟩ := panicsOn_of_unwound hrun hs
    simp [hpanics m] at hm
  · have hfuel := hrun.length_add_le fun _ _ _ => fuel_lt
    have hinit : fuel (system svc stream).machine.init = 4 * stream.length + 3 := rfl
    omega

/-- A service whose requests and responses are single bytes. -/
def byteService (handler : UInt8 → Handled UInt8) : Service UInt8 UInt8 where
  subject := "svc.byte"
  config := .new (some ⟨2, by decide, by decide⟩) 1
  handler := handler
  fromSlice := fun
    | [byte] => .ok byte
    | _ => .error "expected one byte"
  toVec byte := .ok [byte]

/-- The handler refuses the byte one and echoes all others. -/
def refusesOne : Service UInt8 UInt8 :=
  byteService fun byte =>
    .returns (if byte = 1 then .error (.new .internal) else .ok byte)

/-- Too long a message, one whose request is refused, one to be answered, and one without a
reply subject. -/
def fourMessages : List Message :=
  [⟨[2, 2], some "inbox.2"⟩, ⟨[1], some "inbox.1"⟩, ⟨[5], some "inbox.5"⟩, ⟨[7], none⟩]

/-- The third message overtakes the second, and its publish fails. -/
theorem serve_law_fourMessages :
    ∃ s, (system refusesOne fourMessages).machine.Run
        [.main .subscribe, .main .pull, .main .pull, .act 0 .start, .main .pull, .act 2 .start,
          .act 1 .start, .act 2 .resume, .act 1 .resume, .main .pull, .act 3 .start,
          .act 2 (.published (.error "closed")), .main .exhaust, .act 3 .resume, .main .finish] s ∧
      ((s.shared.history.map Prod.snd).filterMap Effect.toCall).Perm [1, 5, 7] ∧
      ((s.shared.history.map Prod.snd).filterMap Effect.toPublish).Perm [("inbox.5", [5])] := by
  have hrun : (system refusesOne fourMessages).machine.Run
      [.main .subscribe, .main .pull, .main .pull, .act 0 .start, .main .pull, .act 2 .start,
        .act 1 .start, .act 2 .resume, .act 1 .resume, .main .pull, .act 3 .start,
        .act 2 (.published (.error "closed")), .main .exhaust, .act 3 .resume, .main .finish]
      ⟨⟨[], .returned (.ok ()), [(2, .called 5), (1, .called 1), (2, .published "inbox.5" [5]),
        (3, .called 7)]⟩, fourMessages.map fun m => ⟨m, .ended⟩⟩ := by
    decide +kernel
  obtain ⟨-, -, hreturned, -⟩ := serve_law (fun _ => ⟨_, rfl⟩) hrun
  obtain ⟨hcalls, hpublishes, -⟩ := hreturned rfl
  exact ⟨_, hrun, hcalls, hpublishes⟩

/-! ### Panics -/

/-- What becomes of one message does not matter to the others: nothing has unwound through the
loop, and a loop that is at its end, and not for want of a subscription, has returned `Ok` with
all effects of all messages on which the handler does not panic. -/
def Isolates (svc : Service Req Resp) (stream : List Message) (s : State Req) : Prop :=
  (∀ msg, s.shared.status ≠ .unwound msg) ∧
  ((system svc stream).machine.Stuck s → (∀ report, s.shared.status ≠ .returned (.error report)) →
    s.shared.status = .returned (.ok ()) ∧ ∀ i m, stream[i]? = some m → svc.panicsOn m = false →
      s.shared.history.entries i = svc.effects m)

/-- A loop that has subscribed does not fail. -/
private theorem ne_failed_of_subscribed
    (h : (system svc stream).machine.Run (.main .subscribe :: ls) s)
    (report : UtilsReport) : s.shared.status ≠ .returned (.error report) := by
  obtain ⟨s₁, hl, hls⟩ := ((system svc stream).machine.exec_cons_iff).mp h
  have hs₁ : s₁.shared.status = .streaming := by
    obtain rfl := Option.some_inj.mp hl
    rfl
  -- only a loop that awaits its subscription can fail, and no loop goes back there
  refine ((system svc stream).machine.exec_preserves (P := fun s : State Req =>
    s.shared.status ≠ .subscribing ∧ s.shared.status ≠ .returned (.error report))
    ?_ (by simp [hs₁]) hls).2
  rintro s l - s' ⟨hsub, hfail⟩ hl
  cases ((system svc stream).step_iff).mp hl with
  | main hmain =>
    cases serves_of_serve hmain with
    | refuse hs | subscribe hs => exact absurd hs hsub
    | pull hs hstream hroom => exact ⟨hsub, hfail⟩
    | exhaust hs hnil | finish hs hended => simp
  | @act i a t t' server htask hact =>
    obtain ⟨-, p, -, rfl, rfl⟩ := poll_of_act hact
    dsimp only [Server.after]
    cases p.outcome with
    | ok phase => exact ⟨hsub, hfail⟩
    | error msg => simp

/-- **Panics are not isolated.** In every run the failure of one message does not matter to the
others, exactly if the handler panics on no message of the stream. -/
theorem serve_isolates_iff (svc : Service Req Resp) (stream : List Message) :
    (∀ ls s, (system svc stream).machine.Run ls s → Isolates svc stream s) ↔
      ∀ m ∈ stream, svc.panicsOn m = false := by
  constructor
  · intro hisolates
    -- a run that goes on to its end returns, so it has processed all messages without a panic
    have hstart : (system svc stream).machine.Run [.main .subscribe]
        ⟨⟨stream, .streaming, []⟩, []⟩ := rfl
    obtain ⟨more, s, hrun, hstuck⟩ := hstart.exists_stuck fun _ _ _ => fuel_lt
    obtain ⟨-, hend⟩ := hisolates _ s hrun
    obtain ⟨hok, -⟩ := hend hstuck (ne_failed_of_subscribed hrun)
    exact (entries_of_returned hrun hok).2
  · intro hcalm ls s hrun
    refine ⟨fun msg hs => ?_, fun hstuck hsubscribed => ?_⟩
    · obtain ⟨m, hm, hpanics⟩ := panicsOn_of_unwound hrun hs
      simp [hcalm m hm] at hpanics
    · have hok := (returned_of_stuck hrun hstuck hcalm).resolve_right fun ⟨report, hs⟩ =>
        hsubscribed report hs
      refine ⟨hok, fun i m hm _ => ?_⟩
      rw [(entries_of_returned hrun hok).1, hm, Option.elim_some]

/-- The handler panics on the byte zero and echoes all others. -/
def panicsOnZero : Service UInt8 UInt8 :=
  byteService fun byte => if byte = 0 then .futurePanics "zero" else .returns (.ok byte)

/-- A zero and a five. -/
def zeroAndFive : List Message := [⟨[0], some "inbox.0"⟩, ⟨[5], some "inbox.5"⟩]

/-- Both messages are in flight when the handler of the first one panics: the loop unwinds, and
the second one is never answered. -/
theorem panic_ends_serve :
    ∃ ls s, (system panicsOnZero zeroAndFive).machine.Run ls s ∧
      ¬Isolates panicsOnZero zeroAndFive s ∧ (system panicsOnZero zeroAndFive).machine.Stuck s ∧
      s.shared.history.entries 1 = [.called 5] ∧
      panicsOnZero.effects ⟨[5], some "inbox.5"⟩ = [.called 5, .published "inbox.5" [5]] := by
  refine ⟨[.main .subscribe, .main .pull, .main .pull, .act 0 .start, .act 1 .start,
      .act 0 .resume],
    ⟨⟨[], .unwound "zero", [(0, .called 0), (1, .called 5)]⟩,
      [⟨⟨[0], some "inbox.0"⟩, .panicked⟩, ⟨⟨[5], some "inbox.5"⟩, .handling 5⟩]⟩,
    by decide +kernel, fun h => h.1 "zero" rfl, stuck_of_unwound rfl, rfl, by decide +kernel⟩

end Nats

end RustUtils
