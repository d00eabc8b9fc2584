import RustUtils.Network.Nats

/-!
# What the serve loop does to a message

`Service.request` is the request a message carries and `Service.answer` the publish that
answers it: both are functions of the message alone, and `Service.effects` is what a pipeline
does that is not disturbed. `Pipeline.poll_spec` says that every poll of a pipeline does the
next part of that, so in every run the journal holds for each message a prefix of its effects,
whatever the other pipelines do.
-/

namespace RustUtils

open Transition

namespace Nats

variable {Req Resp : Type} {svc : Service Req Resp} {stream : List Message}

/-! ### What a message asks for -/

namespace Service

variable (svc)

/-- The request a message carries, if it is within the size limit and can be decoded. -/
def request (m : Message) : Option Req :=
  if m.payload.length ≤ svc.config.maxPayloadBytes then (svc.fromSlice m.payload).toOption
  else none

/-- The publish that answers a message: the handler has returned a response, there is a reply
subject, and the response can be encoded. -/
def answer (m : Message) : Option (String × List UInt8) := do
  let req ← svc.request m
  let .returns (.ok resp) := svc.handler req | none
  let reply ← m.reply
  let payload ← (svc.toVec resp).toOption
  some (reply, payload)

/-- The handler panics on the request of this message. -/
def panicsOn (m : Message) : Bool :=
  match svc.request m with
  | none => false
  | some req => match svc.handler req with
    | .returns _ => false
    | _ => true

/-- What the pipeline of a message does. -/
def effects (m : Message) : List (Effect Req) :=
  (svc.request m).toList.map .called ++
    (svc.answer m).toList.map fun publish => .published publish.1 publish.2

end Service

/-! ### One poll of a pipeline -/

/-- The first poll, by the request of the message. -/
theorem handleMessage_eq (m : Message) :
    handleMessage svc m = match svc.request m with
      | none => ⟨[], .ok .ended⟩
      | some req => ⟨[.called req], match svc.handler req with
        | .callPanics msg => .error msg
        | _ => .ok (.handling req)⟩ := by
  unfold handleMessage Service.request
  by_cases hsize : m.payload.length ≤ svc.config.maxPayloadBytes
  · rw [if_neg (Nat.not_lt.mpr hsize), if_pos hsize]
    cases svc.fromSlice m.payload with
    | error e => rfl
    | ok req =>
      dsimp only [Except.toOption]
      cases svc.handler req <;> rfl
  · rw [if_pos (Nat.lt_of_not_le hsize), if_neg hsize]

/-- The second poll, by the answer to the message. -/
private theorem resume_eq {m : Message} {req : Req} (h : svc.request m = some req) :
    (svc.panicsOn m = true ∧ svc.answer m = none ∧ ∃ msg, resume svc m req = ⟨[], .error msg⟩) ∨
    (svc.panicsOn m = false ∧
      resume svc m req =
        ⟨(svc.answer m).toList.map fun publish => .published publish.1 publish.2,
          .ok (if (svc.answer m).isSome then .publishing else .ended)⟩) := by
  unfold resume Service.answer Service.panicsOn
  simp only [h, Option.bind_eq_bind, Option.bind_some]
  cases svc.handler req with
  | callPanics msg => exact Or.inl ⟨rfl, rfl, msg, rfl⟩
  | futurePanics msg => exact Or.inl ⟨rfl, rfl, msg, rfl⟩
  | returns result =>
    refine Or.inr ⟨rfl, ?_⟩
    cases result with
    | error report => rfl
    | ok resp =>
      cases m.reply with
      | none => rfl
      | some reply =>
        cases hbytes : svc.toVec resp <;> simp [hbytes, Except.toOption]

namespace Pipeline

variable (svc)

/-- What a pipeline has done so far. -/
def done (t : Pipeline Req) : List (Effect Req) :=
  match t.phase with
  | .received => []
  | .handling req => [.called req]
  | _ => svc.effects t.message

/-- The phase of a pipeline belongs to its message. -/
def Sound (t : Pipeline Req) : Prop :=
  match t.phase with
  | .received => True
  | .handling req => svc.request t.message = some req
  | .panicked => svc.panicsOn t.message = true
  | _ => svc.panicsOn t.message = false

variable {svc}

@[simp]
theorem after_message (t : Pipeline Req) (p : Poll Req) : (t.after p).message = t.message := by
  unfold after
  split <;> rfl

/-- **One poll does the next part of the effects**, and panics only if the handler does. -/
theorem poll_spec {t : Pipeline Req} {a : Act} {p : Poll Req} (h : t.poll svc a = some p)
    (ht : t.Sound svc) :
    (t.after p).Sound svc ∧ (t.after p).done svc = t.done svc ++ p.effects := by
  obtain ⟨m, phase⟩ := t
  cases a with
  | start =>
    cases phase <;> simp only [poll, reduceCtorEq, Option.some_inj] at h
    subst h
    rw [handleMessage_eq]
    cases hreq : svc.request m with
    | none => simp [after, Sound, done, Service.panicsOn, Service.effects, Service.answer, hreq]
    | some req =>
      cases hhandler : svc.handler req <;>
        simp [after, Sound, done, Service.panicsOn, Service.effects, Service.answer, hreq,
          hhandler]
  | resume =>
    cases phase <;> simp only [poll, reduceCtorEq, Option.some_inj] at h
    subst h
    have hreq : svc.request m = some _ := ht
    rcases resume_eq hreq with ⟨hpanics, hanswer, msg, hresume⟩ | ⟨hpanics, hresume⟩
    · simp [hresume, after, Sound, done, Service.effects, hreq, hpanics, hanswer]
    · rw [hresume]
      cases hanswer : svc.answer m <;>
        simp [after, Sound, done, Service.effects, hreq, hpanics, hanswer]
  | published result =>
    cases phase <;> simp only [poll, reduceCtorEq, Option.some_inj] at h
    subst h
    exact ⟨ht, (List.append_nil _).symm⟩

/-- Only a pipeline in flight is polled. -/
private theorem live_of_poll {t : Pipeline Req} {a : Act} {p : Poll Req}
    (h : t.poll svc a = some p) :
    t.live = true := by
  obtain ⟨m, phase⟩ := t
  cases phase with
  | received | handling req | publishing => rfl
  | ended | panicked => cases a <;> simp [poll] at h

/-- A pipeline in flight can be polled. -/
theorem exists_poll (svc : Service Req Resp) {t : Pipeline Req} (h : t.live = true) :
    ∃ a p, t.poll svc a = some p := by
  obtain ⟨m, phase⟩ := t
  cases phase with
  | received => exact ⟨.start, _, rfl⟩
  | handling req => exact ⟨.resume, _, rfl⟩
  | publishing => exact ⟨.published (.ok ()), _, rfl⟩
  | ended | panicked => simp [live] at h

end Pipeline

/-! ### One move of the loop -/

/-- What a move of the loop can do. -/
inductive Serves (svc : Service Req Resp) (s : State Req) :
    Move → Server Req → List (Pipeline Req) → Prop
  | refuse {display : String} (hs : s.shared.status = .subscribing) :
      Serves svc s (.refuse display)
        { s.shared with status := .returned (.error (subscribeReport svc display)) } []
  | subscribe (hs : s.shared.status = .subscribing) :
      Serves svc s .subscribe { s.shared with status := .streaming } []
  | pull {m : Message} {rest : List Message} (hs : s.shared.status = .streaming)
      (hstream : s.shared.stream = m :: rest) (hroom : room svc s = true) :
      Serves svc s .pull { s.shared with stream := rest } [⟨m, .received⟩]
  | exhaust (hs : s.shared.status = .streaming) (hnil : s.shared.stream = []) :
      Serves svc s .exhaust { s.shared with status := .draining } []
  | finish (hs : s.shared.status = .draining) (hended : ∀ t ∈ s.tasks, t.live = false) :
      Serves svc s .finish { s.shared with status := .returned (.ok ()) } []

theorem serves_of_serve {s : State Req} {g : Move} {server : Server Req}
    {spawned : List (Pipeline Req)} (h : serve svc s g = some (server, spawned)) :
    Serves svc s g server spawned := by
  unfold serve at h
  dsimp only at h
  split at h
  · obtain ⟨rfl, rfl⟩ := Prod.mk.inj (Option.some_inj.mp h)
    exact .refuse ‹_›
  · obtain ⟨rfl, rfl⟩ := Prod.mk.inj (Option.some_inj.mp h)
    exact .subscribe ‹_›
  · split at h
    · contradiction
    · next hstream =>
      obtain ⟨hroom, h⟩ := Option.ite_none_right_eq_some.mp h
      obtain ⟨rfl, rfl⟩ := Prod.mk.inj (Option.some_inj.mp h)
      exact .pull ‹_› hstream hroom
  · obtain ⟨⟨hnil, -⟩, h⟩ := Option.ite_none_right_eq_some.mp h
    obtain ⟨rfl, rfl⟩ := Prod.mk.inj (Option.some_inj.mp h)
    exact .exhaust ‹_› hnil
  · obtain ⟨hended, h⟩ := Option.ite_none_left_eq_some.mp h
    obtain ⟨rfl, rfl⟩ := Prod.mk.inj (Option.some_inj.mp h)
    exact .finish ‹_› (by simpa using hended)
  · contradiction

/-- What a poll of pipeline `i` can do. -/
theorem poll_of_act {server server' : Server Req} {i : ℕ} {t t' : Pipeline Req} {a : Act}
    (h : act svc server i t a = some (server', t')) :
    server.status.polling = true ∧
      ∃ p, t.poll svc a = some p ∧ server' = server.after i p ∧ t' = t.after p := by
  obtain ⟨hpolling, h⟩ := Option.ite_none_right_eq_some.mp h
  obtain ⟨p, hp, heq⟩ := Option.map_eq_some_iff.mp h
  obtain ⟨rfl, rfl⟩ := Prod.mk.inj heq
  exact ⟨hpolling, p, hp, rfl, rfl⟩

/-! ### The messages and their pipelines -/

variable {ls : List Label} {s : State Req}

/-- A message has a pipeline, or is still to come. -/
theorem messages_eq (h : (system svc stream).machine.Run ls s) :
    s.tasks.map (·.message) ++ s.shared.stream = stream := by
  refine h.invariant
    (P := fun s : State Req => s.tasks.map (·.message) ++ s.shared.stream = stream) rfl ?_
  intro s l s' ih hl
  cases ((system svc stream).step_iff).mp hl with
  | main hmain =>
    cases serves_of_serve hmain with
    | pull hs hstream hroom => simpa [hstream] using ih
    | refuse hs | subscribe hs | exhaust hs hnil | finish hs hended => simpa using ih
  | @act i a t t' server htask hact =>
    obtain ⟨-, p, -, rfl, rfl⟩ := poll_of_act hact
    rw [Config.map_act htask (t.after_message p)]
    exact ih

/-- **A pipeline does what its message asks for**, however the polls are interleaved. -/
theorem pipelines_of_run (h : (system svc stream).machine.Run ls s) :
    (∀ t ∈ s.tasks, t.Sound svc) ∧
      ∀ i, s.shared.history.entries i = s.look (Pipeline.done svc) [] i := by
  refine h.invariant (P := fun s : State Req => (∀ t ∈ s.tasks, t.Sound svc) ∧
    ∀ i, s.shared.history.entries i = s.look (Pipeline.done svc) [] i) ⟨?_, fun _ => rfl⟩ ?_
  · exact fun t ht => absurd ht List.not_mem_nil
  · rintro s l s' ⟨hsound, hhistory⟩ hl
    cases ((system svc stream).step_iff).mp hl with
    | @main g server spawned hmain =>
      have hserves := serves_of_serve hmain
      have hkeep : server.history = s.shared.history ∧
          ∀ t ∈ spawned, t.Sound svc ∧ t.done svc = [] := by
        cases hserves <;> simp [Pipeline.Sound, Pipeline.done]
      refine ⟨fun t ht => ?_, fun i => ?_⟩
      · exact (List.mem_append.mp ht).elim (hsound t) fun ht => (hkeep.2 t ht).1
      · rw [Config.look_spawn fun t ht => (hkeep.2 t ht).2, ← hhistory, hkeep.1]
    | @act i a t t' server htask hact =>
      obtain ⟨-, p, hp, rfl, rfl⟩ := poll_of_act hact
      obtain ⟨hsound', hdone⟩ := Pipeline.poll_spec hp (hsound t (List.mem_of_getElem? htask))
      refine ⟨fun u hu => ?_, fun k => ?_⟩
      · rcases List.mem_or_eq_of_mem_set hu with hu | rfl
        · exact hsound u hu
        · exact hsound'
      · rw [Config.look_act htask, hdone]
        dsimp only [Server.after]
        rw [Journal.entries_append, Journal.entries_tag, hhistory]
        by_cases hk : k = i
        · subst hk
          rw [if_pos rfl, if_pos rfl, Config.look_of_getElem? htask]
        · rw [if_neg hk, if_neg hk, List.append_nil]

/-- At most `max_concurrency` pipelines are in flight. -/
theorem in_flight_le (h : (system svc stream).machine.Run ls s) {cap : NonZeroUsize}
    (hcap : svc.config.maxConcurrency = some cap) : s.tasks.countP Pipeline.live ≤ cap.val := by
  refine h.invariant (P := fun s : State Req => s.tasks.countP Pipeline.live ≤ cap.val)
    (Nat.zero_le _) ?_
  intro s l s' ih hl
  cases ((system svc stream).step_iff).mp hl with
  | main hmain =>
    cases serves_of_serve hmain with
    | pull hs hstream hroom =>
      rw [room, hcap, decide_eq_true_eq] at hroom
      rw [List.countP_append, List.countP_singleton]
      split <;> omega
    | refuse hs | subscribe hs | exhaust hs hnil | finish hs hended => simpa using ih
  | @act i a t t' server htask hact =>
    obtain ⟨-, p, hp, rfl, rfl⟩ := poll_of_act hact
    have hcount := Config.countP_act (f := Pipeline.live) (q := t.after p) htask
    rw [Pipeline.live_of_poll hp, if_pos rfl] at hcount
    dsimp only
    split at hcount <;> omega

end Nats

end RustUtils
