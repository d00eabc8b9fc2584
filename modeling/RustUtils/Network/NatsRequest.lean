import Mathlib.Data.List.Nodup
import RustUtils.Network.NatsIsolation

/-!
# `NatsClient::request` against a serve loop

Both ends of request/reply: any number of calls of `request` and `publish` on a subject, and a serve
loop that is subscribed to it. A message arrives at the moment of its call, at the end of the stream
of the subscription, or never: requests are lost, but not delayed or reordered. `async_nats` gives
every request an inbox of its own as its reply subject, and delivers to a call what is published
there, unless the publish fails; the call may fail at any time instead, for lack of responders, by
a timeout or with the connection.

The serve loop makes the steps of `Nats.system`, only that its stream grows, so a run of both ends
contains a run of the loop on the messages that have arrived (`run_serve`). What the loop publishes
to an inbox therefore answers the request that was sent with it (`rpc_law`), and with codecs that
agree a call returns what the handler has returned for its message (`rpc_round_trip`).
-/

namespace RustUtils

open Transition

/-- `NatsClient`, for the messages of one subject, with the codec of its end. -/
structure NatsClient (Msg Resp : Type) where
  subject : String
  /-- `serde_json::to_vec`. -/
  toVec : Msg → Except String (List UInt8)
  /-- `serde_json::from_slice`. -/
  fromSlice : List UInt8 → Except String Resp

/-- `serialize_json_payload`. -/
def serializeJsonPayload {α : Type} (toVec : α → Except String (List UInt8)) (msg : α)
    (context : String) : UtilsResult (List UInt8) :=
  match toVec msg with
  | .ok payload => .ok payload
  | .error display => .error ((UtilsReport.fromForeign display .internal).attach context)

namespace NatsClient

variable {Msg Resp : Type} (c : NatsClient Msg Resp)

/-- The report of a failure of `async_nats`. -/
def networkReport (display : String) : UtilsReport :=
  let subject := c.subject
  (UtilsReport.fromForeign display .network).attach s!"nats subject: {subject}"

/-- `publish` up to the await of `async_nats`. -/
def publish (msg : Msg) : UtilsResult (List UInt8) :=
  serializeJsonPayload c.toVec msg "failed to serialize outbound NATS payload"

/-- `request` up to the await of `async_nats`. -/
def request (msg : Msg) : UtilsResult (List UInt8) :=
  serializeJsonPayload c.toVec msg "failed to serialize NATS request"

/-- What `request` returns for the payload of a reply. -/
def replied (reply : Except String (List UInt8)) : UtilsResult Resp :=
  match reply with
  | .error display => .error (c.networkReport display)
  | .ok payload => match c.fromSlice payload with
    | .ok resp => .ok resp
    | .error display =>
      let subject := c.subject
      let bytes := payload.length
      .error ((UtilsReport.fromForeign display .internal).attach
        s!"failed to deserialize NATS reply on subject {subject} ({bytes} bytes)")

end NatsClient

namespace Nats

namespace Rpc

/-- A call of `request`, with its result once it has returned. -/
structure Call (Msg Resp : Type) where
  msg : Msg
  result : Option (UtilsResult Resp)

/-- Both ends. -/
structure State (Msg Resp Req : Type) where
  server : Nats.State Req
  calls : List (Call Msg Resp)
  /-- The pipelines of the serve loop whose publish has failed. -/
  unpublished : List ℕ

/-- A step of either end, or of what is between them. -/
inductive Label (Msg : Type) where
  /-- `request` is called; its message arrives at the subscription, or is lost. -/
  | request (msg : Msg) (arrives : Bool)
  /-- `publish` is called, and its message arrives. -/
  | publish (msg : Msg)
  | serve (l : Nats.Label)
  /-- A message that was published to the inbox of call `i` is delivered. -/
  | reply (i : ℕ) (payload : List UInt8)
  /-- The transport fails call `i`. -/
  | fail (i : ℕ) (display : String)

variable {Msg Resp Req Resp' : Type}

/-- A message arrives at the subscription. -/
def arrive (server : Nats.State Req) (m : Message) : Option (Nats.State Req) :=
  if server.shared.status = .streaming then
    some { server with shared := { server.shared with stream := server.shared.stream ++ [m] } }
  else none

/-- The pipeline whose publish fails with this step of the serve loop. -/
def publishFails : Nats.Label → Option ℕ
  | .act i (.published (.error _)) => some i
  | _ => none

/-- Some pipeline has published this payload to this subject, and its publish has not failed. -/
def isPublished (s : State Msg Resp Req) (subject : String) (payload : List UInt8) : Bool :=
  s.server.shared.history.any fun e =>
    e.2.toPublish = some (subject, payload) ∧ e.1 ∉ s.unpublished

variable (c : NatsClient Msg Resp) (svc : Service Req Resp') (inbox : ℕ → String)

/-- One step. -/
def step (s : State Msg Resp Req) : Label Msg → Option (State Msg Resp Req)
  | .request msg arrives =>
    match c.request msg with
    | .error report => some { s with calls := s.calls ++ [⟨msg, some (.error report)⟩] }
    | .ok payload =>
      if arrives then
        (arrive s.server ⟨payload, some (inbox s.calls.length)⟩).map fun server =>
          { s with server := server, calls := s.calls ++ [⟨msg, none⟩] }
      else some { s with calls := s.calls ++ [⟨msg, none⟩] }
  | .publish msg =>
    match c.publish msg with
    | .error _ => some s
    | .ok payload => (arrive s.server ⟨payload, none⟩).map fun server => { s with server := server }
  | .serve l => ((Nats.system svc []).machine.step s.server l).map fun server =>
      { s with server := server, unpublished := s.unpublished ++ (publishFails l).toList }
  | .reply i payload =>
    match s.calls[i]? with
    | some ⟨msg, none⟩ =>
      if isPublished s (inbox i) payload then
        some { s with calls := s.calls.set i ⟨msg, some (c.replied (.ok payload))⟩ }
      else none
    | _ => none
  | .fail i display =>
    match s.calls[i]? with
    | some ⟨msg, none⟩ =>
      some { s with calls := s.calls.set i ⟨msg, some (c.replied (.error display))⟩ }
    | _ => none

/-- A serve loop that is about to subscribe, and clients that have made no call yet. -/
def machine : Machine (State Msg Resp Req) (Label Msg) where
  init := ⟨(Nats.system svc []).machine.init, [], []⟩
  step := step c svc inbox

/-! ### Inversion of the steps -/

/-- What one step can do. -/
inductive Step (s : State Msg Resp Req) : Label Msg → State Msg Resp Req → Prop
  | refused {msg : Msg} {arrives : Bool} {report : UtilsReport}
      (hreq : c.request msg = .error report) :
      Step s (.request msg arrives) { s with calls := s.calls ++ [⟨msg, some (.error report)⟩] }
  | lost {msg : Msg} {payload : List UInt8} (hreq : c.request msg = .ok payload) :
      Step s (.request msg false) { s with calls := s.calls ++ [⟨msg, none⟩] }
  | sent {msg : Msg} {payload : List UInt8} {server : Nats.State Req}
      (hreq : c.request msg = .ok payload)
      (harrive : arrive s.server ⟨payload, some (inbox s.calls.length)⟩ = some server) :
      Step s (.request msg true) { s with server := server, calls := s.calls ++ [⟨msg, none⟩] }
  | unpublished {msg : Msg} : Step s (.publish msg) s
  | published {msg : Msg} {payload : List UInt8} {server : Nats.State Req}
      (harrive : arrive s.server ⟨payload, none⟩ = some server) :
      Step s (.publish msg) { s with server := server }
  | serve {l : Nats.Label} {server : Nats.State Req}
      (hstep : (Nats.system svc []).machine.step s.server l = some server) :
      Step s (.serve l)
        { s with server := server, unpublished := s.unpublished ++ (publishFails l).toList }
  | reply {i : ℕ} {payload : List UInt8} {msg : Msg} (hcall : s.calls[i]? = some ⟨msg, none⟩)
      (hpublished : isPublished s (inbox i) payload = true) :
      Step s (.reply i payload)
        { s with calls := s.calls.set i ⟨msg, some (c.replied (.ok payload))⟩ }
  | fail {i : ℕ} {display : String} {msg : Msg} (hcall : s.calls[i]? = some ⟨msg, none⟩) :
      Step s (.fail i display)
        { s with calls := s.calls.set i ⟨msg, some (c.replied (.error display))⟩ }

variable {c svc inbox}

private theorem step_cases {s s' : State Msg Resp Req} {l : Label Msg}
    (h : step c svc inbox s l = some s') : Step c svc inbox s l s' := by
  cases l with
  | request msg arrives =>
    simp only [step] at h
    split at h
    · next hreq =>
      obtain rfl := Option.some_inj.mp h
      exact .refused hreq
    · next hreq =>
      cases arrives with
      | false =>
        obtain rfl := Option.some_inj.mp h
        exact .lost hreq
      | true =>
        obtain ⟨server, harrive, rfl⟩ := Option.map_eq_some_iff.mp h
        exact .sent hreq harrive
  | publish msg =>
    simp only [step] at h
    split at h
    · obtain rfl := Option.some_inj.mp h
      exact .unpublished
    · obtain ⟨server, harrive, rfl⟩ := Option.map_eq_some_iff.mp h
      exact .published harrive
  | serve l =>
    obtain ⟨server, hstep, rfl⟩ := Option.map_eq_some_iff.mp h
    exact .serve hstep
  | reply i payload =>
    simp only [step] at h
    split at h
    · next hcall =>
      obtain ⟨hpublished, h⟩ := Option.ite_none_right_eq_some.mp h
      obtain rfl := Option.some_inj.mp h
      exact .reply hcall hpublished
    · contradiction
  | fail i display =>
    simp only [step] at h
    split at h
    · next hcall =>
      obtain rfl := Option.some_inj.mp h
      exact .fail hcall
    · contradiction

/-! ### The serve loop within a run -/

/-- The step of the serve loop, if it is one. -/
def Label.toServe : Label Msg → Option Nats.Label
  | .serve l => some l
  | _ => none

/-- The messages that have arrived. -/
def messages (server : Nats.State Req) : List Message :=
  server.tasks.map (·.message) ++ server.shared.stream

/-- The serve loop with further messages to come. -/
def extend (server : Nats.State Req) (more : List Message) : Nats.State Req :=
  { server with shared := { server.shared with stream := server.shared.stream ++ more } }

@[simp]
theorem extend_nil (server : Nats.State Req) : extend server [] = server := by
  rw [extend, List.append_nil]

/-- The stream has not ended yet. -/
def isOpen (server : Nats.State Req) : Bool :=
  server.shared.status = .subscribing || server.shared.status = .streaming

@[simp]
theorem extend_extend (server : Nats.State Req) (xs ys : List Message) :
    extend (extend server xs) ys = extend server (xs ++ ys) := by
  simp only [extend, List.append_assoc]

@[simp]
theorem messages_extend (server : Nats.State Req) (more : List Message) :
    messages (extend server more) = messages server ++ more := by
  simp only [messages, extend, List.append_assoc]

/-- A message arrives at the end of an open stream. -/
private theorem arrive_cases {server server' : Nats.State Req} {m : Message}
    (h : arrive server m = some server') : isOpen server = true ∧ server' = extend server [m] := by
  obtain ⟨hs, h⟩ := Option.ite_none_right_eq_some.mp h
  exact ⟨by simp [isOpen, hs], (Option.some_inj.mp h).symm⟩

/-- The loop takes the messages that have arrived, and no others. -/
private theorem messages_of_step {stream : List Message} {server server' : Nats.State Req}
    {l : Nats.Label}
    (h : (Nats.system svc stream).machine.step server l = some server') :
    messages server' = messages server := by
  cases ((Nats.system svc stream).step_iff).mp h with
  | main hmain =>
    cases serves_of_serve hmain with
    | pull hs hstream hroom => simp [messages, hstream]
    | refuse hs | subscribe hs | exhaust hs hnil | finish hs hended => simp [messages]
  | @act i a t t' server₁ htask hact =>
    obtain ⟨-, p, -, rfl, rfl⟩ := poll_of_act hact
    rw [messages, messages, Config.map_act htask (t.after_message p)]
    rfl

/-- A stream that has ended stays so. -/
private theorem isOpen_of_step {stream : List Message} {server server' : Nats.State Req}
    {l : Nats.Label}
    (h : (Nats.system svc stream).machine.step server l = some server')
    (hopen : isOpen server' = true) : isOpen server = true := by
  cases ((Nats.system svc stream).step_iff).mp h with
  | main hmain =>
    cases serves_of_serve hmain with
    | refuse hs | exhaust hs hnil | finish hs hended => simp [isOpen] at hopen
    | subscribe hs | pull hs hstream hroom => simp [isOpen, hs]
  | act htask hact =>
    obtain ⟨-, p, -, rfl, rfl⟩ := poll_of_act hact
    cases hout : p.outcome with
    | ok phase => simpa [isOpen, Server.after, hout] using hopen
    | error msg => simp [isOpen, Server.after, hout] at hopen

/-- A loop makes its steps with further messages to come, until the stream ends. -/
private theorem step_extend {stream : List Message} {server server' : Nats.State Req}
    {l : Nats.Label}
    (more : List Message) (h : (Nats.system svc stream).machine.step server l = some server')
    (hopen : isOpen server' = true) :
    (Nats.system svc stream).machine.step (extend server more) l = some (extend server' more) := by
  cases ((Nats.system svc stream).step_iff).mp h with
  | main hmain =>
    cases serves_of_serve hmain with
    | refuse hs | exhaust hs hnil | finish hs hended => simp [isOpen] at hopen
    | subscribe hs =>
      have hserve : serve svc (extend server more) .subscribe =
          some ({ (extend server more).shared with status := .streaming }, []) := by
        simp only [serve, extend, hs]
      exact ((Nats.system svc stream).step_iff).mpr (.main hserve)
    | @pull m rest hs hstream hroom =>
      have hserve : serve svc (extend server more) .pull =
          some ({ (extend server more).shared with stream := rest ++ more },
            [⟨m, .received⟩]) := by
        have hroom' : room svc (extend server more) = true := hroom
        simp only [serve, hroom', if_true]
        simp only [extend, hs, hstream, List.cons_append]
      exact ((Nats.system svc stream).step_iff).mpr (.main hserve)
  | @act i a t t' server₁ htask hact =>
    obtain ⟨hpolling, p, hp, rfl, rfl⟩ := poll_of_act hact
    have hact' : act svc (extend server more).shared i t a =
        some ((extend server more).shared.after i p, t.after p) := by
      have hpolling' : (extend server more).shared.status.polling = true := hpolling
      rw [act, if_pos hpolling', hp]
      rfl
    exact ((Nats.system svc stream).step_iff).mpr (.act htask hact')

variable {ls : List (Label Msg)} {s : State Msg Resp Req}

/-- **The serve loop within a run.** The steps of the serve loop are a run of it on the messages
that have arrived and, as long as the stream has not ended, on any that have not. -/
theorem run_serve (h : (machine c svc inbox).Run ls s) (more : List Message)
    (hmore : isOpen s.server = true ∨ more = []) :
    (Nats.system svc (messages s.server ++ more)).machine.Run (ls.filterMap Label.toServe)
      (extend s.server more) := by
  revert more
  refine h.induct (I := fun ls s => ∀ more, isOpen s.server = true ∨ more = [] →
    (Nats.system svc (messages s.server ++ more)).machine.Run (ls.filterMap Label.toServe)
      (extend s.server more)) ?_ ?_
  · exact fun more _ => rfl
  intro ls l s s' hrun ih hl more hmore
  -- a message that arrives is one of those still to come
  have harrived : ∀ {m server}, arrive s.server m = some server →
      (Nats.system svc (messages server ++ more)).machine.Run (ls.filterMap Label.toServe)
        (extend server more) := by
    intro m server harrive
    obtain ⟨hopen, rfl⟩ := arrive_cases harrive
    rw [messages_extend, extend_extend, List.append_assoc]
    exact ih ([m] ++ more) (Or.inl hopen)
  rw [List.filterMap_append]
  cases step_cases hl with
  | refused hreq | lost hreq | unpublished | reply hcall hpublished | fail hcall =>
    simp only [List.filterMap_cons, Label.toServe, List.filterMap_nil, List.append_nil]
    exact ih more hmore
  | sent hreq harrive | published harrive =>
    simp only [List.filterMap_cons, Label.toServe, List.filterMap_nil, List.append_nil]
    exact harrived harrive
  | @serve l server hstep =>
    simp only [List.filterMap_cons, Label.toServe, List.filterMap_nil]
    rw [messages_of_step hstep]
    rcases hmore with hopen | rfl
    · exact (ih more (Or.inl (isOpen_of_step hstep hopen))).snoc (step_extend more hstep hopen)
    · rw [extend_nil]
      exact (ih [] (Or.inr rfl)).snoc ((extend_nil s.server).symm ▸ hstep)

/-- A publish has failed where the failure is among the steps of the loop. -/
private theorem mem_unpublished_iff (h : (machine c svc inbox).Run ls s) (k : ℕ) :
    k ∈ s.unpublished ↔ ∃ display, .serve (.act k (.published (.error display))) ∈ ls := by
  refine h.induct (I := fun ls s => k ∈ s.unpublished ↔
    ∃ display, .serve (.act k (.published (.error display))) ∈ ls) (by simp [machine]) ?_
  intro ls l s s' _ ih hl
  cases step_cases hl with
  | @serve l server hstep =>
    have hfails : publishFails l = some k ↔
        ∃ display, .act k (.published (.error display)) = l := by
      unfold publishFails
      split
      · simp [eq_comm]
      · next hne => exact iff_of_false nofun fun ⟨display, heq⟩ => hne k display heq.symm
    simp [ih, hfails, exists_or]
  | _ => simp [ih]

/-! ### What is published answers a message -/

private theorem reply_of_answer {m : Message} {reply : String} {payload : List UInt8}
    (h : svc.answer m = some (reply, payload)) : m.reply = some reply := by
  simp only [Service.answer, Option.bind_eq_bind, Option.bind_eq_some_iff] at h
  obtain ⟨req, -, h⟩ := h
  split at h
  · obtain ⟨reply', hreply, h⟩ := Option.bind_eq_some_iff.mp h
    obtain ⟨payload', -, heq⟩ := Option.bind_eq_some_iff.mp h
    obtain ⟨rfl, -⟩ := Prod.mk.inj (Option.some_inj.mp heq)
    exact hreply
  · contradiction

/-- What the loop has published is the answer to a message that has arrived. -/
private theorem exists_of_isPublished (h : (machine c svc inbox).Run ls s) {subject : String}
    {payload : List UInt8} (hpublished : isPublished s subject payload = true) :
    ∃ m ∈ messages s.server, svc.answer m = some (subject, payload) := by
  have hrun := run_serve h [] (Or.inr rfl)
  rw [List.append_nil, extend_nil] at hrun
  obtain ⟨e, he, heq⟩ := List.any_eq_true.mp hpublished
  have hentry : e.2 ∈ s.server.shared.history.entries e.1 := Journal.mem_entries.mpr he
  have heffect := (entries_isPrefix hrun e.1).subset hentry
  cases hm : (messages s.server)[e.1]? with
  | none => simp [hm] at heffect
  | some m =>
    rw [hm, Option.elim_some] at heffect
    have hanswer : (subject, payload) ∈ (svc.effects m).filterMap Effect.toPublish :=
      List.mem_filterMap.mpr ⟨e.2, heffect, (of_decide_eq_true heq).1⟩
    rw [filterMap_toPublish_effects, Option.mem_toList] at hanswer
    exact ⟨m, List.mem_of_getElem? hm, hanswer⟩

/-! ### The calls -/

/-- What a call with this message can return: it could not be serialized, the transport has failed
it, or the serve loop has answered it. -/
inductive Outcome (c : NatsClient Msg Resp) (svc : Service Req Resp') (inbox : ℕ → String) (i : ℕ)
    (msg : Msg) : UtilsResult Resp → Prop
  | unserializable {display : String} (h : c.toVec msg = .error display) :
      Outcome c svc inbox i msg (.error ((UtilsReport.fromForeign display .internal).attach
        "failed to serialize NATS request"))
  | failed {payload : List UInt8} {display : String} (h : c.toVec msg = .ok payload) :
      Outcome c svc inbox i msg (.error (c.networkReport display))
  | answered {payload reply : List UInt8} (h : c.toVec msg = .ok payload)
      (hanswer : svc.answer ⟨payload, some (inbox i)⟩ = some (inbox i, reply)) :
      Outcome c svc inbox i msg (c.replied (.ok reply))

/-- A call that awaits its reply could be serialized, and one that has returned had an outcome. -/
def Call.Sound (c : NatsClient Msg Resp) (svc : Service Req Resp') (inbox : ℕ → String) (i : ℕ)
    (call : Call Msg Resp) : Prop :=
  match call.result with
  | none => ∃ payload, c.toVec call.msg = .ok payload
  | some result => Outcome c svc inbox i call.msg result

/-- The requests that have arrived and the results of the calls belong to the calls. -/
structure Sound (c : NatsClient Msg Resp) (svc : Service Req Resp') (inbox : ℕ → String)
    (s : State Msg Resp Req) : Prop where
  requests : ∀ m ∈ messages s.server, ∀ reply, m.reply = some reply →
    ∃ i call, s.calls[i]? = some call ∧ reply = inbox i ∧ c.toVec call.msg = .ok m.payload
  inboxes : ((messages s.server).filterMap (·.reply)).Nodup
  calls : ∀ (i : ℕ) call, s.calls[i]? = some call → call.Sound c svc inbox i

private theorem request_eq_ok {msg : Msg} {payload : List UInt8} (h : c.request msg = .ok payload) :
    c.toVec msg = .ok payload := by
  rw [NatsClient.request, serializeJsonPayload] at h
  split at h
  · next heq => rwa [← Except.ok.inj h]
  · contradiction

private theorem request_eq_error {msg : Msg} {report : UtilsReport}
    (h : c.request msg = .error report) :
    ∃ display, c.toVec msg = .error display ∧
      report = (UtilsReport.fromForeign display .internal).attach
        "failed to serialize NATS request" := by
  rw [NatsClient.request, serializeJsonPayload] at h
  split at h
  · contradiction
  · next display heq => exact ⟨display, heq, (Except.error.inj h).symm⟩

/-- What holds of the calls and of what becomes of one of them holds of the calls then. -/
private theorem forall_set_calls {calls : List (Call Msg Resp)} {P : ℕ → Call Msg Resp → Prop}
    (h : ∀ i call, calls[i]? = some call → P i call) {k : ℕ} {call : Call Msg Resp}
    (hk : P k call) :
    ∀ i call', (calls.set k call)[i]? = some call' → P i call' := by
  intro i call' hcall
  rw [List.getElem?_set] at hcall
  split at hcall
  · next heq =>
    subst heq
    split at hcall
    · exact Option.some_inj.mp hcall ▸ hk
    · contradiction
  · exact h i call' hcall

/-- What holds of the calls and of a new one holds of the calls then. -/
private theorem forall_snoc_calls {calls : List (Call Msg Resp)} {P : ℕ → Call Msg Resp → Prop}
    (h : ∀ i call, calls[i]? = some call → P i call) {new : Call Msg Resp}
    (hnew : P calls.length new) : ∀ i call, (calls ++ [new])[i]? = some call → P i call := by
  intro i call hcall
  rcases Nat.lt_trichotomy i calls.length with hi | rfl | hi
  · rw [List.getElem?_append_left hi] at hcall
    exact h i call hcall
  · rw [List.getElem?_concat_length] at hcall
    exact Option.some_inj.mp hcall ▸ hnew
  · rw [List.getElem?_eq_none (by rw [List.length_append]; exact hi)] at hcall
    contradiction

/-- A call keeps its message, whatever is done. -/
private theorem exists_call_of_step {s' : State Msg Resp Req} {l : Label Msg}
    (h : Step c svc inbox s l s') {i : ℕ} {call : Call Msg Resp}
    (hcall : s.calls[i]? = some call) :
    ∃ call', s'.calls[i]? = some call' ∧ call'.msg = call.msg := by
  have hi : i < s.calls.length := (List.getElem?_eq_some_iff.mp hcall).1
  cases h with
  | refused hreq | lost hreq | sent hreq harrive =>
    exact ⟨call, (List.getElem?_append_left hi).trans hcall, rfl⟩
  | unpublished | published harrive | serve hstep => exact ⟨call, hcall, rfl⟩
  | @reply k payload msg hk hpublished | @fail k display msg hk =>
    by_cases hik : i = k
    · subst hik
      obtain rfl := Option.some_inj.mp (hk.symm.trans hcall)
      exact ⟨_, List.getElem?_set_self hi, rfl⟩
    · exact ⟨call, (List.getElem?_set_ne (Ne.symm hik)).trans hcall, rfl⟩

/-- **The calls of a run.** -/
theorem sound_of_run (hinbox : Function.Injective inbox) (h : (machine c svc inbox).Run ls s) :
    Sound c svc inbox s := by
  refine h.induct (I := fun _ s => Sound c svc inbox s) ?_ ?_
  · exact ⟨fun m hm => absurd hm List.not_mem_nil, List.nodup_nil,
      fun i call hcall => by simp [machine] at hcall⟩
  intro ls l s s' hrun ih hl
  have hstep := step_cases hl
  -- the requests still belong to their calls
  have hrequests : ∀ m ∈ messages s.server, ∀ reply, m.reply = some reply →
      ∃ i call, s'.calls[i]? = some call ∧ reply = inbox i ∧ c.toVec call.msg = .ok m.payload := by
    intro m hm reply hreply
    obtain ⟨i, call, hcall, rfl, hvec⟩ := ih.requests m hm reply hreply
    obtain ⟨call', hcall', hmsg⟩ := exists_call_of_step hstep hcall
    exact ⟨i, call', hcall', rfl, hmsg ▸ hvec⟩
  cases hstep with
  | refused hreq =>
    obtain ⟨display, hvec, rfl⟩ := request_eq_error hreq
    exact ⟨hrequests, ih.inboxes, forall_snoc_calls ih.calls (.unserializable hvec)⟩
  | lost hreq =>
    exact ⟨hrequests, ih.inboxes, forall_snoc_calls ih.calls ⟨_, request_eq_ok hreq⟩⟩
  | sent hreq harrive =>
    obtain ⟨-, rfl⟩ := arrive_cases harrive
    refine ⟨fun m hm reply hreply => ?_, ?_,
      forall_snoc_calls ih.calls ⟨_, request_eq_ok hreq⟩⟩
    · rw [messages_extend, List.mem_append, List.mem_singleton] at hm
      rcases hm with hm | rfl
      · exact hrequests m hm reply hreply
      · exact ⟨s.calls.length, _, List.getElem?_concat_length, (Option.some_inj.mp hreply).symm,
          request_eq_ok hreq⟩
    · -- the inbox of the new call is new
      rw [messages_extend, List.filterMap_append]
      refine List.nodup_append.mpr ⟨ih.inboxes, List.nodup_singleton _, ?_⟩
      rintro reply hmem reply' hmem' rfl
      obtain rfl := List.mem_singleton.mp hmem'
      obtain ⟨m, hm, hreply⟩ := List.mem_filterMap.mp hmem
      obtain ⟨i, call, hcall, heq, -⟩ := ih.requests m hm _ hreply
      exact Nat.ne_of_gt (List.getElem?_eq_some_iff.mp hcall).1 (hinbox heq)
  | unpublished => exact ih
  | published harrive =>
    obtain ⟨-, rfl⟩ := arrive_cases harrive
    refine ⟨fun m hm reply hreply => ?_, ?_, ih.calls⟩
    · rw [messages_extend, List.mem_append, List.mem_singleton] at hm
      rcases hm with hm | rfl
      · exact hrequests m hm reply hreply
      · contradiction
    · rw [messages_extend, List.filterMap_append]
      simpa using ih.inboxes
  | serve hserve =>
    have hmessages := messages_of_step hserve
    refine ⟨fun m hm => hrequests m (hmessages ▸ hm), ?_, ih.calls⟩
    dsimp only
    rw [hmessages]
    exact ih.inboxes
  | reply hk hpublished =>
    refine ⟨hrequests, ih.inboxes, forall_set_calls ih.calls ?_⟩
    -- the inbox is that of this call, so the message that is answered is its own
    obtain ⟨⟨payload, reply⟩, hm, hanswer⟩ := exists_of_isPublished hrun hpublished
    have hreply := reply_of_answer hanswer
    obtain ⟨j, call, hcall, heq, hvec⟩ := ih.requests _ hm _ hreply
    obtain rfl := hinbox heq
    obtain rfl := Option.some_inj.mp (hk.symm.trans hcall)
    obtain rfl : reply = some (inbox _) := hreply
    exact .answered hvec hanswer
  | fail hk =>
    obtain ⟨payload, hvec⟩ := ih.calls _ _ hk
    exact ⟨hrequests, ih.inboxes, forall_set_calls ih.calls (.failed hvec)⟩

/-! ### The laws of request/reply -/

/-- A pipeline publishes at most once, and to the reply subject of its message. -/
private theorem done_publishes (t : Pipeline Req) :
    ((t.done svc).filterMap Effect.toPublish).length ≤ 1 ∧
      ∀ publish ∈ (t.done svc).filterMap Effect.toPublish, t.message.reply = some publish.1 := by
  have heffects : ((svc.effects t.message).filterMap Effect.toPublish).length ≤ 1 ∧
      ∀ publish ∈ (svc.effects t.message).filterMap Effect.toPublish,
        t.message.reply = some publish.1 := by
    rw [filterMap_toPublish_effects]
    refine ⟨Option.length_toList_le, fun publish hpublish => ?_⟩
    exact reply_of_answer (Option.mem_toList.mp hpublish)
  unfold Pipeline.done
  split
  · simp
  · simp [List.filterMap_cons, Effect.toPublish]
  · exact heffects

/-- **One reply.** The loop publishes to an inbox at most once. -/
theorem replies_le_one (hinbox : Function.Injective inbox) (h : (machine c svc inbox).Run ls s)
    (i : ℕ) :
    s.server.shared.history.countP (fun e => e.2.toPublish.map Prod.fst = some (inbox i)) ≤ 1 := by
  let toInbox : Effect Req → Bool := fun e => e.toPublish.map Prod.fst = some (inbox i)
  have hrun := run_serve h [] (Or.inr rfl)
  rw [List.append_nil, extend_nil] at hrun
  have hone : ∀ t ∈ s.server.tasks, (t.done svc).countP toInbox =
      if (t.done svc).any toInbox then 1 else 0 := by
    intro t _
    have hle : (t.done svc).countP toInbox ≤ 1 := by
      have hlength : ((t.done svc).filterMap Effect.toPublish).length ≤ 1 := (done_publishes t).1
      rw [List.length_filterMap_eq_countP] at hlength
      refine Nat.le_trans (List.countP_mono_left fun e _ he => ?_) hlength
      have he := of_decide_eq_true he
      cases hpublish : e.toPublish with
      | none => simp [hpublish] at he
      | some publish => rfl
    split
    · next hany =>
      have hpos := List.countP_pos_iff.mpr (List.any_eq_true.mp hany)
      omega
    · next hany =>
      rw [List.countP_eq_zero]
      exact fun e he hto => hany (List.any_eq_true.mpr ⟨e, he, hto⟩)
  have hcount := Journal.countP_eq (pipelines_of_run hrun).2 hone
  refine Nat.le_trans (Nat.le_of_eq hcount) ?_
  -- the messages with this reply subject are at most one
  have hnodup := List.nodup_iff_count_le_one.mp (sound_of_run hinbox h).inboxes (inbox i)
  refine Nat.le_trans ?_ hnodup
  rw [messages, List.filterMap_append, List.count_append, List.filterMap_map, List.count,
    List.countP_filterMap]
  refine Nat.le_trans (List.countP_mono_left fun t _ ht => ?_) (Nat.le_add_right _ _)
  obtain ⟨e, he, hto⟩ := List.any_eq_true.mp ht
  obtain ⟨publish, hpublish, hfst⟩ := Option.map_eq_some_iff.mp (of_decide_eq_true hto)
  have hreply := (done_publishes t).2 publish (List.mem_filterMap.mpr ⟨e, he, hpublish⟩)
  simp [hreply, hfst]

/-- **The law of request/reply**, for any number of calls and every interleaving of both ends and of
what is between them. What a call of `request` returns is the report of its own serialization, a
report of the transport, or what the serve loop has answered to the message of this very call, with
the codec of the client applied; and the loop publishes to its inbox at most once. -/
theorem rpc_law (hinbox : Function.Injective inbox) (hrun : (machine c svc inbox).Run ls s) :
    (∀ (i : ℕ) msg result, s.calls[i]? = some ⟨msg, some result⟩ →
      Outcome c svc inbox i msg result) ∧
    ∀ i, s.server.shared.history.countP
      (fun e => e.2.toPublish.map Prod.fst = some (inbox i)) ≤ 1 :=
  ⟨fun i _ _ hcall => (sound_of_run hinbox hrun).calls i _ hcall, replies_le_one hinbox hrun⟩

/-- A client of `byteService`. -/
def byteClient : NatsClient UInt8 UInt8 where
  subject := "svc.byte"
  toVec byte := .ok [byte]
  fromSlice := (byteService fun byte => .returns (.ok byte)).fromSlice

/-- An inbox for each call. -/
def inboxOf (i : ℕ) : String := String.ofList (List.replicate i 'i')

private theorem inboxOf_injective : Function.Injective inboxOf := by
  intro i j h
  have hlength := congrArg List.length (String.ofList_injective h)
  simpa using hlength

/-- A request that is refused and times out, one that is answered before, and one that is lost. -/
def threeRequests : List (Label UInt8) :=
  [.serve (.main .subscribe), .request 1 true, .request 5 true, .serve (.main .pull),
    .serve (.main .pull), .publish 7, .request 9 false, .serve (.act 1 .start),
    .serve (.act 0 .start), .serve (.act 1 .resume), .reply 1 [5], .serve (.act 0 .resume),
    .fail 0 "timed out"]

theorem rpc_law_threeRequests :
    ∃ s, (machine byteClient refusesOne inboxOf).Run threeRequests s ∧
      Outcome byteClient refusesOne inboxOf 1 5 (.ok 5) ∧
      s.server.shared.history.countP
        (fun e => e.2.toPublish.map Prod.fst = some (inboxOf 1)) ≤ 1 := by
  have hrun : ∃ s, (machine byteClient refusesOne inboxOf).Run threeRequests s ∧
      s.calls[1]? = some ⟨5, some (.ok 5)⟩ := ⟨_, rfl, rfl⟩
  obtain ⟨s, hrun, hcall⟩ := hrun
  have hlaw := rpc_law inboxOf_injective hrun
  exact ⟨s, hrun, hlaw.1 1 5 _ hcall, hlaw.2 1⟩

/-- Only an answer is returned as `Ok`. -/
private theorem exists_of_outcome {i : ℕ} {msg : Msg} {result : UtilsResult Resp} {resp : Resp}
    (h : Outcome c svc inbox i msg result) (hresult : result = .ok resp) :
    ∃ payload reply, c.toVec msg = .ok payload ∧
      svc.answer ⟨payload, some (inbox i)⟩ = some (inbox i, reply) ∧
      c.replied (.ok reply) = .ok resp := by
  cases h with
  | unserializable hvec | failed hvec => contradiction
  | answered hvec hanswer => exact ⟨_, _, hvec, hanswer, hresult⟩

/-- What the loop answers to a request that both codecs agree on. -/
private theorem answer_eq {c : NatsClient Req Resp} {svc : Service Req Resp}
    (hreq : ∀ req bytes, c.toVec req = .ok bytes → svc.fromSlice bytes = .ok req) {req : Req}
    {payload reply : List UInt8} {subject : String} (hvec : c.toVec req = .ok payload) :
    svc.answer ⟨payload, some subject⟩ = some (subject, reply) ↔
      payload.length ≤ svc.config.maxPayloadBytes ∧
        ∃ resp, svc.handler req = .returns (.ok resp) ∧ svc.toVec resp = .ok reply := by
  unfold Service.answer Service.request
  by_cases hsize : payload.length ≤ svc.config.maxPayloadBytes
  · simp only [hsize, if_true, hreq req payload hvec, Except.toOption, Option.bind_eq_bind,
      Option.bind_some, true_and]
    cases svc.handler req with
    | callPanics msg | futurePanics msg => simp
    | returns result =>
      cases result with
      | error report => simp
      | ok resp => cases hbytes : svc.toVec resp <;> simp [hbytes]
  · simp [hsize]

/-- **Round trip.** Where the codecs of both ends agree, a call that returns `Ok` returns what the
handler has returned for the message of the call. And no answer is missing: when the serve loop has
returned, a call that still awaits its reply can be delivered what the handler has returned, if its
message has arrived, its size is within the limit, the response can be encoded, and the publish of
the reply has not failed. -/
theorem rpc_round_trip {c : NatsClient Req Resp} {svc : Service Req Resp}
    {s : State Req Resp Req} {ls : List (Label Req)} (hinbox : Function.Injective inbox)
    (hreq : ∀ req bytes, c.toVec req = .ok bytes → svc.fromSlice bytes = .ok req)
    (hresp : ∀ resp bytes, svc.toVec resp = .ok bytes → c.fromSlice bytes = .ok resp)
    (hrun : (machine c svc inbox).Run ls s) :
    (∀ (i : ℕ) msg resp, s.calls[i]? = some ⟨msg, some (.ok resp)⟩ →
      svc.handler msg = .returns (.ok resp)) ∧
    ∀ (i k : ℕ) msg payload resp reply, s.calls[i]? = some ⟨msg, none⟩ →
      s.server.shared.status = .returned (.ok ()) →
      c.toVec msg = .ok payload → (messages s.server)[k]? = some ⟨payload, some (inbox i)⟩ →
      payload.length ≤ svc.config.maxPayloadBytes → svc.handler msg = .returns (.ok resp) →
      svc.toVec resp = .ok reply →
      (∀ display, .serve (.act k (.published (.error display))) ∉ ls) →
      step c svc inbox s (.reply i reply) =
        some { s with calls := s.calls.set i ⟨msg, some (.ok resp)⟩ } := by
  refine ⟨fun i msg resp hcall => ?_, ?_⟩
  · obtain ⟨payload, reply, hvec, hanswer, hreplied⟩ :=
      exists_of_outcome ((sound_of_run hinbox hrun).calls i _ hcall) rfl
    obtain ⟨-, resp', hhandler, hreply⟩ := (answer_eq hreq hvec).mp hanswer
    rw [NatsClient.replied, hresp resp' reply hreply] at hreplied
    obtain rfl := Except.ok.inj hreplied
    exact hhandler
  · intro i k msg payload resp reply hcall hs hvec hget hsize hhandler hreply hsent
    have hserve := run_serve hrun [] (Or.inr rfl)
    rw [List.append_nil, extend_nil] at hserve
    have hanswer : svc.answer ⟨payload, some (inbox i)⟩ = some (inbox i, reply) :=
      (answer_eq hreq hvec).mpr ⟨hsize, resp, hhandler, hreply⟩
    -- the loop has had all effects of this message
    have hentries := (entries_of_returned hserve hs).1 k
    rw [hget, Option.elim_some] at hentries
    have hpublished : isPublished s (inbox i) reply = true := by
      have hmem : (inbox i, reply) ∈
          (s.server.shared.history.entries k).filterMap Effect.toPublish := by
        rw [hentries, filterMap_toPublish_effects, hanswer]
        exact List.mem_singleton_self _
      obtain ⟨e, he, heq⟩ := List.mem_filterMap.mp hmem
      have hkept : k ∉ s.unpublished := fun hmem =>
        ((mem_unpublished_iff hrun k).mp hmem).elim hsent
      exact List.any_eq_true.mpr ⟨(k, e), Journal.mem_entries.mp he, decide_eq_true ⟨heq, hkept⟩⟩
    simp only [step, hcall, hpublished, if_true, NatsClient.replied, hresp resp reply hreply]

/-- The answer is there when the loop has returned, and then it is delivered. The reply to another
request could not be published. -/
theorem rpc_round_trip_lateReply :
    ∃ ls s, (machine byteClient refusesOne inboxOf).Run ls s ∧
      s.server.shared.status = .returned (.ok ()) ∧
      step byteClient refusesOne inboxOf s (.reply 0 [5]) =
        some { s with calls := s.calls.set 0 ⟨5, some (.ok 5)⟩ } ∧
      step byteClient refusesOne inboxOf s (.reply 1 [6]) = none := by
  let ls : List (Label UInt8) :=
    [.serve (.main .subscribe), .request 5 true, .request 6 true, .serve (.main .pull),
      .serve (.main .pull), .serve (.act 1 .start), .serve (.act 0 .start),
      .serve (.act 1 .resume), .serve (.act 0 .resume), .serve (.act 0 (.published (.ok ()))),
      .serve (.act 1 (.published (.error "connection closed"))), .serve (.main .exhaust),
      .serve (.main .finish)]
  have hrun : ∃ s, (machine byteClient refusesOne inboxOf).Run ls s ∧
      s.calls[0]? = some ⟨5, none⟩ ∧ s.server.shared.status = .returned (.ok ()) ∧
      (messages s.server)[0]? = some ⟨[5], some (inboxOf 0)⟩ ∧
      step byteClient refusesOne inboxOf s (.reply 1 [6]) = none :=
    ⟨_, rfl, rfl, rfl, rfl, rfl⟩
  obtain ⟨s, hrun, hcall, hs, hmessage, hnone⟩ := hrun
  have hreq : ∀ req bytes, byteClient.toVec req = .ok bytes →
      refusesOne.fromSlice bytes = .ok req := by
    rintro req _ ⟨⟩
    rfl
  have hresp : ∀ resp bytes, refusesOne.toVec resp = .ok bytes →
      byteClient.fromSlice bytes = .ok resp := by
    rintro resp _ ⟨⟩
    rfl
  have hsent : ∀ display, .serve (.act 0 (.published (.error display))) ∉ ls := by
    simp [ls]
  exact ⟨ls, s, hrun, hs, (rpc_round_trip inboxOf_injective hreq hresp hrun).2 0 0 5 [5] 5 [5]
    hcall hs rfl hmessage (by decide) rfl rfl hsent, hnone⟩

end Rpc

end Nats

end RustUtils
