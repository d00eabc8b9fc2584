import RustUtils.Error
import RustUtils.Transition.Journal
import RustUtils.Transition.Tasks

/-!
# `NatsClient::serve_request_reply`

The serve loop subscribes and hands every message of the subscription to a pipeline of its
own. `for_each_concurrent` takes the next message while fewer than `max_concurrency` pipelines
are in flight, polls the pipelines inline, in any order, and completes when the stream has
ended and no pipeline is left. A panic of a pipeline unwinds through it.

A pipeline is `handle_message`, cut where it suspends: `handleMessage` runs up to the await of
the handler's future, `resume` from its completion to the await of the publish. What the
pipelines do to the outside is the `history` of the loop, a journal under the number of the
message. The handler and the codec are parameters of a `Service`.
-/

namespace RustUtils

open Transition

/-- `NonZeroUsize`. -/
abbrev NonZeroUsize := {n : ℕ // 0 < n ∧ n < 2 ^ 64}

/-- `SubscriptionConfig`. -/
structure SubscriptionConfig where
  maxConcurrency : Option NonZeroUsize
  maxPayloadBytes : ℕ
  queueGroup : Option String

/-- `SubscriptionConfig::new`. -/
def SubscriptionConfig.new (maxConcurrency : Option NonZeroUsize) (maxPayloadBytes : ℕ) :
    SubscriptionConfig :=
  ⟨maxConcurrency, maxPayloadBytes, none⟩

/-- `SubscriptionConfig::default`: 16 concurrent handlers, 1 MiB for each message. -/
def SubscriptionConfig.default : SubscriptionConfig :=
  new (some ⟨16, by decide, by decide⟩) (1024 * 1024)

namespace Nats

/-- `async_nats::Message`, as far as the pipeline reads it. -/
structure Message where
  payload : List UInt8
  reply : Option String
  deriving DecidableEq

/-- What becomes of a call of the handler. -/
inductive Handled (Resp : Type) where
  /-- The call itself panics. -/
  | callPanics (msg : String)
  /-- The future panics, maybe after it has been suspended. -/
  | futurePanics (msg : String)
  /-- The future completes, maybe after it has been suspended. -/
  | returns (result : UtilsResult Resp)

/-- What `serve_request_reply` is called with, and the codec of its messages, whose errors are
given by their `Display`. -/
structure Service (Req Resp : Type) where
  subject : String
  config : SubscriptionConfig
  handler : Req → Handled Resp
  /-- `serde_json::from_slice`. -/
  fromSlice : List UInt8 → Except String Req
  /-- `serde_json::to_vec`. -/
  toVec : Resp → Except String (List UInt8)

/-- What a pipeline does to the outside. -/
inductive Effect (Req : Type) where
  /-- The handler is called. -/
  | called (req : Req)
  /-- `client.publish` is called. -/
  | published (subject : String) (payload : List UInt8)
  deriving DecidableEq

/-- Where a pipeline stands. -/
inductive Phase (Req : Type) where
  /-- Not polled yet. -/
  | received
  /-- Awaiting the handler's future. -/
  | handling (req : Req)
  /-- Awaiting the publish. -/
  | publishing
  | ended
  | panicked
  deriving DecidableEq

/-- A message and its pipeline. -/
structure Pipeline (Req : Type) where
  message : Message
  phase : Phase Req
  deriving DecidableEq

/-- Where the serve loop stands. -/
inductive Status where
  /-- Awaiting the subscription. -/
  | subscribing
  /-- In `for_each_concurrent`. -/
  | streaming
  /-- In `for_each_concurrent`, past the end of the stream. -/
  | draining
  | returned (result : UtilsResult Unit)
  /-- A panic has unwound through the loop; the pipelines are dropped. -/
  | unwound (msg : String)
  deriving DecidableEq

/-- The serve loop. -/
structure Server (Req : Type) where
  /-- The messages still to come. -/
  stream : List Message
  status : Status
  /-- What the pipelines have done. -/
  history : Journal (Effect Req)
  deriving DecidableEq

/-- The serve loop and its pipelines. -/
abbrev State (Req : Type) := Config (Server Req) (Pipeline Req)

/-- A move of the serve loop. -/
inductive Move where
  /-- The subscription fails. -/
  | refuse (display : String)
  | subscribe
  /-- The next message of the stream is taken. -/
  | pull
  /-- The stream has ended. -/
  | exhaust
  /-- No pipeline is left and `serve_request_reply` returns. -/
  | finish
  deriving DecidableEq

/-- A poll of a pipeline that gets somewhere. -/
inductive Act where
  /-- The first poll. -/
  | start
  /-- The handler's future has completed or panics. -/
  | resume
  /-- The publish has completed, or failed with an error. -/
  | published (result : Except String Unit)
  deriving DecidableEq

abbrev Label := Transition.Move Move Act

/-! ### `handle_message` -/

/-- What one poll of a pipeline does, and where it leaves it unless it panics. -/
structure Poll (Req : Type) where
  effects : List (Effect Req)
  outcome : Except String (Phase Req)

variable {Req Resp : Type} (svc : Service Req Resp)

/-- `handle_message` up to the await of the handler's future. -/
def handleMessage (message : Message) : Poll Req :=
  if svc.config.maxPayloadBytes < message.payload.length then ⟨[], .ok .ended⟩
  else match svc.fromSlice message.payload with
    | .error _ => ⟨[], .ok .ended⟩
    | .ok req => match svc.handler req with
      | .callPanics msg => ⟨[.called req], .error msg⟩
      | _ => ⟨[.called req], .ok (.handling req)⟩

/-- `handle_message` from the completion of the handler's future to the await of the publish. -/
def resume (message : Message) (req : Req) : Poll Req :=
  match svc.handler req with
  | .callPanics msg => ⟨[], .error msg⟩
  | .futurePanics msg => ⟨[], .error msg⟩
  | .returns (.error _) => ⟨[], .ok .ended⟩
  | .returns (.ok resp) => match message.reply with
    | none => ⟨[], .ok .ended⟩
    | some reply => match svc.toVec resp with
      | .error _ => ⟨[], .ok .ended⟩
      | .ok payload => ⟨[.published reply payload], .ok .publishing⟩

/-- A poll of a pipeline. -/
def Pipeline.poll (t : Pipeline Req) : Act → Option (Poll Req)
  | .start => if let .received := t.phase then some (handleMessage svc t.message) else none
  | .resume => if let .handling req := t.phase then some (resume svc t.message req) else none
  | .published _ => if let .publishing := t.phase then some ⟨[], .ok .ended⟩ else none

/-! ### The loop -/

namespace Pipeline

/-- The pipeline is in flight. -/
def live (t : Pipeline Req) : Bool :=
  match t.phase with
  | .ended | .panicked => false
  | _ => true

/-- The pipeline after a poll. -/
def after (t : Pipeline Req) (p : Poll Req) : Pipeline Req :=
  match p.outcome with
  | .ok phase => { t with phase := phase }
  | .error _ => { t with phase := .panicked }

end Pipeline

/-- The loop after a poll of pipeline `i`. -/
def Server.after (server : Server Req) (i : ℕ) (p : Poll Req) : Server Req where
  stream := server.stream
  status := match p.outcome with
    | .ok _ => server.status
    | .error msg => .unwound msg
  history := server.history ++ Journal.tag i p.effects

/-- The pipelines are being polled. -/
def Status.polling : Status → Bool
  | streaming | draining => true
  | _ => false

/-- There is room for one more pipeline. -/
def room (s : State Req) : Bool :=
  match svc.config.maxConcurrency with
  | none => true
  | some cap => s.tasks.countP Pipeline.live < cap.val

/-- The report of a failed subscription. -/
def subscribeReport (display : String) : UtilsReport :=
  let subject := svc.subject
  match svc.config.queueGroup with
  | some group => (UtilsReport.fromForeign display .network).attach
      s!"nats subject: {subject} (queue group: {group})"
  | none => (UtilsReport.fromForeign display .network).attach s!"nats subject: {subject}"

/-- A move of the loop. -/
def serve (s : State Req) (g : Move) : Option (Server Req × List (Pipeline Req)) :=
  let server := s.shared
  match g, server.status with
  | .refuse display, .subscribing =>
    some ({ server with status := .returned (.error (subscribeReport svc display)) }, [])
  | .subscribe, .subscribing => some ({ server with status := .streaming }, [])
  | .pull, .streaming =>
    match server.stream with
    | [] => none
    | message :: rest =>
      if room svc s then some ({ server with stream := rest }, [⟨message, .received⟩]) else none
  | .exhaust, .streaming =>
    if server.stream = [] ∧ room svc s = true then some ({ server with status := .draining }, [])
    else none
  | .finish, .draining =>
    if s.tasks.any Pipeline.live then none
    else some ({ server with status := .returned (.ok ()) }, [])
  | _, _ => none

/-- A poll of pipeline `i`. -/
def act (server : Server Req) (i : ℕ) (t : Pipeline Req) (a : Act) :
    Option (Server Req × Pipeline Req) :=
  if server.status.polling then (t.poll svc a).map fun p => (server.after i p, t.after p)
  else none

/-- `serve_request_reply` on a subscription that delivers the messages of `stream`. -/
def system (stream : List Message) : TaskSystem (Server Req) (Pipeline Req) Move Act where
  init := ⟨stream, .subscribing, []⟩
  main := serve svc
  act := act svc

end Nats

end RustUtils
