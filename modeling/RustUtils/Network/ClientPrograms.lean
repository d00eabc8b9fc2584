import RustUtils.Network.StackLatency
import RustUtils.Transition.Resumption

/-!
# The HTTP clients as resumptions

The clients once more, as functions that suspend: what they perform are the awaits of the source,
so that calls can be interleaved there. A client knows its limiter by a reference, which its clones
share. `ClientStack.interp_execute` says that a stack of clients, run on a world that answers the
awaits, is the stack of retry layers over `Client::execute`.

A `Tally` counts what a call has performed, and `watch` forbids what a call must not do: to send a
request without a cell of its own, to send another request than its own, or to send it once more
without a layer that retries it and has slept for its delay. `Executor.Sound` is the specification
of an executor. A layer keeps it with as many times the requests as it makes attempts
(`Executor.Sound.execute`), and `ClientStack.sound` is the induction over the layers.
-/

namespace RustUtils

open Transition Resumption

namespace ClientCalls

/-! ### The programs -/

/-- What a client awaits, and the wall clock it reads. -/
inductive Effect where
  | untilReady (limiter : ℕ)
  | send (req : Request)
  | wallClock
  | sleep (token : Option CancellationToken) (delay : Duration)

/-- What comes back. -/
abbrev Effect.Answer : Effect → Type
  | untilReady _ => Unit
  | send _ => Except ReqwestError Response
  | wallClock => ℤ
  | sleep _ _ => Bool

/-- An async function of the clients. -/
abbrev Program (α : Type) := Resumption Effect Effect.Answer α

namespace Program

/-- `until_ready` of a limiter. -/
def untilReady (limiter : ℕ) : Program Unit := perform (Effect.untilReady limiter)

/-- `reqwest::Client::execute`. -/
def send (req : Request) : Program (Except ReqwestError Response) := perform (Effect.send req)

/-- `SystemTime::now`. -/
def wallClock : Program ℤ := perform Effect.wallClock

/-- `sleep_or_cancel`. -/
def sleepOrCancel (token : Option CancellationToken) (delay : Duration) : Program Bool :=
  perform (Effect.sleep token delay)

end Program

/-- `HttpExecutor`, as a program. -/
abbrev Executor := Request → Program (UtilsResult Response)

/-- `Client`, with the reference to its limiter. -/
inductive SharedClient where
  | rateLimited (limiter : ℕ)
  | unrestricted
  deriving DecidableEq

/-- `Client::execute`. -/
def SharedClient.execute : SharedClient → Executor
  | rateLimited limiter => fun req => do
    Program.untilReady limiter
    let result ← Program.send req
    pure (result.mapError intoNetworkOrHttp)
  | unrestricted => fun req => do
    let result ← Program.send req
    pure (result.mapError intoNetworkOrHttp)

/-- The loop of `RetryingClient::execute` at `attempt`, with `n` further attempts to go. -/
def retries (layer : RetryLayer) (inner : Executor) (template : Option Request)
    (method : Method) : ℕ → ℕ → UtilsResult Response → Program (UtilsResult Response)
  | 0, _, last => pure last
  | n + 1, attempt, last =>
    if !layer.policy.shouldRetry last method then pure last
    else match template.bind Request.tryClone with
      | none => pure last
      | some retryReq => do
        -- the source reads the clock where the jitter needs it
        let wall ← Program.wallClock
        let delay := layer.policy.computeDelay attempt last wall
        if !(← Program.sleepOrCancel layer.cancel delay) then pure last
        else
          let last ← inner retryReq
          retries layer inner template method n (attempt + 1) last

/-- `RetryingClient::execute`. -/
def execute (layer : RetryLayer) (inner : Executor) : Executor := fun req => do
  let template := req.tryClone
  let last ← inner req
  retries layer inner template req.method (layer.policy.maxAttempts.val - 1) 1 last

/-- Retry layers over a client, the outermost first. -/
structure ClientStack where
  layers : List RetryLayer
  client : SharedClient

/-- `execute` of the outermost layer. -/
def ClientStack.execute (stack : ClientStack) : Executor :=
  stack.layers.foldr ClientCalls.execute stack.client.execute

/-! ### On a world -/

section

variable {σ : Type} (inner : ReqwestClient σ) (untilReady : ℕ → Async σ Unit)

/-- A world that answers what the clients await. -/
def answers : ∀ e : Effect, Async σ e.Answer
  | .untilReady limiter => untilReady limiter
  | .send req => inner req
  | .wallClock => fun w => (w.wall, w)
  | .sleep token delay => sleepOrCancel token delay

/-- The client in this world. -/
def SharedClient.client : SharedClient → Client σ
  | rateLimited limiter => .rateLimited ⟨inner, untilReady limiter⟩
  | unrestricted => .unrestricted inner

/-- The wall clock is read in the world. -/
private theorem interp_wallClock :
    interp (answers inner untilReady) Program.wallClock = fun w => (w.wall, w) :=
  interp_perform (answers inner untilReady) Effect.wallClock

/-- The sleep is that of the model. -/
private theorem interp_sleepOrCancel (token : Option CancellationToken) (delay : Duration) :
    interp (answers inner untilReady) (Program.sleepOrCancel token delay) =
      sleepOrCancel token delay :=
  interp_perform (answers inner untilReady) (Effect.sleep token delay)

/-- The client's program is its `execute`. -/
private theorem SharedClient.interp_execute (c : SharedClient) (req : Request) :
    (c.execute req).interp (answers inner untilReady) =
      (c.client inner untilReady).execute req := by
  cases c <;> simp only [execute, interp_bind, interp_pure] <;> rfl

/-- The loop's program is the loop, over any executor that its own program computes. -/
private theorem interp_retries (layer : RetryLayer) {exec : Executor} {exec' : HttpExecutor σ}
    (h : ∀ req, (exec req).interp (answers inner untilReady) = exec' req)
    (template : Option Request) (method : Method) (n k : ℕ) (last : UtilsResult Response) :
    (retries layer exec template method n k last).interp (answers inner untilReady) =
      RetryingClient.retries ⟨exec', layer.policy, layer.cancel⟩ template method n k last := by
  induction n generalizing k last with
  | zero => rfl
  | succ n ih =>
    rw [retries, RetryingClient.retries]
    split
    · rfl
    · cases template.bind Request.tryClone with
      | none => rfl
      | some retryReq =>
        funext w
        simp only [interp_bind, interp_wallClock, interp_sleepOrCancel, Async.bind_apply,
          RetryingClient.sleepInterruptible]
        cases (sleepOrCancel layer.cancel (layer.policy.computeDelay k last w.wall) w).1 with
        | false => rfl
        | true => simp [h, ih]

/-- **The programs are the clients**: on a world that answers what they await, a stack of programs
is the stack of retry layers over the client. -/
theorem ClientStack.interp_execute (stack : ClientStack) (req : Request) :
    (stack.execute req).interp (answers inner untilReady) =
      retryLayers stack.layers (stack.client.client inner untilReady).execute req := by
  obtain ⟨layers, client⟩ := stack
  rw [execute, retryLayers]
  induction layers generalizing req with
  | nil => exact client.interp_execute inner untilReady req
  | cons layer layers ih =>
    rw [List.foldr_cons, List.foldr_cons, ClientCalls.execute, interp_bind, ih]
    simp only [interp_retries inner untilReady layer ih]
    rfl

end

/-! ### What a call has performed -/

/-- How many cells a request costs. -/
def SharedClient.cost : SharedClient → ℕ
  | rateLimited _ => 1
  | unrestricted => 0

/-- What a call has performed so far. -/
structure Tally where
  /-- The cells it has got. -/
  cells : ℕ
  /-- The requests that have been answered. -/
  sends : ℕ
  /-- The outcome of the latest one. -/
  last : Option (UtilsResult Response)
  /-- The latest sleep since then, if it was not cut short. -/
  slept : Option (Option CancellationToken × Duration)

/-- Nothing so far. -/
def Tally.init : Tally := ⟨0, 0, none, none⟩

/-- One more effect with its answer. -/
def Tally.next (t : Tally) : (e : Effect) → e.Answer → Tally
  | .untilReady _, _ => { t with cells := t.cells + 1 }
  | .send _, result =>
    { t with
      sends := t.sends + 1
      last := some (result.mapError intoNetworkOrHttp)
      slept := none }
  | .wallClock, _ => t
  | .sleep token delay, elapsed => if elapsed then { t with slept := some (token, delay) } else t

/-- A layer sends the request again after this outcome: it has a further attempt and retries the
outcome, and it has slept for its delay. -/
def Grants (layer : RetryLayer) (req : Request) (result : UtilsResult Response)
    (slept : Option (Option CancellationToken × Duration)) : Prop :=
  layer.policy.shouldRetry result req.method = true ∧ req.tryClone = some req ∧
    ∃ k wall, 0 < k ∧ k < layer.policy.maxAttempts.val ∧
      slept = some (layer.cancel, layer.policy.computeDelay k result wall)

/-- The call has not sent its request yet, or one of the layers sends it again. -/
def Tally.Granted (t : Tally) (layers : List RetryLayer) (req : Request) : Prop :=
  ∀ result, t.last = some result → ∃ layer ∈ layers, Grants layer req result t.slept

/-- Every cell has been spent on a request. -/
def Tally.Settled (t : Tally) (client : SharedClient) : Prop := t.cells = client.cost * t.sends

/-- What a call with a request must not do is forbidden: to wait for another limiter than that of
its client or to leave a cell unused; to send another request, or to send it without a cell of its
own; to send it again without a layer that does; and to send it more than `limit` times. -/
def watch (client : SharedClient) (layers : List RetryLayer) (req : Request) (limit : ℕ) :
    Monitor Effect Effect.Answer Tally where
  allows t
    | .untilReady limiter =>
      client = .rateLimited limiter ∧ t.Settled client ∧ t.sends < limit ∧ t.Granted layers req
    | .send req' =>
      req' = req ∧ t.cells = client.cost * (t.sends + 1) ∧ t.sends < limit ∧ t.Granted layers req
    | .wallClock | .sleep _ _ => t.Settled client
  next := Tally.next

section

variable {client : SharedClient} {layers : List RetryLayer} {req : Request} {limit : ℕ}
  {t : Tally}

/-- Under `watch` a limiter is asked once per send, and only for a granted one. -/
private theorem meets_untilReady {limiter : ℕ} {post : Tally → Unit → Prop} :
    (Program.untilReady limiter).Meets (watch client layers req limit) post t ↔
      (client = .rateLimited limiter ∧ t.Settled client ∧ t.sends < limit ∧
        t.Granted layers req) ∧ post { t with cells := t.cells + 1 } () :=
  meets_perform.trans (and_congr_right fun _ => ⟨fun h => h (), fun h _ => h⟩)

/-- Under `watch` a send is the granted request, and its cells are taken. -/
private theorem meets_send {req' : Request} {post : Tally → Except ReqwestError Response → Prop} :
    (Program.send req').Meets (watch client layers req limit) post t ↔
      (req' = req ∧ t.cells = client.cost * (t.sends + 1) ∧ t.sends < limit ∧
        t.Granted layers req) ∧ ∀ result, post (t.next (.send req') result) result :=
  meets_perform

/-- Under `watch` the clock is read between the sends. -/
private theorem meets_wallClock {post : Tally → ℤ → Prop} :
    Program.wallClock.Meets (watch client layers req limit) post t ↔
      t.Settled client ∧ ∀ wall, post t wall :=
  meets_perform

/-- Under `watch` a sleep stands between the sends, and its outcome is noted if it was full. -/
private theorem meets_sleepOrCancel {token : Option CancellationToken} {delay : Duration}
    {post : Tally → Bool → Prop} :
    (Program.sleepOrCancel token delay).Meets (watch client layers req limit) post t ↔
      t.Settled client ∧ post t false ∧ post { t with slept := some (token, delay) } true :=
  meets_perform.trans (and_congr_right fun _ => Bool.forall_bool)

end

/-- A call of an executor, begun after `t`, has returned after `t'`. -/
structure Tally.Served (client : SharedClient) (bound : ℕ) (once : Prop) (t t' : Tally)
    (result : UtilsResult Response) : Prop where
  settled : t'.Settled client
  last : t'.last = some result
  lt : t.sends < t'.sends
  le : t'.sends ≤ t.sends + bound
  once : once → t'.sends = t.sends + 1

/-- Every call of the executor sends its request at most `bound` times, and exactly once if it is
one of those that are sent `once`. -/
def Executor.Sound (exec : Executor) (client : SharedClient) (layers : List RetryLayer)
    (bound : ℕ) (once : Request → Prop) : Prop :=
  ∀ req limit t, t.Settled client → t.Granted layers req → t.sends + bound ≤ limit →
    (exec req).Meets (watch client layers req limit)
      (Tally.Served client bound (once req) t) t

/-- A client sends a request once. -/
private theorem SharedClient.sound (c : SharedClient) (layers : List RetryLayer) :
    Executor.Sound c.execute c layers 1 fun _ => True := by
  intro req limit t hsettled hgranted hlimit
  cases c with
  | rateLimited limiter =>
    have hcells : t.cells + 1 = (rateLimited limiter).cost * (t.sends + 1) := by
      rw [hsettled, Nat.mul_succ, cost]
    refine (meets_bind _ _).mpr (meets_untilReady.mpr ⟨⟨rfl, hsettled, hlimit, hgranted⟩, ?_⟩)
    refine (meets_bind _ _).mpr (meets_send.mpr ⟨⟨rfl, hcells, hlimit, hgranted⟩, ?_⟩)
    exact fun result => ⟨hcells, rfl, Nat.lt_succ_self _, le_rfl, fun _ => rfl⟩
  | unrestricted =>
    have hcells : t.cells = unrestricted.cost * (t.sends + 1) := by
      rw [hsettled, cost, Nat.zero_mul, Nat.zero_mul]
    refine (meets_bind _ _).mpr (meets_send.mpr ⟨⟨rfl, hcells, hlimit, hgranted⟩, ?_⟩)
    exact fun result => ⟨hcells, rfl, Nat.lt_succ_self _, le_rfl, fun _ => rfl⟩

/-! ### One layer -/

section

variable {client : SharedClient} {layers : List RetryLayer} {bound limit : ℕ}
  {once : Request → Prop} {inner : Executor} {layer : RetryLayer} {req : Request}

/-- The loop of a layer at attempt `k`, with `n` further attempts to go. -/
private theorem Executor.Sound.retries (h : inner.Sound client layers bound once)
    (hlayer : layer ∈ layers) {n k : ℕ} (hk : 0 < k)
    (hattempts : k + n = layer.policy.maxAttempts.val) {last : UtilsResult Response} {t : Tally}
    (hsettled : t.Settled client) (hlast : t.last = some last)
    (hlimit : t.sends + n * bound ≤ limit) :
    (ClientCalls.retries layer inner req.tryClone req.method n k last).Meets
      (watch client layers req limit) (fun t' result => t'.Settled client ∧
        t'.last = some result ∧ t.sends ≤ t'.sends ∧ t'.sends ≤ t.sends + n * bound) t := by
  induction n generalizing k last t with
  | zero => exact (meets_pure _).mpr ⟨hsettled, hlast, le_rfl, Nat.le_add_right _ _⟩
  | succ n ih =>
    have hstop : t.Settled client ∧ t.last = some last ∧ t.sends ≤ t.sends ∧
        t.sends ≤ t.sends + (n + 1) * bound := ⟨hsettled, hlast, le_rfl, Nat.le_add_right _ _⟩
    rw [Nat.succ_mul] at hlimit
    rw [ClientCalls.retries]
    split
    · exact (meets_pure _).mpr hstop
    · next hretry =>
      have hretry' : layer.policy.shouldRetry last req.method = true := by simpa using hretry
      split
      · exact (meets_pure _).mpr hstop
      · next retryReq hclone =>
        -- only a clone of the request itself is sent
        rw [HttpScript.tryClone_bind] at hclone
        obtain rfl : retryReq = req := by
          rcases req.tryClone_cases with hnone | hsome
          · simp [hnone] at hclone
          · exact Option.some_inj.mp (hclone.symm.trans hsome)
        refine (meets_bind _ _).mpr (meets_wallClock.mpr ⟨hsettled, fun wall => ?_⟩)
        have hgrants : Grants layer retryReq last
            (some (layer.cancel, layer.policy.computeDelay k last wall)) :=
          ⟨hretry', hclone, k, wall, hk, by omega, rfl⟩
        generalize layer.policy.computeDelay k last wall = delay at hgrants ⊢
        refine (meets_bind _ _).mpr (meets_sleepOrCancel.mpr ⟨hsettled, hstop, ?_⟩)
        let slept : Tally := { t with slept := some (layer.cancel, delay) }
        have hgranted : slept.Granted layers retryReq := fun result hresult => by
          obtain rfl := Option.some_inj.mp (hlast.symm.trans hresult)
          exact ⟨layer, hlayer, hgrants⟩
        have hbound : t.sends + bound ≤ limit := by omega
        refine (meets_bind _ _).mpr ((h retryReq limit slept hsettled hgranted hbound).mono ?_)
        rintro t' result ⟨hsettled', hlast', hlt, hle, -⟩
        have hlt' : t.sends < t'.sends := hlt
        have hle' : t'.sends ≤ t.sends + bound := hle
        refine (ih (Nat.succ_pos k) (by omega) hsettled' hlast' (by omega)).mono ?_
        rintro t'' result' ⟨hsettled'', hlast'', hlt'', hle''⟩
        exact ⟨hsettled'', hlast'', by omega, by rw [Nat.succ_mul]; omega⟩

/-- A request that a layer does not retry is left as it is. -/
private theorem retries_of_noRetry (h : layer.policy.NoRetry req) (n k : ℕ)
    (last : UtilsResult Response) :
    ClientCalls.retries layer inner req.tryClone req.method n k last = pure last := by
  cases n with
  | zero => rfl
  | succ n =>
    rw [ClientCalls.retries]
    split
    · rfl
    · next hretry =>
      have hretry' : layer.policy.shouldRetry last req.method = true := by simpa using hretry
      rcases req.tryClone_cases with hnone | hsome
      · rw [hnone]
        rfl
      · exact (h.not_retry hretry' hsome).elim

/-- **A layer** sends at most as many times the requests as its attempts. -/
theorem Executor.Sound.execute (h : inner.Sound client layers bound once)
    (hlayer : layer ∈ layers) :
    Executor.Sound (ClientCalls.execute layer inner) client layers
      (layer.policy.maxAttempts.val * bound) fun req => once req ∧ layer.policy.NoRetry req := by
  intro req limit t hsettled hgranted hlimit
  obtain ⟨n, hn⟩ : ∃ n, layer.policy.maxAttempts.val = n + 1 :=
    ⟨_, (Nat.sub_add_cancel layer.policy.maxAttempts.property.1).symm⟩
  rw [hn, Nat.succ_mul] at hlimit ⊢
  refine (meets_bind _ _).mpr ((h req limit t hsettled hgranted (by omega)).mono ?_)
  rintro t' result ⟨hsettled', hlast, hlt, hle, honce⟩
  rw [hn, Nat.add_sub_cancel]
  by_cases hno : once req ∧ layer.policy.NoRetry req
  · rw [retries_of_noRetry hno.2]
    exact ⟨hsettled', hlast, hlt, by omega, fun _ => honce hno.1⟩
  · refine (h.retries hlayer Nat.one_pos (by omega) hsettled' hlast (by omega)).mono ?_
    rintro t'' result' ⟨hsettled'', hlast', hlt', hle'⟩
    exact ⟨hsettled'', hlast', by omega, by omega, fun hyes => absurd hyes hno⟩

end

/-! ### The stack -/

/-- How often a stack sends a request at most. -/
def ClientStack.attempts (stack : ClientStack) : ℕ :=
  (stack.layers.map (·.policy.maxAttempts.val)).prod

/-- The layers of a stack, from some layer on. -/
private theorem SharedClient.sound_foldr (c : SharedClient) {all layers : List RetryLayer}
    (hall : layers ⊆ all) :
    Executor.Sound (layers.foldr ClientCalls.execute c.execute) c all
      (layers.map (·.policy.maxAttempts.val)).prod
      fun req => ∀ layer ∈ layers, layer.policy.NoRetry req := by
  induction layers with
  | nil =>
    exact fun req limit t hsettled hgranted hlimit =>
      (c.sound all req limit t hsettled hgranted hlimit).mono fun _ _ h =>
        { h with once := fun _ => h.once trivial }
  | cons layer layers ih =>
    rw [List.map_cons, List.prod_cons]
    obtain ⟨hlayer, hlayers⟩ := List.cons_subset.mp hall
    exact fun req limit t hsettled hgranted hlimit =>
      ((ih hlayers).execute hlayer req limit t hsettled hgranted hlimit).mono fun _ _ h =>
        { h with
          once := fun hno => h.once
            ⟨fun l hl => hno l (List.mem_cons_of_mem _ hl), hno layer List.mem_cons_self⟩ }

/-- **A stack** sends a request at most as often as the product of its attempts. -/
theorem ClientStack.sound (stack : ClientStack) :
    Executor.Sound stack.execute stack.client stack.layers stack.attempts
      fun req => ∀ layer ∈ stack.layers, layer.policy.NoRetry req :=
  stack.client.sound_foldr (List.Subset.refl _)

end ClientCalls

end RustUtils
