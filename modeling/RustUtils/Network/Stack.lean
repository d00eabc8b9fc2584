import Mathlib.Algebra.BigOperators.Group.List.Basic
import RustUtils.Network.Client
import RustUtils.Network.RetryReference

/-!
# Stacked clients

Any number of retry layers over a rate-limited client. An observer below the stack notes the cells
the limiter gives out and the requests that go to the inner `reqwest::Client`.

`Dispatched` says what one call of an executor does there: it dispatches the same request a number
of times, each time after a cell of its own, and returns the outcome of the last dispatch.
`Dispatched.append` puts two calls together, so a retry layer keeps the property with as many times
the dispatches as it makes attempts (`Paced.layer`), and `stack_dispatches` is the induction over
the layers.
-/

namespace RustUtils

/-- Retry layers over an executor, the outermost first. -/
def retryStack {σ : Type} (policies : List RetryPolicy) (base : HttpExecutor σ) :
    HttpExecutor σ :=
  policies.foldr (fun policy inner => (RetryingClient.new inner policy).execute) base

/-! ### The observer -/

/-- A request that goes to the inner client, and what comes back. -/
structure Dispatch where
  request : Request
  result : Except ReqwestError Response
  deriving DecidableEq

/-- What an observer below the stack sees. -/
inductive PaceEvent where
  /-- The limiter has given out a cell. -/
  | acquired
  | dispatched (d : Dispatch)
  deriving DecidableEq

/-- What a rate-limited dispatch looks like: a cell, then the request. -/
def Dispatch.events (d : Dispatch) : List PaceEvent := [.acquired, .dispatched d]

/-- What the clients return for a dispatch. -/
def Dispatch.outcome (d : Dispatch) : UtilsResult Response := d.result.mapError intoNetworkOrHttp

variable {σ : Type}

/-- The client with its limiter and its inner client observed. -/
def RateLimitedClient.observed (c : RateLimitedClient σ) :
    RateLimitedClient (σ × List PaceEvent) where
  inner req := (c.inner req).traced fun _ result _ => [.dispatched ⟨req, result⟩]
  untilReady := c.untilReady.traced fun _ _ _ => [.acquired]

/-! ### What a call dispatches -/

/-- The observed call `o` is the call `r`, and dispatches `req` as listed, at most `bound` times. -/
structure Dispatched (req : Request) (bound : ℕ) (r : UtilsResult Response × World σ)
    (o : UtilsResult Response × World (σ × List PaceEvent)) (log : List PaceEvent)
    (ds : List Dispatch) : Prop where
  observed : o = (r.1, r.2.logging (log ++ ds.flatMap Dispatch.events))
  last : ds.getLast?.map Dispatch.outcome = some r.1
  length_le : ds.length ≤ bound
  requests : ∀ d ∈ ds, d.request = req

/-- Every call of the executor dispatches its request at most `bound` times, and exactly once if
it is one of those that are sent `once`. -/
def Paced (bound : ℕ) (once : Request → Prop) (exec : HttpExecutor σ)
    (observed : HttpExecutor (σ × List PaceEvent)) : Prop :=
  ∀ req w log, ∃ ds, Dispatched req bound (exec req w) (observed req (w.logging log)) log ds ∧
    (once req → ds.length = 1)

/-- A call followed by another one, with no dispatch between them. -/
private theorem Dispatched.append {req : Request} {m n : ℕ} {r r' : UtilsResult Response × World σ}
    {o o' : UtilsResult Response × World (σ × List PaceEvent)} {log : List PaceEvent}
    {ds ds' : List Dispatch} (h : Dispatched req m r o log ds)
    (h' : Dispatched req n r' o' (log ++ ds.flatMap Dispatch.events) ds') :
    Dispatched req (m + n) r' o' log (ds ++ ds') where
  observed := by rw [h'.observed, List.flatMap_append, List.append_assoc]
  last := by
    have hne : ds' ≠ [] := fun hnil => by simpa [hnil] using h'.last
    rw [List.getLast?_append_of_ne_nil _ hne, h'.last]
  length_le := by
    rw [List.length_append]
    exact Nat.add_le_add h.length_le h'.length_le
  requests := fun d hd => (List.mem_append.mp hd).elim (h.requests d) (h'.requests d)

private theorem Dispatched.mono {req : Request} {m n : ℕ} {r : UtilsResult Response × World σ}
    {o : UtilsResult Response × World (σ × List PaceEvent)} {log : List PaceEvent}
    {ds : List Dispatch} (h : Dispatched req m r o log ds) (hmn : m ≤ n) :
    Dispatched req n r o log ds :=
  { h with length_le := h.length_le.trans hmn }

/-- A rate-limited client dispatches every request once. -/
private theorem RateLimitedClient.paced (c : RateLimitedClient σ) :
    Paced 1 (fun _ => True) c.execute c.observed.execute := by
  intro req w log
  refine ⟨[⟨req, (c.inner req (c.untilReady w).2).1⟩], ⟨?_, rfl, le_rfl, ?_⟩, fun _ => rfl⟩
  · simp only [execute, waitForSlot, observed, Async.bind_apply, Async.pure_apply,
      Async.traced_logging, List.append_assoc]
    rfl
  · simp

/-! ### One layer -/

/-- The requests a retry layer never retries. -/
def RetryPolicy.NoRetry (policy : RetryPolicy) (req : Request) : Prop :=
  (isIdempotent req.method = false ∧ policy.retryNonIdempotent = false) ∨ req.tryClone = none

section

variable {bound : ℕ} {once : Request → Prop} {inner : HttpExecutor σ}
  {inner' : HttpExecutor (σ × List PaceEvent)}

theorem RetryPolicy.NoRetry.not_retry {policy : RetryPolicy} {req : Request}
    (h : policy.NoRetry req) {result : UtilsResult Response}
    (hretry : policy.shouldRetry result req.method = true) (hclone : req.tryClone = some req) :
    False := by
  rcases h with ⟨hmethod, hoptIn⟩ | hnone
  · rcases (RetryingClient.shouldRetry_iff.mp hretry).1 with h | h
    · simp [hmethod] at h
    · simp [hoptIn] at h
  · simp [hnone] at hclone

/-- The loop of a layer over a paced executor, with `n` further attempts to go. -/
private theorem Paced.calls (h : Paced bound once inner inner') (policy : RetryPolicy)
    (req : Request)
    (n k : ℕ) (w : World σ) (log : List PaceEvent) :
    ∃ ds, Dispatched req ((n + 1) * bound) ((RetryingClient.new inner policy).calls req n k w)
        ((RetryingClient.new inner' policy).calls req n k (w.logging log)) log ds ∧
      (once req ∧ policy.NoRetry req → ds.length = 1) := by
  induction n generalizing k w log with
  | zero =>
    obtain ⟨ds, hds, honce⟩ := h req w log
    exact ⟨ds, hds.mono (Nat.le_mul_of_pos_left _ Nat.one_pos), fun hreq => honce hreq.1⟩
  | succ n ih =>
    obtain ⟨ds, hds, honce⟩ := h req w log
    have hbound : bound ≤ (n + 1 + 1) * bound := Nat.le_mul_of_pos_left _ (Nat.succ_pos _)
    have hresult : (inner' req (w.logging log)).1 = (inner req w).1 :=
      congrArg Prod.fst hds.observed
    rcases (RetryingClient.new inner policy).settled_or_retry req w with
      hsettled | ⟨hretry, hclone⟩
    · -- a result that is not retried is that of the executor below
      have hsettled' : policy.shouldRetry (inner' req (w.logging log)).1 req.method = false ∨
          req.tryClone = none := hresult ▸ hsettled
      rw [RetryingClient.calls_of_settled hsettled,
        RetryingClient.calls_of_settled (c := .new inner' policy) hsettled']
      exact ⟨ds, hds.mono hbound, fun hreq => honce hreq.1⟩
    · have hretry' : policy.shouldRetry (inner' req (w.logging log)).1 req.method = true :=
        hresult ▸ hretry
      have hnoRetry : ¬(once req ∧ policy.NoRetry req) := fun hreq =>
        hreq.2.not_retry hretry hclone
      -- both layers sleep alike
      let outer := RetryingClient.new inner policy
      let outer' := RetryingClient.new inner' policy
      have hsleep : outer'.sleepAfter k (outer'.inner req (w.logging log)) =
          ((outer.sleepAfter k (outer.inner req w)).1,
            (outer.sleepAfter k (outer.inner req w)).2.logging
              (log ++ ds.flatMap Dispatch.events)) :=
        congrArg (outer'.sleepAfter k) hds.observed
      rw [RetryingClient.calls_of_retry (c := outer) hretry hclone,
        RetryingClient.calls_of_retry (c := outer') hretry' hclone, hsleep]
      dsimp only
      cases hslept : (outer.sleepAfter k (outer.inner req w)).1 with
      | false =>
        rw [if_neg Bool.false_ne_true, if_neg Bool.false_ne_true]
        refine ⟨ds, ⟨?_, hds.last, hds.length_le.trans hbound, hds.requests⟩,
          fun hreq => (hnoRetry hreq).elim⟩
        exact Prod.ext hresult rfl
      | true =>
        rw [if_pos rfl, if_pos rfl]
        obtain ⟨ds', hds', -⟩ := ih (k + 1) (outer.sleepAfter k (outer.inner req w)).2
          (log ++ ds.flatMap Dispatch.events)
        refine ⟨ds ++ ds', (hds.append hds').mono ?_, fun hreq => (hnoRetry hreq).elim⟩
        rw [Nat.succ_mul (n + 1), Nat.add_comm]

/-- **A layer** makes at most as many times the dispatches as its attempts. -/
theorem Paced.layer (h : Paced bound once inner inner') (policy : RetryPolicy) :
    Paced (policy.maxAttempts.val * bound) (fun req => once req ∧ policy.NoRetry req)
      (RetryingClient.new inner policy).execute (RetryingClient.new inner' policy).execute := by
  intro req w log
  have hcalls := h.calls policy req (policy.maxAttempts.val - 1) 1 w log
  rwa [Nat.sub_add_cancel policy.maxAttempts.property.1] at hcalls

end

/-! ### The stack -/

/-- A stack makes at most as many dispatches as the product of its attempts. -/
private theorem RateLimitedClient.paced_stack (c : RateLimitedClient σ)
    (policies : List RetryPolicy) :
    Paced (policies.map (·.maxAttempts.val)).prod (fun req => ∀ p ∈ policies, p.NoRetry req)
      (retryStack policies c.execute) (retryStack policies c.observed.execute) := by
  induction policies with
  | nil =>
    intro req w log
    obtain ⟨ds, hds, honce⟩ := c.paced req w log
    exact ⟨ds, hds, fun _ => honce trivial⟩
  | cons policy policies ih =>
    intro req w log
    obtain ⟨ds, hds, honce⟩ := ih.layer policy req w log
    rw [List.map_cons, List.prod_cons]
    refine ⟨ds, hds, fun hreq => honce ⟨fun p hp => hreq p (.tail _ hp), hreq policy (.head _)⟩⟩

/-- **Stacked HTTP layers.** Observing the limiter and the inner client of a stack of retry layers
over a rate-limited client does not change a call. The call dispatches its request at least once
and at most as often as the product of the layers' attempts, each time with a limiter cell of its
own taken just before, and returns the outcome of the last dispatch. The dispatch is a single one
if the method is non-idempotent and no layer opts in, or if the body cannot be cloned. -/
theorem stack_dispatches (policies : List RetryPolicy) (c : RateLimitedClient σ) (req : Request)
    (w : World σ) :
    (Client.rateLimited c).execute = c.execute ∧
      (Client.rateLimited c.observed).execute = c.observed.execute ∧
      let run := retryStack policies c.execute req w
      let observed := retryStack policies c.observed.execute req (w.logging [])
      observed.1 = run.1 ∧ observed.2.own = run.2 ∧
        ∃ ds : List Dispatch,
          observed.2.log = ds.flatMap (fun d => [.acquired, .dispatched d]) ∧
          1 ≤ ds.length ∧ ds.length ≤ (policies.map (·.maxAttempts.val)).prod ∧
          (∀ d ∈ ds, d.request = req) ∧
          ds.getLast?.map (fun d => d.result.mapError intoNetworkOrHttp) = some run.1 ∧
          ((isIdempotent req.method = false ∧ ∀ p ∈ policies, p.retryNonIdempotent = false) ∨
            req.tryClone = none → ds.length = 1) := by
  refine ⟨rfl, rfl, ?_⟩
  obtain ⟨ds, hds, honce⟩ := c.paced_stack policies req w []
  dsimp only
  rw [hds.observed, List.nil_append]
  refine ⟨rfl, rfl, ds, rfl, ?_, hds.length_le, hds.requests, hds.last, fun hreq => ?_⟩
  · refine List.length_pos_iff.mpr fun hnil => ?_
    simpa [hnil] using hds.last
  · refine honce fun p hp => hreq.imp_left fun h => ⟨h.1, h.2 p hp⟩

end RustUtils
