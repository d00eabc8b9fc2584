import RustUtils.Network.Retry

/-!
# The HTTP clients

`reqwest::Client` and the rate limiter are code of other crates, so both are closures: what
`reqwest::Client::execute` does with a request, and what `until_ready` does before it returns. The
clients of the crate are the compositions of the two.
-/

namespace RustUtils

/-- `reqwest::Error`, as far as the crate classifies it. -/
structure ReqwestError where
  isConnect : Bool
  isTimeout : Bool
  display : String
  deriving DecidableEq

/-- `into_network_or_http`. -/
def intoNetworkOrHttp (e : ReqwestError) : UtilsReport :=
  let kind := if e.isConnect || e.isTimeout then .network else .http
  .fromForeign e.display kind

/-- `reqwest::Client`: its `execute`. -/
abbrev ReqwestClient (σ : Type) := Request → Async σ (Except ReqwestError Response)

/-- `RateLimitedClient`. -/
structure RateLimitedClient (σ : Type) where
  inner : ReqwestClient σ
  /-- `until_ready` of the limiter, which waits for a cell and takes it. -/
  untilReady : Async σ Unit

/-- `RateLimitedClient::wait_for_slot`. -/
def RateLimitedClient.waitForSlot {σ : Type} (c : RateLimitedClient σ) : Async σ Unit :=
  c.untilReady

/-- `RateLimitedClient::execute`. -/
def RateLimitedClient.execute {σ : Type} (c : RateLimitedClient σ) : HttpExecutor σ := fun req => do
  c.waitForSlot
  let result ← c.inner req
  pure (result.mapError intoNetworkOrHttp)

/-- `Client`. -/
inductive Client (σ : Type) where
  | rateLimited (c : RateLimitedClient σ)
  | unrestricted (c : ReqwestClient σ)

/-- `Client::execute`. -/
def Client.execute {σ : Type} : Client σ → HttpExecutor σ
  | rateLimited c => c.execute
  | unrestricted c => fun req => do
    let result ← c req
    pure (result.mapError intoNetworkOrHttp)

/-- `RetryingClient::new`. -/
def RetryingClient.new {σ : Type} (inner : HttpExecutor σ) (policy : RetryPolicy) :
    RetryingClient σ where
  inner := inner
  policy := policy
  cancel := none

end RustUtils
