import RustUtils.Runtime.Duration

/-!
# The world an async function runs in

A function that awaits is modelled as a state transformer on a `World`: the monotonic
clock, the current wall-clock reading, and whatever the caller's own closures keep. A
closure may move the clock forward, replace the wall-clock reading and change its own
state, so a script of closures covers every timing of a run.

Cancelling a token cannot be undone, so within one run a `CancellationToken` is the instant
at which it is cancelled, if it ever is.
-/

namespace RustUtils

/-- What an async function of the crate runs in. -/
structure World (σ : Type) where
  /-- The monotonic clock. -/
  now : ℕ
  /-- What `SystemTime::now()` reads, in nanoseconds since the Unix epoch. -/
  wall : ℤ
  /-- What the caller's closures own. -/
  user : σ

/-- An async function with result `α`, as a transformer of the world. -/
abbrev Async (σ α : Type) := StateM (World σ) α

namespace Async

variable {σ α β : Type}

/-- A finished computation leaves the world as it is. -/
@[simp]
theorem pure_apply (a : α) (w : World σ) : (pure a : Async σ α) w = (a, w) := rfl

/-- A sequence runs its second part in the world that the first one leaves. -/
@[simp]
theorem bind_apply (x : Async σ α) (f : α → Async σ β) (w : World σ) :
    (x >>= f) w = f (x w).1 (x w).2 := rfl

end Async

/-- `tokio_util::sync::CancellationToken`, by the instant at which it is cancelled. -/
structure CancellationToken where
  firesAt : Option ℕ
  deriving DecidableEq

/-- `CancellationToken::is_cancelled`, read at `now`. -/
def CancellationToken.isCancelled (token : CancellationToken) (now : ℕ) : Bool :=
  token.firesAt.any fun at_ => at_ ≤ now

/-- A cancelled token stays cancelled. -/
theorem CancellationToken.isCancelled_mono {token : CancellationToken} {now now' : ℕ}
    (h : now ≤ now') (hc : token.isCancelled now = true) : token.isCancelled now' = true := by
  obtain ⟨firesAt⟩ := token
  cases firesAt with
  | none => exact hc
  | some at_ =>
    simp only [isCancelled, Option.any_some, decide_eq_true_eq] at hc ⊢
    exact Nat.le_trans hc h

end RustUtils
