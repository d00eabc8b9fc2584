import RustUtils.Backoff

/-!
# Observed closures

`World.logging` puts a log beside what the caller's closures own, and `Async.traced` makes a
closure note its calls there. On the rest of the world a traced closure does what the closure
itself does, and a sleep leaves the log alone, so an async function runs with traced closures as
it does without, and the log is what an observer of the closures sees.
-/

namespace RustUtils

namespace World

variable {σ ε : Type}

/-- The world with a log beside what the closures own. -/
def logging (w : World σ) (log : List ε) : World (σ × List ε) where
  now := w.now
  wall := w.wall
  user := (w.user, log)

/-- The world without its log. -/
def own (w : World (σ × List ε)) : World σ where
  now := w.now
  wall := w.wall
  user := w.user.1

/-- The log. -/
def log (w : World (σ × List ε)) : List ε := w.user.2

/-- Noting leaves the wall clock alone. -/
@[simp]
theorem wall_logging (w : World σ) (log : List ε) : (w.logging log).wall = w.wall := rfl

/-- Without the notes the world is the one that was observed. -/
@[simp]
theorem own_logging (w : World σ) (log : List ε) : (w.logging log).own = w := rfl

/-- The notes are those that were given. -/
@[simp]
theorem log_logging (w : World σ) (log : List ε) : (w.logging log).log = log := rfl

end World

variable {σ α ε : Type}

/-- A closure that notes its calls: from the world a call starts in, its result and the world it
leaves. -/
def Async.traced (x : Async σ α) (notes : World σ → α → World σ → List ε) :
    Async (σ × List ε) α := fun w =>
  let r := x w.own
  (r.1, r.2.logging (w.log ++ notes w.own r.1 r.2))

/-- A traced computation behaves as before and notes what it has seen. -/
@[simp]
theorem Async.traced_logging (x : Async σ α) (notes : World σ → α → World σ → List ε)
    (w : World σ) (log : List ε) :
    x.traced notes (w.logging log) =
      ((x w).1, (x w).2.logging (log ++ notes w (x w).1 (x w).2)) := rfl

/-- The backoff's sleep does not look at the notes. -/
@[simp]
theorem sleepOrCancel_logging (token : Option CancellationToken) (delay : Duration)
    (w : World σ) (log : List ε) :
    sleepOrCancel token delay (w.logging log) =
      ((sleepOrCancel token delay w).1, (sleepOrCancel token delay w).2.logging log) := rfl

end RustUtils
