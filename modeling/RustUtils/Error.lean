import Mathlib.Tactic.Common

/-!
# The error taxonomy and `error-stack` reports

`UtilsError` is the crate's coarse classification. A `UtilsReport` is the chain of frames
`error-stack` keeps: it starts at a context, and `attach` and `changeContext` push one frame
each. The current context is the innermost one pushed last, and no operation removes a
frame. A foreign error is one frame here, whatever its sources.
-/

namespace RustUtils

/-- The crate's error classification. -/
inductive UtilsError where
  | network
  | http
  | config
  | retryExhausted
  | concurrency
  | internal
  deriving DecidableEq, Repr

/-- One frame of a report: a context of the crate, a context of a foreign error type, or
an attached message. -/
inductive Frame where
  | context (e : UtilsError)
  | foreign (display : String)
  | attachment (msg : String)
  deriving DecidableEq, Repr

/-- `error_stack::Report<UtilsError>`. -/
inductive UtilsReport where
  /-- `Report::new`. -/
  | new (e : UtilsError)
  /-- `change_context` on a foreign error. One frame stands for the error and its sources, each of
  which `error-stack` gives a frame. -/
  | fromForeign (display : String) (e : UtilsError)
  /-- `Report::attach`. -/
  | attach (r : UtilsReport) (msg : String)
  /-- `Report::change_context`. -/
  | changeContext (r : UtilsReport) (e : UtilsError)
  deriving DecidableEq, Repr

namespace UtilsReport

/-- `Report::current_context`. -/
def currentContext : UtilsReport → UtilsError
  | new e => e
  | fromForeign _ e => e
  | attach r _ => r.currentContext
  | changeContext _ e => e

/-- The frames of a report, the newest first. -/
def frames : UtilsReport → List Frame
  | new e => [.context e]
  | fromForeign d e => [.context e, .foreign d]
  | attach r msg => .attachment msg :: r.frames
  | changeContext r e => .context e :: r.frames

/-- A report starts at its context. -/
@[simp]
theorem currentContext_new (e : UtilsError) : (new e).currentContext = e := rfl

/-- A message leaves the context alone. -/
@[simp]
theorem currentContext_attach (r : UtilsReport) (msg : String) :
    (r.attach msg).currentContext = r.currentContext := rfl

/-- A new context is the current one. -/
@[simp]
theorem currentContext_changeContext (r : UtilsReport) (e : UtilsError) :
    (r.changeContext e).currentContext = e := rfl

end UtilsReport

/-- `UtilsResult<T>`. -/
abbrev UtilsResult (α : Type) := Except UtilsReport α

end RustUtils
