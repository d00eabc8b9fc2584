import RustUtils.Error

/-!
# Joining a spawned task

What awaiting a `JoinHandle` of a task that returns `UtilsResult<()>` gives: the task's own
result, or a `JoinError` when the task panicked or was aborted.
-/

namespace RustUtils

/-- `tokio::task::JoinError`, with its `Display` text. -/
structure JoinError where
  isPanic : Bool
  display : String
  deriving DecidableEq, Repr

/-- The result of joining a task that returns `UtilsResult<()>`. -/
abbrev Outcome := Except JoinError (UtilsResult Unit)

end RustUtils
