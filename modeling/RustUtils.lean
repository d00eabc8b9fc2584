import RustUtils.Transition.Machine
import RustUtils.Transition.Tasks
import RustUtils.Timeline.Admission
import RustUtils.Timeline.Window
import RustUtils.Error
import RustUtils.RetrySchedule
import RustUtils.Concurrency.SupervisorCancellation
import RustUtils.Concurrency.Throttle
import RustUtils.Concurrency.WorkerPool
import RustUtils.Concurrency.Retry
import RustUtils.Concurrency.Shutdown
import RustUtils.Concurrency.ShutdownDrain
import RustUtils.Concurrency.ShutdownToken
import RustUtils.Network.Retry
import RustUtils.Network.Validation
import RustUtils.RetryCancellation
import RustUtils.Network.Nats
import RustUtils.Network.NatsServe
import RustUtils.BackoffCurve
import RustUtils.Network.NatsIsolation
import RustUtils.Runtime.Trace
import RustUtils.Transition.Rounds
import RustUtils.Concurrency.RetryReference
import RustUtils.Network.RetryReference
import RustUtils.Network.Client
import RustUtils.Network.Stack
import RustUtils.Concurrency.RestartCause
import RustUtils.Concurrency.SupervisorStreaks
import RustUtils.Json.Layout
import RustUtils.Network.StructureScan
import RustUtils.Text.Numeral
import RustUtils.Text.Utf8
import RustUtils.Network.RateLimit
import RustUtils.Concurrency.RateLimit
import RustUtils.Network.RetryAfter
import RustUtils.Concurrency.SupervisorPanics
import RustUtils.Concurrency.WorkerPoolBound
import RustUtils.Sampling.Residues
import RustUtils.BackoffJitter
import RustUtils.Concurrency.RestartCast
import RustUtils.Secret
import RustUtils.Concurrency.RateLimitLaw
import RustUtils.Concurrency.WorkerPoolProgress
import RustUtils.Network.NatsRequest
import RustUtils.Concurrency.Supervised
import RustUtils.Concurrency.SupervisedShutdown
import RustUtils.Concurrency.RestartTimeline
import RustUtils.Network.StackLatency
import RustUtils.Network.JsonGuard
import RustUtils.Concurrency.ThrottleSelection
import RustUtils.Concurrency.ShutdownCalls
import RustUtils.Network.ClientCallsLaw
