import Mathlib.Algebra.GroupWithZero.Nat
import RustUtils.BackoffCurve
import RustUtils.Network.Retry
import RustUtils.Runtime.Trace
import RustUtils.Transition.Rounds

/-!
# The reference semantics of `RetryingClient::execute`

The inner executor is arbitrary and keeps a state, so it plays every script of results, and an
observer notes the requests it is sent. A round of the loop is a call and the sleep after it, and
`RetryingClient.LastAttempt` lists the reasons for which a call is the last one.
`RetryingClient.execute_eq_reference` says that the loop stops at the least such call, returns what
this call returned, sends the same request every time and never sleeps for longer than the cap.
-/

namespace RustUtils

open Transition

theorem Request.tryClone_cases (req : Request) :
    req.tryClone = none ∨ req.tryClone = some req := by
  rw [Request.tryClone]
  split
  · exact Or.inl rfl
  · exact Or.inr rfl

/-- Whatever the server sends, the delay is at most the cap. -/
private theorem RetryPolicy.computeDelay_le (policy : RetryPolicy) (attempt : ℕ)
    (result : UtilsResult Response) (wall : ℤ) :
    policy.computeDelay attempt result wall ≤ policy.maxBackoff := by
  cases result with
  | error report => exact RustUtils.computeDelay_le _ _ _ _ _
  | ok resp =>
    rw [computeDelay]
    cases parseRetryAfter resp with
    | some serverDelay => exact min_le_right _ _
    | none => exact RustUtils.computeDelay_le _ _ _ _ _

namespace RetryingClient

variable {σ : Type} (c : RetryingClient σ) (req : Request)

/-! ### Rounds -/

/-- The sleep after call `k`, from its result on. -/
def sleepAfter (k : ℕ) (r : UtilsResult Response × World σ) : Bool × World σ :=
  c.sleepInterruptible (c.policy.computeDelay k r.1 r.2.wall) r.2

/-- A call and the sleep after it. -/
def rounds : Rounds (World σ) where
  stops k w := !c.policy.shouldRetry (c.inner req w).1 req.method || req.tryClone.isNone ||
    !(c.sleepAfter k (c.inner req w)).1
  next k w := (c.sleepAfter k (c.inner req w)).2

/-- The world in which call `i` starts, if no earlier call ends a run from `w`. -/
def startOf (w : World σ) (i : ℕ) : World σ := (c.rounds req).start 1 w (i - 1)

/-- Why call `i` is the last one, if it starts in `w`. -/
inductive LastAttempt (i : ℕ) (w : World σ) : Prop where
  /-- The budget is used up. -/
  | exhausted (budget : i = c.policy.maxAttempts.val)
  /-- The method is not idempotent, and its retry is not opted in. -/
  | nonIdempotent (method : isIdempotent req.method = false)
      (optIn : c.policy.retryNonIdempotent = false)
  /-- A response with a status that is not retried. -/
  | status (resp : Response) (result : (c.inner req w).1 = .ok resp)
      (notRetried : resp.status ∉ c.policy.retryStatuses)
  /-- An error that is not retried. -/
  | error (report : UtilsReport) (result : (c.inner req w).1 = .error report)
      (notRetried : report.currentContext ≠ .network ∨ c.policy.retryNetworkErrors = false)
  /-- The body cannot be cloned. -/
  | body (clone : req.tryClone = none)
  /-- The sleep after the call is interrupted. -/
  | interrupted (cut : (c.sleepAfter i (c.inner req w)).1 = false)

/-! ### The observer -/

/-- A call of the inner executor. -/
structure Sent where
  request : Request
  startedAt : ℕ
  finishedAt : ℕ
  deriving DecidableEq

/-- The client over an observed executor. -/
def observed : RetryingClient (σ × List Sent) where
  inner req := (c.inner req).traced fun w _ w' => [⟨req, w.now, w'.now⟩]
  policy := c.policy
  cancel := c.cancel

/-- What an observer sees of a call. -/
def observations (w : World σ) : List Sent := [⟨req, w.now, (c.inner req w).2.now⟩]

/-! ### The loop -/

/-- The loop from call `k` on, with `n` further ones to go. -/
def calls (n k : ℕ) : Async σ (UtilsResult Response) := do
  let last ← c.inner req
  c.retries req.tryClone req.method n k last

section

variable {c req}

/-- A round goes on after a retryable result and a sleep that is not cut short. -/
private theorem not_stops_iff {k : ℕ} {w : World σ} : (c.rounds req).stops k w = false ↔
    c.policy.shouldRetry (c.inner req w).1 req.method = true ∧ req.tryClone = some req ∧
      (c.sleepAfter k (c.inner req w)).1 = true := by
  simp only [rounds, Bool.or_eq_false_iff, Bool.not_eq_false', and_assoc]
  rcases req.tryClone_cases with hclone | hclone <;> simp [hclone]

/-- A round with a result that is not to be retried, or cannot be, stops the loop. -/
private theorem stops_of_settled {k : ℕ} {w : World σ}
    (h : c.policy.shouldRetry (c.inner req w).1 req.method = false ∨ req.tryClone = none) :
    (c.rounds req).stops k w = true := by
  refine Bool.eq_true_of_not_eq_false fun hgoes => ?_
  obtain ⟨hretry, hclone, -⟩ := not_stops_iff.mp hgoes
  simp [hretry, hclone] at h

/-- A sleep that is cut short stops the loop. -/
private theorem stops_of_cut {k : ℕ} {w : World σ}
    (h : (c.sleepAfter k (c.inner req w)).1 = false) :
    (c.rounds req).stops k w = true := by
  refine Bool.eq_true_of_not_eq_false fun hgoes => ?_
  rw [(not_stops_iff.mp hgoes).2.2] at h
  contradiction

/-- After a retryable result the loop sleeps, and goes on unless the sleep is cut short. -/
theorem calls_of_retry {n k : ℕ} {w : World σ}
    (hretry : c.policy.shouldRetry (c.inner req w).1 req.method = true)
    (hclone : req.tryClone = some req) :
    c.calls req (n + 1) k w =
      if (c.sleepAfter k (c.inner req w)).1 then
        c.calls req n (k + 1) (c.sleepAfter k (c.inner req w)).2
      else ((c.inner req w).1, (c.sleepAfter k (c.inner req w)).2) := by
  rw [calls, Async.bind_apply, retries_succ c hretry ((HttpScript.tryClone_bind req).trans hclone)]
  rfl

/-- After a result that is not to be retried, or cannot be, the loop ends. -/
theorem calls_of_settled {k : ℕ} {w : World σ}
    (h : c.policy.shouldRetry (c.inner req w).1 req.method = false ∨ req.tryClone = none) (n : ℕ) :
    c.calls req n k w = c.inner req w := by
  rw [calls, Async.bind_apply, retries_of_stop c ((HttpScript.tryClone_bind req).symm ▸ h),
    Prod.mk.eta]

theorem settled_or_retry (c : RetryingClient σ) (req : Request) (w : World σ) :
    (c.policy.shouldRetry (c.inner req w).1 req.method = false ∨ req.tryClone = none) ∨
      c.policy.shouldRetry (c.inner req w).1 req.method = true ∧ req.tryClone = some req := by
  rcases req.tryClone_cases with hclone | hclone
  · exact Or.inl (Or.inr hclone)
  · cases hretry : c.policy.shouldRetry (c.inner req w).1 req.method with
    | false => exact Or.inl (Or.inl rfl)
    | true => exact Or.inr ⟨rfl, hclone⟩

/-- A round that goes on is followed by the next one. -/
private theorem calls_of_not_stops {n k : ℕ} {w : World σ} (h : (c.rounds req).stops k w = false) :
    c.calls req (n + 1) k w = c.calls req n (k + 1) ((c.rounds req).next k w) := by
  obtain ⟨hretry, hclone, hslept⟩ := not_stops_iff.mp h
  rw [calls_of_retry hretry hclone, if_pos hslept]
  rfl

/-- A round that stops the loop, or uses up the budget, ends it with the result of its call, and
with at most an interrupted sleep after it. -/
private theorem calls_of_stops {n k : ℕ} {w : World σ}
    (h : n = 0 ∨ (c.rounds req).stops k w = true) :
    (c.calls req n k w).1 = (c.inner req w).1 ∧
      ((c.calls req n k w).2 = (c.inner req w).2 ∨
        n ≠ 0 ∧ (c.calls req n k w).2 = (c.sleepAfter k (c.inner req w)).2) := by
  rcases c.settled_or_retry req w with hsettled | ⟨hretry, hclone⟩
  · rw [calls_of_settled hsettled]
    exact ⟨rfl, Or.inl rfl⟩
  · cases n with
    | zero => exact ⟨rfl, Or.inl rfl⟩
    | succ n =>
      have hcut : (c.sleepAfter k (c.inner req w)).1 ≠ true := fun hslept => by
        have hstops := h.resolve_left (Nat.succ_ne_zero n)
        rw [not_stops_iff.mpr ⟨hretry, hclone, hslept⟩] at hstops
        contradiction
      rw [calls_of_retry hretry hclone, if_neg hcut]
      exact ⟨rfl, Or.inr ⟨Nat.succ_ne_zero n, rfl⟩⟩

/-- An observed call. -/
private theorem inner_observed (w : World σ) (log : List Sent) :
    c.observed.inner req (w.logging log) =
      ((c.inner req w).1, (c.inner req w).2.logging (log ++ c.observations req w)) := rfl

/-- The sleep after an observed call. -/
private theorem sleepAfter_observed (k : ℕ) (w : World σ) (log : List Sent) :
    c.observed.sleepAfter k (c.observed.inner req (w.logging log)) =
      ((c.sleepAfter k (c.inner req w)).1,
        (c.sleepAfter k (c.inner req w)).2.logging (log ++ c.observations req w)) := rfl

/-- **An observed loop** runs as it does unobserved, and the observer sees its rounds. -/
theorem calls_observed (c : RetryingClient σ) (req : Request) (n k : ℕ) (w : World σ)
    (log : List Sent) :
    c.observed.calls req n k (w.logging log) =
      ((c.calls req n k w).1, (c.calls req n k w).2.logging
        (log ++ (c.rounds req).trace (fun _ => c.observations req) n k w)) := by
  induction n generalizing k w log with
  | zero => rfl
  | succ n ih =>
    rcases c.settled_or_retry req w with hsettled | ⟨hretry, hclone⟩
    · rw [calls_of_settled hsettled, calls_of_settled, inner_observed,
        Rounds.trace_of_stops (stops_of_settled hsettled)]
      exact hsettled
    · have hround := calls_of_retry (c := c.observed) (n := n) (k := k) (w := w.logging log) hretry
        hclone
      rw [hround, calls_of_retry hretry hclone, sleepAfter_observed, inner_observed, Rounds.trace]
      dsimp only
      cases hslept : (c.sleepAfter k (c.inner req w)).1 with
      | false =>
        rw [if_neg Bool.false_ne_true, if_neg Bool.false_ne_true, if_pos (stops_of_cut hslept),
          List.append_nil]
      | true =>
        have hgoes := not_stops_iff.mpr ⟨hretry, hclone, hslept⟩
        rw [if_pos rfl, if_pos rfl, ih, if_neg (by simp [hgoes]), List.append_assoc]
        rfl

/-! ### The sleeps -/

/-- A sleep takes at most the cap. -/
theorem sleepAfter_spec (k : ℕ) (r : UtilsResult Response × World σ) :
    r.2.now ≤ (c.sleepAfter k r).2.now ∧
      (c.sleepAfter k r).2.now ≤ r.2.now + c.policy.maxBackoff.toNanos := by
  obtain ⟨hle, hdelay, -⟩ := sleepOrCancel_spec c.cancel (c.policy.computeDelay k r.1 r.2.wall) r.2
  have hcap := Duration.le_iff.mp (c.policy.computeDelay_le k r.1 r.2.wall)
  exact ⟨hle, hdelay.trans (Nat.add_le_add_left hcap _)⟩

/-- What follows the last call. -/
private theorem now_calls_of_stops (c : RetryingClient σ) (req : Request) {n k : ℕ} {w : World σ}
    (h : n = 0 ∨ (c.rounds req).stops k w = true) :
    (c.inner req w).2.now ≤ (c.calls req n k w).2.now ∧
      (c.calls req n k w).2.now ≤ (c.inner req w).2.now + c.policy.maxBackoff.toNanos ∧
        (n = 0 → (c.calls req n k w).2.now = (c.inner req w).2.now) := by
  obtain ⟨-, hend | ⟨hn, hend⟩⟩ := calls_of_stops h
  · rw [hend]
    exact ⟨le_rfl, Nat.le_add_right _ _, fun _ => rfl⟩
  · obtain ⟨hle, hcap⟩ := sleepAfter_spec (c := c) k (c.inner req w)
    rw [hend]
    exact ⟨hle, hcap, fun hzero => absurd hzero hn⟩

private theorem map_startedAt_trace (n k : ℕ) (w : World σ) :
    ((c.rounds req).trace (fun _ => c.observations req) n k w).map (·.startedAt) =
      w.now :: (((c.rounds req).trace (fun _ => c.observations req) n k w).map
        (·.startedAt)).tail := by
  obtain ⟨rest, hrest⟩ :=
    (c.rounds req).leaves_isPrefix_trace (fun _ => c.observations req) n k w
  rw [← hrest]
  rfl

/-- Every sleep of a loop takes at most the cap. -/
private theorem sleeps_le (n k : ℕ) (w : World σ) :
    let log := (c.rounds req).trace (fun _ => c.observations req) n k w
    List.Forall₂ (fun sent next => sent.finishedAt ≤ next ∧
        next ≤ sent.finishedAt + c.policy.maxBackoff.toNanos)
      log ((log.map (·.startedAt)).tail ++ [(c.calls req n k w).2.now]) := by
  induction n generalizing k w with
  | zero =>
    obtain ⟨hle, hcap, -⟩ := c.now_calls_of_stops req (k := k) (w := w) (Or.inl rfl)
    exact .cons ⟨hle, hcap⟩ .nil
  | succ n ih =>
    cases hstops : (c.rounds req).stops k w with
    | true =>
      obtain ⟨hle, hcap, -⟩ := c.now_calls_of_stops req (n := n + 1) (Or.inr hstops)
      rw [Rounds.trace_of_stops hstops]
      exact .cons ⟨hle, hcap⟩ .nil
    | false =>
      have hlater := ih (k + 1) ((c.rounds req).next k w)
      rw [Rounds.trace, if_neg (by simp [hstops]), calls_of_not_stops hstops, observations,
        List.singleton_append]
      dsimp only
      rw [List.map_cons, List.tail_cons, map_startedAt_trace]
      exact .cons (sleepAfter_spec k (c.inner req w)) hlater

/-- All sleeps of a loop together: the time it takes, less the time its calls take. -/
private theorem slept_le (n k : ℕ) (w : World σ) :
    let log := (c.rounds req).trace (fun _ => c.observations req) n k w
    (c.calls req n k w).2.now + (log.map (·.startedAt)).sum ≤
      w.now + (log.map (·.finishedAt)).sum + n * c.policy.maxBackoff.toNanos := by
  induction n generalizing k w with
  | zero =>
    obtain ⟨-, -, hend⟩ := c.now_calls_of_stops req (k := k) (w := w) (Or.inl rfl)
    simp only [Rounds.trace, observations, List.map_cons, List.map_nil, List.sum_singleton,
      hend rfl]
    omega
  | succ n ih =>
    rw [Nat.succ_mul]
    cases hstops : (c.rounds req).stops k w with
    | true =>
      obtain ⟨-, hcap, -⟩ := c.now_calls_of_stops req (n := n + 1) (Or.inr hstops)
      simp only [Rounds.trace_of_stops hstops, observations, List.map_cons, List.map_nil,
        List.sum_singleton]
      omega
    | false =>
      have hlater := ih (k + 1) ((c.rounds req).next k w)
      have hnext : ((c.rounds req).next k w).now ≤
          (c.inner req w).2.now + c.policy.maxBackoff.toNanos :=
        (sleepAfter_spec k (c.inner req w)).2
      simp only [Rounds.trace, hstops, Bool.false_eq_true, if_false, observations,
        List.singleton_append, List.map_cons, List.sum_cons, calls_of_not_stops hstops]
      omega

/-! ### The last call -/

/-- What is retried. -/
theorem shouldRetry_iff {policy : RetryPolicy} {result : UtilsResult Response} {method : Method} :
    policy.shouldRetry result method = true ↔
      (isIdempotent method = true ∨ policy.retryNonIdempotent = true) ∧
        ((∃ resp, result = .ok resp ∧ resp.status ∈ policy.retryStatuses) ∨
          ∃ report, result = .error report ∧ report.currentContext = .network ∧
            policy.retryNetworkErrors = true) := by
  cases hmethod : !policy.retryNonIdempotent && !isIdempotent method with
  | true =>
    simp only [Bool.and_eq_true, Bool.not_eq_true'] at hmethod
    simp [RetryPolicy.shouldRetry, hmethod]
  | false =>
    have hmethod' : isIdempotent method = true ∨ policy.retryNonIdempotent = true := by
      cases hidempotent : isIdempotent method <;> simp_all
    cases result <;> simp [RetryPolicy.shouldRetry, hmethod, hmethod', and_comm]

/-- A reason to be the last call stops the round, or is the budget. -/
private theorem LastAttempt.stops {i : ℕ} {w : World σ} (h : c.LastAttempt req i w) :
    (c.rounds req).stops i w = true ∨ i = c.policy.maxAttempts.val := by
  refine or_iff_not_imp_left.mpr fun hgoes => ?_
  obtain ⟨hretry, hclone, hslept⟩ := not_stops_iff.mp (Bool.eq_false_iff.mpr hgoes)
  obtain ⟨hmethod, hresult⟩ := shouldRetry_iff.mp hretry
  cases h with
  | exhausted budget => exact budget
  | nonIdempotent method optIn => simp [method, optIn] at hmethod
  | status resp result notRetried => simp_all
  | error report result notRetried => simp_all
  | body clone => simp [clone] at hclone
  | interrupted cut => simp [cut] at hslept

private theorem lastAttempt_of_not_retry {i : ℕ} {w : World σ}
    (h : c.policy.shouldRetry (c.inner req w).1 req.method ≠ true) : c.LastAttempt req i w := by
  rw [Ne, shouldRetry_iff, not_and_or] at h
  rcases h with hmethod | hresult
  · obtain ⟨hidempotent, hoptIn⟩ := not_or.mp hmethod
    exact .nonIdempotent (Bool.eq_false_iff.mpr hidempotent) (Bool.eq_false_iff.mpr hoptIn)
  · obtain ⟨hok, herror⟩ := not_or.mp hresult
    cases hcall : (c.inner req w).1 with
    | ok resp => exact .status resp hcall fun hstatus => hok ⟨resp, hcall, hstatus⟩
    | error report =>
      refine .error report hcall (or_iff_not_imp_left.mpr fun hnetwork => ?_)
      exact Bool.eq_false_iff.mpr fun hon => herror ⟨report, hcall, not_not.mp hnetwork, hon⟩

/-- A round that stops has a reason. -/
private theorem lastAttempt_of_stops {i : ℕ} {w : World σ} (h : (c.rounds req).stops i w = true) :
    c.LastAttempt req i w := by
  by_cases hretry : c.policy.shouldRetry (c.inner req w).1 req.method = true
  · rcases req.tryClone_cases with hclone | hclone
    · exact .body hclone
    · refine .interrupted (Bool.eq_false_iff.mpr fun hslept => ?_)
      rw [not_stops_iff.mpr ⟨hretry, hclone, hslept⟩] at h
      contradiction
  · exact lastAttempt_of_not_retry hretry

private theorem isLeast_lastAttempt (w : World σ) :
    IsLeast {i | 0 < i ∧ c.LastAttempt req i (c.startOf req w i)}
      ((c.rounds req).last (c.policy.maxAttempts.val - 1) 1 w + 1) := by
  have hmax := c.policy.maxAttempts.property.1
  refine Rounds.isLeast_reason (fun i s _ h => ?_) fun i s h => ?_
  · rcases h with hbudget | hstops
    · exact .exhausted (by omega)
    · exact lastAttempt_of_stops hstops
  · exact h.stops.imp_right fun hbudget => by omega

end

/-! ### The reference -/

/-- A run from `w` with `k` calls, as the reference has it. -/
structure Reference (w : World σ) (k : ℕ) (run : UtilsResult Response × World σ)
    (log : List Sent) : Prop where
  /-- Call `k` is the first one with a reason to be the last. -/
  isLeast : IsLeast {i | 0 < i ∧ c.LastAttempt req i (c.startOf req w i)} k
  /-- There are `k` calls, each with a request equal to the original. -/
  requests : log.map (·.request) = List.replicate k req
  /-- The result is that of call `k`. -/
  result : run.1 = (c.inner req (c.startOf req w k)).1
  /-- Between a call and the next one, or the end of the run, is a sleep of at most the cap. -/
  sleeps : List.Forall₂ (fun sent next => sent.finishedAt ≤ next ∧
      next ≤ sent.finishedAt + c.policy.maxBackoff.toNanos)
    log ((log.map (·.startedAt)).tail ++ [run.2.now])
  /-- All sleeps together: the time the run takes, less the time its calls take. -/
  slept : run.2.now + (log.map (·.startedAt)).sum ≤ w.now + (log.map (·.finishedAt)).sum +
    (c.policy.maxAttempts.val - 1) * c.policy.maxBackoff.toNanos

section

variable {c req}

/-- The loop follows the reference. -/
private theorem reference_calls (c : RetryingClient σ) (req : Request) (w : World σ) :
    c.Reference req w ((c.rounds req).last (c.policy.maxAttempts.val - 1) 1 w + 1)
      (c.calls req (c.policy.maxAttempts.val - 1) 1 w)
      ((c.rounds req).trace (fun _ => c.observations req) (c.policy.maxAttempts.val - 1) 1 w) := by
  -- the loop ends as it does from its last call on
  have hlast := Rounds.eq_last (R := c.rounds req) (f := c.calls req)
    (fun n k w h => calls_of_not_stops h) (c.policy.maxAttempts.val - 1) 1 w
  have hend := ((c.rounds req).stops_last (c.policy.maxAttempts.val - 1) 1 w).imp_left
    fun h => Nat.sub_eq_zero_of_le h.ge
  refine ⟨isLeast_lastAttempt w, ?_, ?_, sleeps_le _ 1 w, slept_le _ 1 w⟩
  · rw [Rounds.trace_eq, List.map_flatMap]
    simp only [observations, List.map_cons, List.map_nil]
    rw [← List.map_eq_flatMap, List.map_const', List.length_range]
  · rw [hlast]
    exact (calls_of_stops hend).1

end

/-- **`RetryingClient::execute` follows its reference semantics.** Observing the executor does not
change a run, the run is that of the reference for some number of calls, and a request with a
non-idempotent method is sent exactly once unless its retry is opted in. -/
theorem execute_eq_reference (w : World σ) :
    let run := c.execute req w
    let observed := c.observed.execute req (w.logging [])
    observed.1 = run.1 ∧ observed.2.own = run.2 ∧
      (∃ k, c.Reference req w k run observed.2.log) ∧
      (c.policy.retryNonIdempotent = false → isIdempotent req.method = false →
        observed.2.log.length = 1) := by
  have hobserved : c.observed.execute req (w.logging []) = _ :=
    c.calls_observed req (c.policy.maxAttempts.val - 1) 1 w []
  have hreference := c.reference_calls req w
  dsimp only
  rw [hobserved, List.nil_append]
  refine ⟨rfl, rfl, ⟨_, hreference⟩, fun hoptIn hmethod => ?_⟩
  -- the first call has a reason to be the last
  have hfirst := hreference.isLeast.2 ⟨Nat.one_pos, .nonIdempotent hmethod hoptIn⟩
  have hlength := congrArg List.length hreference.requests
  rw [List.length_map, List.length_replicate] at hlength
  exact hlength.trans (le_antisymm hfirst (Nat.succ_pos _))

end RetryingClient

end RustUtils
