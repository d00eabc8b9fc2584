import RustUtils.BackoffCurve
import RustUtils.Concurrency.Retry
import RustUtils.Runtime.Trace
import RustUtils.Transition.Rounds

/-!
# The reference semantics of `Retry::run_if`

`op` and the predicate are arbitrary stateful closures, and an observer of both notes their
calls. `Retry.startOf` is the world in which an attempt starts if no earlier one ends the run, and
`Retry.LastAttempt` lists the reasons for which an attempt is the last one.
`Retry.runIf_eq_reference` says that the run stops at the least attempt with such a reason: the
calls up to there, the verdicts, the sleeps between the attempts and the result are those of the
reference, although the code has the last attempt twice, in the loop and behind it.

An attempt and the sleep after it make a round of the loop, so the loop is that of
`Transition.Rounds`.
-/

namespace RustUtils

open Transition

namespace Retry

variable {σ α : Type} (r : Retry) (op : ℕ → Async σ (UtilsResult α))
  (shouldRetry : UtilsReport → Async σ Bool)

/-! ### Rounds -/

/-- An attempt up to the backoff: its result, and whether it is a retryable error. -/
def judge (attempt : ℕ) : Async σ (UtilsResult α × Bool) := do
  match ← op attempt with
  | .ok value => pure (.ok value, false)
  | .error report =>
    let retry ← shouldRetry report
    pure (.error report, retry)

/-- The sleep after an attempt. -/
def sleepAfter (attempt : ℕ) : Async σ Bool := do
  let delay ← r.delayAfter attempt
  sleepOrCancel r.cancel delay

/-- An attempt and the sleep after it. -/
def rounds : Rounds (World σ) where
  stops attempt w :=
    let judged := judge op shouldRetry attempt w
    !judged.1.2 || !(r.sleepAfter attempt judged.2).1
  next attempt w := (r.sleepAfter attempt (judge op shouldRetry attempt w).2).2

/-- The world in which attempt `i` starts, if no earlier attempt ends a run from `w`. -/
def startOf (w : World σ) (i : ℕ) : World σ := (r.rounds op shouldRetry).start 1 w (i - 1)

/-- Why attempt `i` is the last one, if it starts in `w`. -/
inductive LastAttempt (i : ℕ) (w : World σ) : Prop where
  /-- It succeeds. -/
  | ok (value : α) (w' : World σ) (result : op i w = (.ok value, w'))
  /-- The predicate rejects its error. -/
  | rejected (report : UtilsReport) (w' w'' : World σ) (result : op i w = (.error report, w'))
      (verdict : shouldRetry report w' = (false, w''))
  /-- The sleep after it is interrupted. -/
  | interrupted (report : UtilsReport) (w' w'' : World σ) (result : op i w = (.error report, w'))
      (verdict : shouldRetry report w' = (true, w'')) (before : i < r.maxAttempts.val)
      (cut : (r.sleepAfter i w'').1 = false)
  /-- The budget is used up. -/
  | exhausted (budget : i = r.maxAttempts.val)

/-! ### The observer -/

/-- What an observer of the closures sees. -/
inductive Observed where
  /-- `op` is called. -/
  | called (attempt startedAt : ℕ)
  /-- The predicate has given its verdict. -/
  | judged (report : UtilsReport) (retry : Bool) (at_ : ℕ)
  deriving DecidableEq

/-- The attempt of a call of `op`. -/
def Observed.attempt? : Observed → Option ℕ
  | called attempt _ => some attempt
  | judged .. => none

/-- The report of a call of the predicate. -/
def Observed.report? : Observed → Option UtilsReport
  | called .. => none
  | judged report .. => some report

/-- `op`, observed. -/
def observedOp (attempt : ℕ) : Async (σ × List Observed) (UtilsResult α) :=
  (op attempt).traced fun w _ _ => [.called attempt w.now]

/-- The predicate, observed. -/
def observedPredicate (report : UtilsReport) : Async (σ × List Observed) Bool :=
  (shouldRetry report).traced fun _ retry w => [.judged report retry w.now]

/-- What an observer sees of an attempt. -/
def observations (attempt : ℕ) (w : World σ) : List Observed :=
  .called attempt w.now :: match op attempt w with
    | (.ok _, _) => []
    | (.error report, w') =>
      [.judged report (shouldRetry report w').1 (shouldRetry report w').2.now]

/-! ### The loop -/

section

variable {r op shouldRetry}

/-- A success is not judged. -/
private theorem judge_of_ok {i : ℕ} {w w' : World σ} {value : α} (hop : op i w = (.ok value, w')) :
    judge op shouldRetry i w = ((.ok value, false), w') := by
  simp [judge, hop]

/-- An error is judged by the predicate, in the world that `op` left. -/
private theorem judge_of_error {i : ℕ} {w w' w'' : World σ} {report : UtilsReport} {retry : Bool}
    (hop : op i w = (.error report, w')) (hverdict : shouldRetry report w' = (retry, w'')) :
    judge op shouldRetry i w = ((.error report, retry), w'') := by
  simp only [judge, Async.bind_apply, hop, hverdict, Async.pure_apply]

/-- The ways an attempt goes. -/
private theorem attempt_cases (op : ℕ → Async σ (UtilsResult α))
    (shouldRetry : UtilsReport → Async σ Bool)
    (i : ℕ) (w : World σ) :
    (∃ value w', op i w = (.ok value, w')) ∨ ∃ report w' retry w'',
      op i w = (.error report, w') ∧ shouldRetry report w' = (retry, w'') := by
  rcases hop : op i w with ⟨result, w'⟩
  cases result with
  | ok value => exact Or.inl ⟨value, w', rfl⟩
  | error report => exact Or.inr ⟨report, w', _, _, rfl, rfl⟩

/-- An attempt that is followed by a backoff has failed with an error that the predicate accepts. -/
private theorem retry_of_judge {i : ℕ} {w : World σ} (h : (judge op shouldRetry i w).1.2 = true) :
    ∃ report w' w'', op i w = (.error report, w') ∧ shouldRetry report w' = (true, w'') := by
  rcases attempt_cases op shouldRetry i w with
    ⟨value, w', hop⟩ | ⟨report, w', retry, w'', hop, hverdict⟩
  · rw [judge_of_ok hop] at h
    contradiction
  · rw [judge_of_error hop hverdict] at h
    exact ⟨report, w', w'', hop, h ▸ hverdict⟩

/-- A round goes on after a retryable error and a sleep that is not cut short. -/
private theorem not_stops_iff {i : ℕ} {w : World σ} :
    (r.rounds op shouldRetry).stops i w = false ↔ ∃ report w' w'',
      op i w = (.error report, w') ∧ shouldRetry report w' = (true, w'') ∧
        (r.sleepAfter i w'').1 = true := by
  simp only [rounds, Bool.or_eq_false_iff, Bool.not_eq_false']
  constructor
  · rintro ⟨hretry, hslept⟩
    obtain ⟨report, w', w'', hop, hverdict⟩ := retry_of_judge hretry
    rw [judge_of_error hop hverdict] at hslept
    exact ⟨report, w', w'', hop, hverdict, hslept⟩
  · rintro ⟨report, w', w'', hop, hverdict, hslept⟩
    rw [judge_of_error hop hverdict]
    exact ⟨rfl, hslept⟩

/-- After a retryable error the next attempt starts when the sleep is over. -/
private theorem next_of_retry {i : ℕ} {w w' w'' : World σ} {report : UtilsReport}
    (hop : op i w = (.error report, w')) (hverdict : shouldRetry report w' = (true, w'')) :
    (r.rounds op shouldRetry).next i w = (r.sleepAfter i w'').2 := by
  have hnext : (r.rounds op shouldRetry).next i w =
      (r.sleepAfter i (judge op shouldRetry i w).2).2 := rfl
  rw [hnext, judge_of_error hop hverdict]

/-- A round that goes on is followed by the next one. -/
private theorem attempts_of_not_stops {n i : ℕ} {w : World σ}
    (h : (r.rounds op shouldRetry).stops i w = false) :
    r.attempts op shouldRetry (n + 1) i w =
      r.attempts op shouldRetry n (i + 1) ((r.rounds op shouldRetry).next i w) := by
  obtain ⟨report, w', w'', hop, hverdict, hslept⟩ := not_stops_iff.mp h
  rw [attempts_succ_of_retry r hop hverdict, next_of_retry hop hverdict]
  exact if_pos hslept

/-- The observed `op` notes its attempt and the time. -/
private theorem observedOp_logging {i : ℕ} {w w' : World σ} {result : UtilsResult α}
    (hop : op i w = (result, w')) (log : List Observed) :
    observedOp op i (w.logging log) = (result, w'.logging (log ++ [.called i w.now])) := by
  rw [observedOp, Async.traced_logging, hop]

/-- The observed predicate notes the error, its verdict and the time. -/
private theorem observedPredicate_logging {report : UtilsReport} {retry : Bool} {w w' : World σ}
    (hverdict : shouldRetry report w = (retry, w')) (log : List Observed) :
    observedPredicate shouldRetry report (w.logging log) =
      (retry, w'.logging (log ++ [.judged report retry w'.now])) := by
  rw [observedPredicate, Async.traced_logging, hverdict]

/-- On a success there is only the call to note. -/
private theorem observations_of_ok {i : ℕ} {w w' : World σ} {value : α}
    (hop : op i w = (.ok value, w')) :
    observations op shouldRetry i w = [.called i w.now] := by
  rw [observations, hop]

/-- On an error there are the call and the verdict to note. -/
private theorem observations_of_error {i : ℕ} {w w' w'' : World σ} {report : UtilsReport}
    {retry : Bool}
    (hop : op i w = (.error report, w')) (hverdict : shouldRetry report w' = (retry, w'')) :
    observations op shouldRetry i w = [.called i w.now] ++ [.judged report retry w''.now] := by
  rw [observations, hop]
  simp only [hverdict, List.singleton_append]

/-- A round that ends without a retryable error, observed. -/
private theorem attempts_observed_of_judge {i : ℕ} {w : World σ}
    (h : (judge op shouldRetry i w).1.2 = false) (n : ℕ) (log : List Observed) :
    r.attempts (observedOp op) (observedPredicate shouldRetry) n i (w.logging log) =
      ((r.attempts op shouldRetry n i w).1, (r.attempts op shouldRetry n i w).2.logging
        (log ++ (r.rounds op shouldRetry).trace (observations op shouldRetry) n i w)) := by
  have hstops : (r.rounds op shouldRetry).stops i w = true := by simp [rounds, h]
  rw [Rounds.trace_of_stops hstops]
  rcases attempt_cases op shouldRetry i w with
    ⟨value, w', hop⟩ | ⟨report, w', retry, w'', hop, hverdict⟩
  · rw [attempts_of_ok r hop, attempts_of_ok r (observedOp_logging hop log),
      observations_of_ok hop]
  · rw [judge_of_error hop hverdict] at h
    obtain rfl : retry = false := h
    have hlogged := observedPredicate_logging hverdict (log ++ [.called i w.now])
    rw [attempts_of_refuse r hop hverdict,
      attempts_of_refuse r (observedOp_logging hop log) hlogged,
      observations_of_error hop hverdict, List.append_assoc]

/-- **An observed loop** runs as it does unobserved, and the observer sees its rounds. -/
theorem attempts_observed (n i : ℕ) (w : World σ) (log : List Observed) :
    r.attempts (observedOp op) (observedPredicate shouldRetry) n i (w.logging log) =
      ((r.attempts op shouldRetry n i w).1, (r.attempts op shouldRetry n i w).2.logging
        (log ++ (r.rounds op shouldRetry).trace (observations op shouldRetry) n i w)) := by
  induction n generalizing i w log with
  | zero =>
    cases hjudge : (judge op shouldRetry i w).1.2 with
    | false => exact attempts_observed_of_judge hjudge 0 log
    | true =>
      obtain ⟨report, w', w'', hop, hverdict⟩ := retry_of_judge hjudge
      have hlogged := observedPredicate_logging hverdict (log ++ [.called i w.now])
      rw [attempts_zero_of_retry r hop hverdict,
        attempts_zero_of_retry r (observedOp_logging hop log) hlogged, Rounds.trace,
        observations_of_error hop hverdict, List.append_assoc]
  | succ n ih =>
    cases hjudge : (judge op shouldRetry i w).1.2 with
    | false => exact attempts_observed_of_judge hjudge (n + 1) log
    | true =>
      obtain ⟨report, w', w'', hop, hverdict⟩ := retry_of_judge hjudge
      have hlogged := observedPredicate_logging hverdict (log ++ [.called i w.now])
      have hsleep : r.sleepAfter i w'' =
          sleepOrCancel r.cancel (computeDelay r.baseBackoff r.maxBackoff i r.jitter w''.wall)
            w'' := rfl
      rw [attempts_succ_of_retry r hop hverdict,
        attempts_succ_of_retry r (observedOp_logging hop log) hlogged, Rounds.trace,
        observations_of_error hop hverdict]
      simp only [World.wall_logging, sleepOrCancel_logging, rounds, judge_of_error hop hverdict,
        ← hsleep, Bool.not_true, Bool.false_or]
      cases hslept : (r.sleepAfter i w'').1 with
      | false => simp
      | true =>
        simp only [Bool.not_true, Bool.false_eq_true, if_false, if_true]
        rw [ih, List.append_assoc, List.append_assoc]
        rfl

end

/-! ### The reference -/

/-- The report of a failed attempt. -/
def failure? : UtilsResult α → Option UtilsReport
  | .ok _ => none
  | .error report => some report

/-- A run from `w` with `k` attempts, as the reference has it. -/
structure Reference (w : World σ) (k : ℕ) (result : UtilsResult α) (log : List Observed) :
    Prop where
  /-- Attempt `k` is the first one with a reason to be the last. -/
  isLeast : IsLeast {i | 0 < i ∧ r.LastAttempt op shouldRetry i (r.startOf op shouldRetry w i)} k
  /-- `op` is called with the numbers from `1` to `k`, in this order. -/
  calls : log.filterMap Observed.attempt? = List.range' 1 k
  /-- The predicate is called once for each failed attempt, in their order. -/
  verdicts : log.filterMap Observed.report? =
    (List.range' 1 k).filterMap fun i => failure? (op i (r.startOf op shouldRetry w i)).1
  /-- Without jitter, the sleep after an attempt before the `k`-th is the documented one. -/
  sleeps : r.jitter = false → ∀ i, 0 < i → i < k → ∃ startedAt report at_,
    [.called i startedAt, .judged report true at_, .called (i + 1) (at_ +
      min (r.baseBackoff.toNanos * min (2 ^ (i - 1)) (2 ^ 32 - 1)) r.maxBackoff.toNanos)] <:+: log
  /-- A success is returned. -/
  ok : ∀ value w', op k (r.startOf op shouldRetry w k) = (.ok value, w') → result = .ok value
  /-- A rejected report is returned unchanged. -/
  rejected : ∀ report w' w'', op k (r.startOf op shouldRetry w k) = (.error report, w') →
    shouldRetry report w' = (false, w'') → result = .error report
  /-- Any other report is wrapped. -/
  exhausted : ∀ report w' w'', op k (r.startOf op shouldRetry w k) = (.error report, w') →
    shouldRetry report w' = (true, w'') → ∃ wrapped, result = .error wrapped ∧
      wrapped.currentContext = .retryExhausted ∧ report.frames <:+ wrapped.frames

section

variable {r op shouldRetry} {w : World σ}

private theorem startOf_add_one (j : ℕ) :
    r.startOf op shouldRetry w (j + 1) = (r.rounds op shouldRetry).start 1 w j := rfl

/-- A reason to be the last attempt stops the round, or is the budget. -/
private theorem LastAttempt.stops {i : ℕ} (h : r.LastAttempt op shouldRetry i w) :
    (r.rounds op shouldRetry).stops i w = true ∨ i = r.maxAttempts.val := by
  refine or_iff_not_imp_left.mpr fun hgoes => ?_
  obtain ⟨report, w', w'', hop, hverdict, hslept⟩ := not_stops_iff.mp (Bool.eq_false_iff.mpr hgoes)
  cases h with
  | ok value v result =>
    rw [result] at hop
    obtain ⟨⟩ := hop
  | rejected report' v v' result verdict =>
    obtain ⟨⟩ := result.symm.trans hop
    obtain ⟨⟩ := verdict.symm.trans hverdict
  | interrupted report' v v' result verdict before cut =>
    obtain ⟨⟩ := result.symm.trans hop
    obtain ⟨⟩ := verdict.symm.trans hverdict
    rw [hslept] at cut
    contradiction
  | exhausted budget => exact budget

/-- A round within the budget that stops has a reason. -/
private theorem lastAttempt_of_stops {i : ℕ} (hi : i ≤ r.maxAttempts.val)
    (h : i = r.maxAttempts.val ∨ (r.rounds op shouldRetry).stops i w = true) :
    r.LastAttempt op shouldRetry i w := by
  rcases Nat.lt_or_eq_of_le hi with hlt | heq
  · have hstops := h.resolve_left (Nat.ne_of_lt hlt)
    rcases attempt_cases op shouldRetry i w with
      ⟨value, w', hop⟩ | ⟨report, w', retry, w'', hop, hverdict⟩
    · exact .ok value w' hop
    · cases retry with
      | false => exact .rejected report w' w'' hop hverdict
      | true =>
        refine .interrupted report w' w'' hop hverdict hlt (Bool.eq_false_iff.mpr fun hslept => ?_)
        rw [not_stops_iff.mpr ⟨report, w', w'', hop, hverdict, hslept⟩] at hstops
        contradiction
  · exact .exhausted heq

/-- The loop's last round is the least attempt with a reason to be the last. -/
private theorem isLeast_lastAttempt (w : World σ) :
    IsLeast {i | 0 < i ∧ r.LastAttempt op shouldRetry i (r.startOf op shouldRetry w i)}
      ((r.rounds op shouldRetry).last (r.maxAttempts.val - 1) 1 w + 1) := by
  have hmax := r.maxAttempts.property.1
  refine Rounds.isLeast_reason (fun i s hle h => ?_) fun i s h => ?_
  · exact lastAttempt_of_stops (by omega) (h.imp_left fun hbudget => by omega)
  · exact h.stops.imp_right fun hbudget => by omega

/-- What the observer of a loop sees, attempt by attempt. -/
private theorem trace_observations (n : ℕ) (w : World σ) :
    (r.rounds op shouldRetry).trace (observations op shouldRetry) n 1 w =
      (List.range' 1 ((r.rounds op shouldRetry).last n 1 w + 1)).flatMap fun i =>
        observations op shouldRetry i (r.startOf op shouldRetry w i) := by
  rw [Rounds.trace_eq, List.range'_eq_map_range, List.flatMap_map]
  simp only [Nat.add_comm 1, startOf_add_one]

/-- One attempt notes one call. -/
private theorem filterMap_attempt_observations (i : ℕ) (w : World σ) :
    (observations op shouldRetry i w).filterMap Observed.attempt? = [i] := by
  rcases attempt_cases op shouldRetry i w with
    ⟨value, w', hop⟩ | ⟨report, w', retry, w'', hop, hverdict⟩
  · rw [observations_of_ok hop]
    rfl
  · rw [observations_of_error hop hverdict]
    rfl

/-- One attempt shows the predicate its error, if it has one. -/
private theorem filterMap_report_observations (i : ℕ) (w : World σ) :
    (observations op shouldRetry i w).filterMap Observed.report? =
      (failure? (op i w).1).toList := by
  rcases attempt_cases op shouldRetry i w with
    ⟨value, w', hop⟩ | ⟨report, w', retry, w'', hop, hverdict⟩
  · rw [observations_of_ok hop, hop]
    rfl
  · rw [observations_of_error hop hverdict, hop]
    rfl

/-- A retryable error in the last attempt of a loop. -/
private theorem attempts_of_retry {n i : ℕ} {w' w'' : World σ} {report : UtilsReport}
    (hop : op i w = (.error report, w')) (hverdict : shouldRetry report w' = (true, w''))
    (hlast : n = 0 ∨ (r.rounds op shouldRetry).stops i w = true) :
    ∃ msg, (r.attempts op shouldRetry n i w).1 =
      .error ((report.changeContext .retryExhausted).attach msg) := by
  cases n with
  | zero =>
    rw [attempts_zero_of_retry r hop hverdict]
    exact ⟨_, rfl⟩
  | succ n =>
    have hstops := hlast.resolve_left (Nat.succ_ne_zero n)
    rw [attempts_succ_of_retry r hop hverdict]
    simp only [rounds, judge_of_error hop hverdict, Bool.not_true, Bool.false_or,
      Bool.not_eq_true'] at hstops
    exact ⟨_, congrArg Prod.fst (if_neg (Bool.eq_false_iff.mp hstops))⟩

/-- Between two attempts a loop without jitter sleeps for the documented delay. -/
private theorem sleeps_trace {n i : ℕ} {w : World σ} (hjitter : r.jitter = false) (hi : 0 < i)
    (hlt : i < (r.rounds op shouldRetry).last n 1 w + 1) :
    ∃ startedAt report at_, [.called i startedAt, .judged report true at_, .called (i + 1) (at_ +
        min (r.baseBackoff.toNanos * min (2 ^ (i - 1)) (2 ^ 32 - 1)) r.maxBackoff.toNanos)] <:+:
      (r.rounds op shouldRetry).trace (observations op shouldRetry) n 1 w := by
  obtain ⟨j, rfl⟩ := Nat.exists_eq_add_of_lt hi
  rw [Nat.zero_add, Nat.add_lt_add_iff_right] at hlt
  rw [Nat.zero_add, Nat.add_comm j 1]
  have hadjacent := (r.rounds op shouldRetry).append_isInfix_trace
    (observations op shouldRetry) hlt
  obtain ⟨report, w', w'', hop, hverdict, hslept⟩ := not_stops_iff.mp (Rounds.not_stops_of_lt hlt)
  -- the next attempt starts when the sleep is over
  have hnext : ((r.rounds op shouldRetry).start 1 w (j + 1)).now = w''.now +
      min (r.baseBackoff.toNanos * min (2 ^ (1 + j - 1)) (2 ^ 32 - 1)) r.maxBackoff.toNanos := by
    rw [Rounds.start_succ, next_of_retry hop hverdict, ← toNanos_cappedDelay,
      ← computeDelay_false _ _ _ w''.wall, ← hjitter]
    exact (sleepOrCancel_spec _ _ _).2.2 hslept
  rw [observations_of_error hop hverdict, observations, hnext] at hadjacent
  exact ⟨_, report, w''.now, List.IsInfix.trans ⟨[], _, rfl⟩ hadjacent⟩

/-- The loop follows the reference. -/
private theorem reference_attempts (w : World σ) :
    r.Reference op shouldRetry w ((r.rounds op shouldRetry).last (r.maxAttempts.val - 1) 1 w + 1)
      (r.attempts op shouldRetry (r.maxAttempts.val - 1) 1 w).1
      ((r.rounds op shouldRetry).trace (observations op shouldRetry) (r.maxAttempts.val - 1)
        1 w) := by
  -- the loop ends as it does from its last attempt on
  have hlast := Rounds.eq_last (R := r.rounds op shouldRetry) (f := r.attempts op shouldRetry)
    (fun n i w h => attempts_of_not_stops h) (r.maxAttempts.val - 1) 1 w
  have hstops := (r.rounds op shouldRetry).stops_last (r.maxAttempts.val - 1) 1 w
  rw [Nat.add_comm 1] at hlast hstops
  refine ⟨isLeast_lastAttempt w, ?_, ?_, fun hjitter i => sleeps_trace hjitter, ?_, ?_, ?_⟩
  · rw [trace_observations, List.filterMap_flatMap]
    simp only [filterMap_attempt_observations, List.flatMap_singleton']
  · rw [trace_observations, List.filterMap_flatMap, List.filterMap_eq_flatMap_toList]
    simp only [filterMap_report_observations]
  · intro value w' hop
    rw [startOf_add_one] at hop
    rw [hlast, attempts_of_ok r hop]
  · intro report w' w'' hop hverdict
    rw [startOf_add_one] at hop
    rw [hlast, attempts_of_refuse r hop hverdict]
  · intro report w' w'' hop hverdict
    rw [startOf_add_one] at hop
    obtain ⟨msg, hmsg⟩ := attempts_of_retry hop hverdict
      (hstops.imp_left fun h => Nat.sub_eq_zero_of_le h.ge)
    rw [hlast, hmsg]
    exact ⟨_, rfl, rfl, [.attachment msg, .context .retryExhausted], rfl⟩

end

/-- A run whose token is cancelled before the start calls nothing. -/
private theorem runIf_of_cancelled {w : World σ} (h : r.cancel.any (·.isCancelled w.now) = true) :
    r.runIf op shouldRetry w = (.error ((UtilsReport.new .retryExhausted).attach
      s!"retry [{r.label}] cancelled before first attempt"), w) := by
  have hchecked : (r.cancelled : Async σ Bool) w = (true, w) := by rw [cancelled, h]
  rw [runIf, Async.bind_apply, hchecked]
  rfl

/-- Every other run enters the loop. -/
private theorem runIf_of_not_cancelled {w : World σ}
    (h : r.cancel.any (·.isCancelled w.now) = false) :
    r.runIf op shouldRetry w = r.attempts op shouldRetry (r.maxAttempts.val - 1) 1 w := by
  have hchecked : (r.cancelled : Async σ Bool) w = (false, w) := by rw [cancelled, h]
  rw [runIf, Async.bind_apply, hchecked]
  rfl

/-- **`Retry::run_if` follows its reference semantics.** Observing the closures does not change a
run. If the token is cancelled already, nothing is called and the result is `RetryExhausted`, and
otherwise the run is that of the reference for some number of attempts. -/
theorem runIf_eq_reference (w : World σ) :
    let run := r.runIf op shouldRetry w
    let observed := r.runIf (observedOp op) (observedPredicate shouldRetry) (w.logging [])
    observed.1 = run.1 ∧ observed.2.own = run.2 ∧
      if r.cancel.any (·.isCancelled w.now) then
        observed.2.log = [] ∧
          ∃ report, run.1 = .error report ∧ report.currentContext = .retryExhausted
      else ∃ k, r.Reference op shouldRetry w k run.1 observed.2.log := by
  dsimp only
  by_cases hcancelled : r.cancel.any (·.isCancelled w.now) = true
  · have hobserved := runIf_of_cancelled r (observedOp op) (observedPredicate shouldRetry)
      (w := w.logging []) hcancelled
    rw [runIf_of_cancelled r op shouldRetry hcancelled, hobserved, if_pos hcancelled]
    exact ⟨rfl, rfl, rfl, _, rfl, rfl⟩
  · have hgoes := Bool.eq_false_iff.mpr hcancelled
    have hobserved := runIf_of_not_cancelled r (observedOp op) (observedPredicate shouldRetry)
      (w := w.logging []) hgoes
    rw [runIf_of_not_cancelled r op shouldRetry hgoes, hobserved, if_neg hcancelled,
      attempts_observed]
    exact ⟨rfl, rfl, _, reference_attempts w⟩

end Retry

end RustUtils
