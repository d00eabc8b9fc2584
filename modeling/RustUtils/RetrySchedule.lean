import RustUtils.Backoff

/-!
# Retry schedules

What the two retry loops of the crate have in common: attempts that take time and may ask for
another one, delays between them that a token can cut short, and a last attempt after which
nothing is asked. `Schedule.calls` is the list of calls such a loop makes.

`Schedule.stops_iff` settles when a schedule stops on cancellation. A sleep looks at the token
only when its delay is not zero, so the one way to call again after a cancellation is a zero
delay after an attempt during which the token fired.
-/

namespace RustUtils

/-- A call made by a retry loop. -/
structure Call where
  /-- The number of the attempt, from one. -/
  attempt : ℕ
  /-- The instant at which the call has finished. -/
  finishedAt : ℕ
  deriving DecidableEq

/-- The calls stop once the token is cancelled: no call follows one that finishes with a
retryable result and a cancelled token. -/
def StopsWhenCancelled (token : CancellationToken) (retryable : ℕ → Bool)
    (calls : List Call) : Prop :=
  ∀ before c after, calls = before ++ c :: after → retryable c.attempt = true →
    token.isCancelled c.finishedAt = true → after = []

/-- The attempts of a retry loop, by their number. -/
structure Schedule where
  /-- How long the attempt runs. -/
  elapsed : ℕ → ℕ
  /-- The attempt asks for another one. -/
  again : ℕ → Bool
  /-- The delay after the attempt. -/
  delay : ℕ → Duration

namespace Schedule

variable (s : Schedule) (token : CancellationToken)

/-- The calls from attempt `k` on, started at `now`, with `n` further attempts to go. -/
def calls : ℕ → ℕ → ℕ → List Call
  | 0, k, now => [⟨k, now + s.elapsed k⟩]
  | n + 1, k, now =>
    let finishedAt := now + s.elapsed k
    let sleep := (Sleep.start (some token) (s.delay k) finishedAt).await finishedAt
    ⟨k, finishedAt⟩ :: if s.again k && sleep.1 then calls n (k + 1) sleep.2 else []

/-- The instant at which attempt `k + j` starts if attempt `k` starts at `now` and no sleep
is cut short. -/
def startedAt : ℕ → ℕ → ℕ → ℕ
  | _, now, 0 => now
  | k, now, j + 1 => startedAt (k + 1) (now + s.elapsed k + (s.delay k).toNanos) j

/-- No attempt starts before the run does. -/
theorem le_startedAt (k now j : ℕ) : now ≤ s.startedAt k now j := by
  induction j generalizing k now with
  | zero => exact le_rfl
  | succ j ih => exact le_trans (by omega) (ih (k + 1) _)

/-- The attempts `k` to `k + j` all ask for another one, attempt `k + j` with a zero delay
although the token is cancelled when it finishes. -/
structure Overrun (k now j : ℕ) : Prop where
  again : ∀ i ≤ j, s.again (k + i) = true
  isZero : (s.delay (k + j)).isZero = true
  cancelled : token.isCancelled (s.startedAt k now j + s.elapsed (k + j)) = true

variable {s token}

/-- The first attempt is overrun if its own zero delay hides the cancelled token. -/
private theorem overrun_zero_iff {k now : ℕ} : s.Overrun token k now 0 ↔
    s.again k = true ∧ (s.delay k).isZero = true ∧
      token.isCancelled (now + s.elapsed k) = true := by
  constructor
  · rintro ⟨hagain, hzero, hcancelled⟩
    exact ⟨hagain 0 le_rfl, hzero, hcancelled⟩
  · rintro ⟨hagain, hzero, hcancelled⟩
    refine ⟨fun i hi => ?_, hzero, hcancelled⟩
    obtain rfl := Nat.le_zero.mp hi
    exact hagain

/-- A later attempt is overrun if the run gets there. -/
private theorem overrun_succ_iff {k now j : ℕ} : s.Overrun token k now (j + 1) ↔
    s.again k = true ∧
      s.Overrun token (k + 1) (now + s.elapsed k + (s.delay k).toNanos) j := by
  have hadd : ∀ i, k + (i + 1) = k + 1 + i := fun i => by omega
  constructor
  · rintro ⟨hagain, hzero, hcancelled⟩
    refine ⟨hagain 0 (Nat.zero_le _), fun i hi => ?_, ?_, ?_⟩
    · exact hadd i ▸ hagain (i + 1) (by omega)
    · exact hadd j ▸ hzero
    · rw [startedAt, hadd j] at hcancelled
      exact hcancelled
  · rintro ⟨hfirst, hagain, hzero, hcancelled⟩
    refine ⟨fun i hi => ?_, hadd j ▸ hzero, ?_⟩
    · cases i with
      | zero => exact hfirst
      | succ i => exact hadd i ▸ hagain i (by omega)
    · rw [startedAt, hadd j]
      exact hcancelled

/-- One more call in front. -/
private theorem stopsWhenCancelled_cons {retryable : ℕ → Bool} {c : Call} {cs : List Call} :
    StopsWhenCancelled token retryable (c :: cs) ↔
      (retryable c.attempt = true → token.isCancelled c.finishedAt = true → cs = []) ∧
        StopsWhenCancelled token retryable cs := by
  constructor
  · intro h
    refine ⟨h [] c cs rfl, fun before c' after heq => h (c :: before) c' after ?_⟩
    rw [heq, List.cons_append]
  · rintro ⟨hc, hcs⟩ before c' after heq
    rcases List.cons_eq_append_iff.mp heq with ⟨rfl, hcons⟩ | ⟨before', rfl, hcs'⟩
    · obtain ⟨rfl, rfl⟩ := List.cons.inj hcons
      exact hc
    · exact hcs before' c' after hcs'

theorem calls_of_not_again {k : ℕ} (h : s.again k = false) (n now : ℕ) :
    s.calls token n k now = [⟨k, now + s.elapsed k⟩] := by
  cases n <;> simp [calls, h]

/-- The calls of a run that goes on: this attempt, and those after the sleep if it was not cut. -/
theorem calls_of_again {k : ℕ} (h : s.again k = true) (n now : ℕ) :
    s.calls token (n + 1) k now = ⟨k, now + s.elapsed k⟩ ::
      let sleep := (Sleep.start (some token) (s.delay k) (now + s.elapsed k)).await
        (now + s.elapsed k)
      if sleep.1 then s.calls token n (k + 1) sleep.2 else [] := by
  simp [calls, h]

/-- There is always a first call. -/
private theorem calls_ne_nil (n k now : ℕ) : s.calls token n k now ≠ [] := by
  cases n <;> simp [calls]

/-- A schedule stops on cancellation iff every attempt that would overrun was started with a
cancelled token already, which takes an earlier sleep that would have noticed. The first
attempt has no such sleep before it. -/
private theorem stops_from_iff {retryable : ℕ → Bool}
    (hretryable : ∀ k, s.again k = true → retryable k = true) (n k now : ℕ) :
    StopsWhenCancelled token retryable (s.calls token n k now) ↔
      ∀ j < n, s.Overrun token k now j →
        j ≠ 0 ∧ token.isCancelled (s.startedAt k now j) = true := by
  induction n generalizing k now with
  | zero =>
    rw [calls, stopsWhenCancelled_cons]
    refine iff_of_true ⟨fun _ _ => rfl, fun before c after h => ?_⟩ fun j hj => ?_
    · simp at h
    · exact absurd hj (Nat.not_lt_zero j)
  | succ n ih =>
    obtain ⟨hawake, hends⟩ :=
      Sleep.await_start_some token (s.delay k) (now + s.elapsed k)
    -- the conditions on attempt `k` and on the later ones
    have hsplit : (∀ j < n + 1, s.Overrun token k now j →
          j ≠ 0 ∧ token.isCancelled (s.startedAt k now j) = true) ↔
        ¬s.Overrun token k now 0 ∧ ∀ j < n, s.again k = true →
          s.Overrun token (k + 1) (now + s.elapsed k + (s.delay k).toNanos) j →
          token.isCancelled
            (s.startedAt (k + 1) (now + s.elapsed k + (s.delay k).toNanos) j) = true := by
      constructor
      · intro h
        refine ⟨fun hover => (h 0 (Nat.succ_pos n) hover).1 rfl, fun j hj hagain hover => ?_⟩
        exact (h (j + 1) (by omega) (overrun_succ_iff.mpr ⟨hagain, hover⟩)).2
      · rintro ⟨hfirst, hlater⟩ j hj hover
        cases j with
        | zero => exact absurd hover hfirst
        | succ j =>
          obtain ⟨hagain, hover'⟩ := overrun_succ_iff.mp hover
          exact ⟨Nat.succ_ne_zero j, hlater j (by omega) hagain hover'⟩
    rw [calls, stopsWhenCancelled_cons, hsplit, overrun_zero_iff]
    set finishedAt := now + s.elapsed k
    set next := finishedAt + (s.delay k).toNanos
    have hle : finishedAt ≤ next := Nat.le_add_right _ _
    cases hagain : s.again k with
    | false => simp [StopsWhenCancelled]
    | true =>
      cases hsleep : ((Sleep.start (some token) (s.delay k) finishedAt).await finishedAt).1 with
      | false =>
        -- the token has cut the sleep short, so nothing is called any more
        rw [hsleep] at hawake
        have hzero : (s.delay k).isZero = false := by grind
        have hcancelled : token.isCancelled next = true := by grind
        refine iff_of_true (by simp [StopsWhenCancelled]) ⟨by simp [hzero], fun j _ _ _ => ?_⟩
        exact CancellationToken.isCancelled_mono (s.le_startedAt _ _ _) hcancelled
      | true =>
        rw [hsleep] at hawake
        simp only [Bool.and_self, if_true]
        rw [hends hsleep, ih]
        -- a cancelled token lets no sleep elapse that has a length
        have hzero_of : token.isCancelled finishedAt = true → (s.delay k).isZero = true := by
          intro hcancelled
          have := CancellationToken.isCancelled_mono hle hcancelled
          grind
        have hlive : token.isCancelled finishedAt = false → token.isCancelled next = false := by
          intro hfinished
          cases hzero : (s.delay k).isZero with
          | true =>
            have hnext : next = finishedAt := by
              simp only [next, Duration.isZero_iff.mp hzero, Nat.add_zero]
            rwa [hnext]
          | false => grind
        constructor
        · rintro ⟨hfirst, hlater⟩
          refine ⟨fun ⟨_, _, hcancelled⟩ => ?_, fun j hj _ hover => (hlater j hj hover).2⟩
          exact calls_ne_nil n _ _ (hfirst (hretryable k hagain) hcancelled)
        · rintro ⟨hfirst, hlater⟩
          have hfinished : token.isCancelled finishedAt = false := by grind
          refine ⟨fun _ hcancelled => absurd hcancelled (by simp [hfinished]), fun j hj hover => ?_⟩
          have hcancelled := hlater j hj trivial hover
          refine ⟨?_, hcancelled⟩
          rintro rfl
          rw [startedAt, hlive hfinished] at hcancelled
          contradiction

/-- **When a schedule stops on cancellation**, for attempts counted from one. -/
theorem stops_iff {retryable : ℕ → Bool} (hretryable : ∀ k, s.again k = true → retryable k = true)
    (n now : ℕ) : StopsWhenCancelled token retryable (s.calls token n 1 now) ↔
      ∀ j, j < n → (∀ i ≤ j, s.again (i + 1) = true) → (s.delay (j + 1)).isZero = true →
        token.isCancelled (s.startedAt 1 now j + s.elapsed (j + 1)) = true →
        j ≠ 0 ∧ token.isCancelled (s.startedAt 1 now j) = true := by
  rw [stops_from_iff hretryable]
  refine forall₂_congr fun j _ => ?_
  have hcomm : ∀ i, i + 1 = 1 + i := fun i => Nat.add_comm i 1
  constructor
  · intro h hagain hzero hcancelled
    rw [hcomm] at hzero hcancelled
    exact h ⟨fun i hi => hcomm i ▸ hagain i hi, hzero, hcancelled⟩
  · rintro h ⟨hagain, hzero, hcancelled⟩
    rw [← hcomm] at hzero hcancelled
    exact h (fun i hi => hcomm i ▸ hagain i hi) hzero hcancelled

end Schedule

end RustUtils
