import RustUtils.Network.Client
import RustUtils.Network.RateLimit

/-!
# Building rate limiters

All limiters are built from the quota of their window, and the constructors of `governor` panic on
a quota whose period exceeds `u64::MAX` nanoseconds. `quota_from_window` only rejects a zero period,
and `representable_iff` says which windows get past it with a period that fits. Windows of many
days do not, although the parser gives them.
-/

namespace RustUtils

namespace Governor

variable (g : Governor)

/-- A limiter built from the quota of a window. -/
def build {α : Type} (construct : g.Quota → Option α) (window : RateLimitWindow)
    (burst : Option NonZeroU32) : Option (UtilsResult α) :=
  match g.quotaFromWindow window burst with
  | .ok quota => (construct quota).map .ok
  | .error report => some (.error report)

end Governor

/-- `RateLimiter::new`; a panic has no result. -/
def RateLimiter.new (g : Governor) (window : RateLimitWindow) (burst : Option NonZeroU32) :
    Option (UtilsResult g.Direct) :=
  g.build g.direct window burst

/-- `KeyedRateLimiter::new`. -/
def KeyedRateLimiter.new (g : Governor) (K : Type) (window : RateLimitWindow)
    (burst : Option NonZeroU32) : Option (UtilsResult (g.Keyed K)) :=
  g.build (g.keyed K) window burst

/-- `RateLimitedClient::with_client`. -/
def RateLimitedClient.withClient {σ : Type} (g : Governor) (untilReady : g.Direct → Async σ Unit)
    (inner : ReqwestClient σ) (window : RateLimitWindow) (burst : Option NonZeroU32) :
    Option (UtilsResult (RateLimitedClient σ)) :=
  g.build (fun quota => (g.direct quota).map fun limiter => ⟨inner, untilReady limiter⟩) window
    burst

namespace Governor

variable {g : Governor}

variable (g) in
/-- The window is rejected, or its quota has a period that fits a `u64` of nanoseconds. -/
def Representable (window : RateLimitWindow) (burst : Option NonZeroU32) : Prop :=
  (∃ report, g.quotaFromWindow window burst = .error report ∧ report.currentContext = .config) ∨
    ∃ quota, g.quotaFromWindow window burst = .ok quota ∧
      (g.replenishInterval quota).toNanos ≤ 2 ^ 64 - 1

/-- Only the period of a custom window can be too long. -/
private theorem representable_iff (hg : g.Lawful) (window : RateLimitWindow)
    (burst : Option NonZeroU32) :
    g.Representable window burst ↔
      ∀ period, window = .custom period → period.toNanos ≤ 2 ^ 64 - 1 := by
  rcases quotaFromWindow_spec hg window burst with ⟨period, rfl, hzero, hq⟩ | ⟨quota, hq, hperiod⟩
  · refine iff_of_true (Or.inl ⟨_, hq, rfl⟩) fun period' heq => ?_
    obtain rfl := RateLimitWindow.custom.inj heq
    omega
  · have hfits : g.Representable window burst ↔
        (g.replenishInterval quota).toNanos ≤ 2 ^ 64 - 1 := by
      simp [Representable, hq]
    rw [hfits]
    cases window with
    | perSecond n | perMinute n =>
      refine iff_of_true (hperiod.trans ?_) (by simp)
      decide
    | custom period =>
      rw [hperiod.2]
      exact ⟨fun h period' heq => RateLimitWindow.custom.inj heq ▸ h, fun h => h period rfl⟩

/-- A limiter whose period does not fit is not built: its constructor panics. -/
private theorem build_eq_none {α : Type} {construct : g.Quota → Option α} {window : RateLimitWindow}
    {burst : Option NonZeroU32} (hg : g.Lawful) (h : ¬g.Representable window burst)
    (hpanics : ∀ {quota}, 2 ^ 64 ≤ (g.replenishInterval quota).toNanos → construct quota = none) :
    g.build construct window burst = none := by
  rw [build]
  rcases quotaFromWindow_spec hg window burst with ⟨-, -, -, hq⟩ | ⟨quota, hq, -⟩
  · exact absurd (Or.inl ⟨_, hq, rfl⟩) h
  · have hlong : 2 ^ 64 ≤ (g.replenishInterval quota).toNanos :=
      Nat.le_of_not_lt fun hlt => h (Or.inr ⟨quota, hq, by omega⟩)
    simp only [hq, hpanics hlong, Option.map_none]

end Governor

/-- Which windows of hours and days fit. -/
private theorem RateLimitWindow.Names.fits_iff {n : NonZeroU32} {unit : Char} {w : RateLimitWindow}
    (h : Names n unit w) : (∀ period, w = .custom period → period.toNanos ≤ 2 ^ 64 - 1) ↔
      (unit = 'h' → n.val ≤ 5124095) ∧ (unit = 'd' → n.val ≤ 213503) := by
  cases h with
  | second | minute => simp
  | @hour period h =>
    have hfits : period.toNanos ≤ 2 ^ 64 - 1 ↔ n.val ≤ 5124095 := by
      rw [h, nanosPerSec]
      omega
    simpa using hfits
  | @day period h =>
    have hfits : period.toNanos ≤ 2 ^ 64 - 1 ↔ n.val ≤ 213503 := by
      rw [h, nanosPerSec]
      omega
    simpa using hfits

/-- **Which limiters are rejected or fit.** The quota of a window is rejected, or has a period that
fits `governor`, if and only if the period of a custom window does; for a window that is parsed from
a string, if and only if it has at most 5124095 hours or 213503 days. All constructors panic on the
other windows. The condition is about the period alone: `governor` converts the period times the
burst too, so a constructor can still panic on a window that fits when its burst is large. -/
theorem limiter_rejects_iff {g : Governor} (hg : g.Lawful) :
    (∀ window burst, g.Representable window burst ↔
      ∀ period, window = .custom period → period.toNanos ≤ 2 ^ 64 - 1) ∧
    (∀ numeral unit w burst, RateLimitWindow.fromString (numeral ++ [unit]) = some (some w) →
      ∃ n, Numeral.Denotes numeral n ∧ (g.Representable w burst ↔
        (unit = 'h' → n ≤ 5124095) ∧ (unit = 'd' → n ≤ 213503))) ∧
    ∀ window burst, ¬g.Representable window burst → RateLimiter.new g window burst = none ∧
      (∀ K, KeyedRateLimiter.new g K window burst = none) ∧
      ∀ (σ : Type) (untilReady : g.Direct → Async σ Unit) (inner : ReqwestClient σ),
        RateLimitedClient.withClient g untilReady inner window burst = none := by
  refine ⟨Governor.representable_iff hg, fun numeral unit w burst hw => ?_,
    fun window burst h => ⟨?_, fun K => ?_, fun σ untilReady inner => ?_⟩⟩
  · obtain ⟨numeral', unit', n, heq, hdenotes, hnames⟩ :=
      RateLimitWindow.fromString_eq_some_iff.mp hw
    obtain ⟨rfl, hunit⟩ := List.append_inj' heq rfl
    obtain rfl := List.singleton_inj.mp hunit
    exact ⟨n.val, hdenotes, (Governor.representable_iff hg w burst).trans hnames.fits_iff⟩
  · exact Governor.build_eq_none hg h hg.direct
  · exact Governor.build_eq_none hg h fun hlong => hg.keyed hlong K
  · refine Governor.build_eq_none hg h fun hlong => ?_
    rw [hg.direct hlong, Option.map_none]

/-- A cell every 213503 days fits. -/
theorem limiter_rejects_iff_longest :
    ∃ w, RateLimitWindow.fromString ['2', '1', '3', '5', '0', '3', 'd'] = some (some w) ∧
      Governor.plain.Representable w none := by
  have hw : RateLimitWindow.fromString ['2', '1', '3', '5', '0', '3', 'd'] =
      some (some (.custom (Duration.fromSecs (213503 * 86400)))) := by decide
  refine ⟨_, hw, ((limiter_rejects_iff Governor.lawful_plain).1 _ none).mpr fun period heq => ?_⟩
  rw [← RateLimitWindow.custom.inj heq]
  decide

/-- A cell every 213504 days does not: the window is parsed, and its limiter panics. -/
theorem limiter_panics :
    ∃ w, RateLimitWindow.fromString ['2', '1', '3', '5', '0', '4', 'd'] = some (some w) ∧
      ¬Governor.plain.Representable w none ∧ RateLimiter.new .plain w none = none := by
  have hw : RateLimitWindow.fromString ['2', '1', '3', '5', '0', '4', 'd'] =
      some (some (.custom (Duration.fromSecs (213504 * 86400)))) := by decide
  refine ⟨_, hw, ?_, by decide⟩
  rw [Governor.representable_iff Governor.lawful_plain]
  exact fun h => absurd (h _ rfl) (by decide)

end RustUtils
