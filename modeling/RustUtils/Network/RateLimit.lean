import RustUtils.BackoffCurve
import RustUtils.Error
import RustUtils.Runtime.Parse
import RustUtils.Text.Utf8

/-!
# Rate limit windows

`RateLimitWindow::from_string` splits its argument one byte before the end, so it panics if the
last character takes more than one byte. Otherwise the string is a numeral and a unit, and `Names`
says which window they stand for. `fromString_snoc` is the parser on a numeral and a unit, and
`fromString_eq_some_iff` says that the parser accepts these strings only.

Quotas are code of the `governor` crate: `Governor` is what is used of it here, and
`Governor.Lawful` what is relied on. `quotaFromWindow_spec` is the quota of a window.
-/

namespace RustUtils

/-- `NonZeroU32::new` of a `u32`. -/
def NonZeroU32.new (n : ℕ) : Option NonZeroU32 :=
  if h : 0 < n ∧ n < 2 ^ 32 then some ⟨n, h⟩ else none

private theorem NonZeroU32.new_eq_some_iff {n : ℕ} {m : NonZeroU32} :
    new n = some m ↔ n = m.val := by
  rw [new]
  split
  · rw [Option.some_inj, Subtype.ext_iff]
  · next h => exact iff_of_false (Option.some_ne_none m).symm fun heq => h (heq ▸ m.property)

/-- `RateLimitWindow`. -/
inductive RateLimitWindow where
  | perSecond (allowed : NonZeroU32)
  | perMinute (allowed : NonZeroU32)
  | custom (period : Duration)
  deriving DecidableEq

namespace RateLimitWindow

/-! ### `from_string` -/

/-- The match on the unit; an overflow is a panic, which has no result. -/
def ofUnit (nonzero : NonZeroU32) : List Char → Option (Option RateLimitWindow)
  | ['s'] => some (some (perSecond nonzero))
  | ['m'] => some (some (perMinute nonzero))
  | ['h'] => do
    let secs ← MachineArith.mul 64 nonzero.val 3600
    some (some (custom (Duration.fromSecs secs)))
  | ['d'] => do
    let secs ← MachineArith.mul 64 nonzero.val 86400
    some (some (custom (Duration.fromSecs secs)))
  | _ => some none

/-- `from_string` after the split. -/
def ofParts (numStr unit : List Char) : Option (Option RateLimitWindow) :=
  match parseUnsigned 32 numStr with
  | some number =>
    if 0 < number then
      match NonZeroU32.new number with
      | some nonzero => ofUnit nonzero unit
      | none => some none
    else some none
  | none => some none

/-- `RateLimitWindow::from_string`. `split_at` panics if the offset is not the boundary of a
character, and a panic has no result. -/
def fromString (s : List Char) : Option (Option RateLimitWindow) :=
  if s = [] then some none
  else do
    let (numStr, unit) ← Utf8.splitAt s (Utf8.length s - 1)
    ofParts numStr unit

/-! ### What a numeral and a unit stand for -/

/-- The window of `n` units. The periods are exact. -/
inductive Names (n : NonZeroU32) : Char → RateLimitWindow → Prop
  | second : Names n 's' (perSecond n)
  | minute : Names n 'm' (perMinute n)
  | hour {period : Duration} (h : period.toNanos = n.val * 3600 * nanosPerSec) :
      Names n 'h' (custom period)
  | day {period : Duration} (h : period.toNanos = n.val * 86400 * nanosPerSec) :
      Names n 'd' (custom period)

/-- The units. -/
def units : List Char := ['s', 'm', 'h', 'd']

variable {n : NonZeroU32} {unit : Char} {w : RateLimitWindow}

private theorem Names.mem_units (h : Names n unit w) : unit ∈ units := by
  cases h <;> decide

/-- A number of hours or days is a number of seconds, without overflow. -/
private theorem mul_lt (n : NonZeroU32) {k : ℕ} (hk : k ≤ 86400) : n.val * k < 2 ^ 64 := by
  have hmul : n.val * k ≤ 2 ^ 32 * 86400 := Nat.mul_le_mul n.property.2.le hk
  omega

/-- The match on the unit gives the window, and nothing for other units. -/
private theorem ofUnit_spec (n : NonZeroU32) (unit : Char) :
    (∃ w, Names n unit w ∧ ofUnit n [unit] = some (some w)) ∨
      unit ∉ units ∧ ofUnit n [unit] = some none := by
  unfold ofUnit
  split
  · next heq => exact Or.inl ⟨_, List.singleton_inj.mp heq ▸ .second, rfl⟩
  · next heq => exact Or.inl ⟨_, List.singleton_inj.mp heq ▸ .minute, rfl⟩
  · next heq =>
    have hlt := mul_lt n (show 3600 ≤ 86400 by decide)
    rw [MachineArith.mul_eq hlt]
    exact Or.inl ⟨_, List.singleton_inj.mp heq ▸ .hour (Duration.toNanos_fromSecs hlt), rfl⟩
  · next heq =>
    have hlt := mul_lt n (show 86400 ≤ 86400 by decide)
    rw [MachineArith.mul_eq hlt]
    exact Or.inl ⟨_, List.singleton_inj.mp heq ▸ .day (Duration.toNanos_fromSecs hlt), rfl⟩
  · next hs hm hh hd =>
    refine Or.inr ⟨?_, rfl⟩
    simp only [List.cons.injEq, and_true] at hs hm hh hd
    simp only [units, List.mem_cons, List.not_mem_nil, or_false, not_or]
    exact ⟨hs, hm, hh, hd⟩

/-- A numeral and a unit stand for one window. -/
private theorem Names.unique {w' : RateLimitWindow} (h : Names n unit w) (h' : Names n unit w') :
    w = w' := by
  cases h with
  | second | minute =>
    cases h'
    rfl
  | hour h =>
    obtain _ | _ | h' | _ := h'
    rw [Duration.toNanos_injective (h.trans h'.symm)]
  | day h =>
    obtain _ | _ | _ | h' := h'
    rw [Duration.toNanos_injective (h.trans h'.symm)]

private theorem utf8Size_of_mem_units (h : unit ∈ units) : unit.utf8Size = 1 := by
  have hall : units.all (fun c => c.utf8Size = 1) = true := by decide
  exact of_decide_eq_true (List.all_eq_true.mp hall unit h)

/-! ### The grammar -/

/-- A numeral of a positive `u32` goes on to the match on the unit, and no other string does. -/
private theorem ofParts_spec (numStr unit : List Char) :
    (∃ n : NonZeroU32, Numeral.Denotes numStr n.val ∧ ofParts numStr unit = ofUnit n unit) ∨
      (∀ n : NonZeroU32, ¬Numeral.Denotes numStr n.val) ∧ ofParts numStr unit = some none := by
  have hparse : ∀ n : NonZeroU32, Numeral.Denotes numStr n.val →
      parseUnsigned 32 numStr = some n.val := fun n h =>
    parseUnsigned_eq_some_iff.mpr ⟨h, n.property.2⟩
  unfold ofParts
  cases hnumber : parseUnsigned 32 numStr with
  | none =>
    refine Or.inr ⟨fun n h => ?_, rfl⟩
    exact absurd ((hparse n h).symm.trans hnumber) (Option.some_ne_none _)
  | some number =>
    obtain ⟨hdenotes, hlt⟩ := parseUnsigned_eq_some_iff.mp hnumber
    by_cases hpos : 0 < number
    · have hnew : NonZeroU32.new number = some ⟨number, hpos, hlt⟩ :=
        NonZeroU32.new_eq_some_iff.mpr rfl
      refine Or.inl ⟨⟨number, hpos, hlt⟩, hdenotes, ?_⟩
      simp only [hnew, if_pos hpos]
    · refine Or.inr ⟨fun n h => hpos ?_, if_neg hpos⟩
      rw [hdenotes.unique h]
      exact n.property.1

private theorem fromString_snoc (numStr : List Char) (unit : Char) :
    fromString (numStr ++ [unit]) =
      if unit.utf8Size = 1 then ofParts numStr [unit] else none := by
  rw [fromString, if_neg (by simp), Utf8.splitAt_length_sub_one]
  split <;> rfl

/-- **The parser on a string that ends in an ASCII character** gives the window of its numeral and
unit, or `None` if there is none. -/
theorem fromString_spec (numStr : List Char) (hunit : unit.utf8Size = 1) :
    (∃ n w, Numeral.Denotes numStr n.val ∧ Names n unit w ∧
        fromString (numStr ++ [unit]) = some (some w)) ∨
      (∀ n w, Numeral.Denotes numStr n.val → ¬Names n unit w) ∧
        fromString (numStr ++ [unit]) = some none := by
  rw [fromString_snoc, if_pos hunit]
  rcases ofParts_spec numStr [unit] with ⟨n, hdenotes, heq⟩ | ⟨hnone, heq⟩
  · rw [heq]
    rcases ofUnit_spec n unit with ⟨w, hnames, hw⟩ | ⟨hbad, hw⟩
    · exact Or.inl ⟨n, w, hdenotes, hnames, hw⟩
    · exact Or.inr ⟨fun _ _ _ hnames => hbad hnames.mem_units, hw⟩
  · exact Or.inr ⟨fun n _ hdenotes => absurd hdenotes (hnone n), heq⟩

/-- **The parser accepts exactly the grammar.** -/
theorem fromString_eq_some_iff {s : List Char} {w : RateLimitWindow} :
    fromString s = some (some w) ↔ ∃ numeral unit n, s = numeral ++ [unit] ∧
      Numeral.Denotes numeral n.val ∧ Names n unit w := by
  constructor
  · intro h
    rcases s.eq_nil_or_concat with rfl | ⟨numeral, unit, rfl⟩
    · rw [fromString, if_pos rfl] at h
      simp at h
    · rw [List.concat_eq_append] at h ⊢
      have hunit : unit.utf8Size = 1 := by
        by_contra hne
        rw [fromString_snoc, if_neg hne] at h
        contradiction
      rcases fromString_spec numeral hunit with ⟨n, w', hdenotes, hnames, hw⟩ | ⟨-, hw⟩
      · obtain rfl : w' = w := by simpa [hw] using h
        exact ⟨numeral, unit, n, rfl, hdenotes, hnames⟩
      · simp [hw] at h
  · rintro ⟨numeral, unit, n, rfl, hdenotes, hnames⟩
    rcases fromString_spec numeral (utf8Size_of_mem_units hnames.mem_units) with
      ⟨n', w', hdenotes', hnames', hw⟩ | ⟨hnone, -⟩
    · obtain rfl : n' = n := Subtype.ext (hdenotes'.unique hdenotes)
      rw [hw, hnames'.unique hnames]
    · exact absurd hnames (hnone n w hdenotes)

end RateLimitWindow

/-! ### Quotas -/

/-- What is used of the crate `governor`: its quotas, and the constructors of its limiters, whose
panics have no result. -/
structure Governor where
  Quota : Type
  perSecond : NonZeroU32 → Quota
  perMinute : NonZeroU32 → Quota
  withPeriod : Duration → Option Quota
  allowBurst : Quota → NonZeroU32 → Quota
  replenishInterval : Quota → Duration
  /-- A limiter that is not keyed. -/
  Direct : Type
  direct : Quota → Option Direct
  /-- A limiter keyed by a type. -/
  Keyed : Type → Type
  keyed (K : Type) : Quota → Option (Keyed K)

namespace Governor

/-- What is relied on. -/
structure Lawful (g : Governor) : Prop where
  /-- The cells of a second are replenished within a second. -/
  perSecond (n : NonZeroU32) :
    n.val * (g.replenishInterval (g.perSecond n)).toNanos ≤ nanosPerSec
  /-- The cells of a minute are replenished within a minute. -/
  perMinute (n : NonZeroU32) :
    n.val * (g.replenishInterval (g.perMinute n)).toNanos ≤ 60 * nanosPerSec
  /-- There is a quota for every period but zero. -/
  withPeriod_eq_none_iff {period : Duration} : g.withPeriod period = none ↔ period.toNanos = 0
  withPeriod {period : Duration} {quota : g.Quota} (h : g.withPeriod period = some quota) :
    g.replenishInterval quota = period
  allowBurst (quota : g.Quota) (burst : NonZeroU32) :
    g.replenishInterval (g.allowBurst quota burst) = g.replenishInterval quota
  /-- The limiters keep the period in nanoseconds, as a `u64`, and panic if it does not fit. (They
  keep the periods of the burst as well, which need not fit where the period does.) -/
  direct {quota : g.Quota} (h : 2 ^ 64 ≤ (g.replenishInterval quota).toNanos) :
    g.direct quota = none
  keyed {quota : g.Quota} (h : 2 ^ 64 ≤ (g.replenishInterval quota).toNanos) (K : Type) :
    g.keyed K quota = none

variable (g : Governor)

/-- The report of a zero period. -/
def zeroPeriodReport : UtilsReport :=
  (UtilsReport.new .config).attach "rate limit period must be non-zero"

/-- A quota with its optional burst. -/
def withBurst (quota : g.Quota) : Option NonZeroU32 → g.Quota
  | some b => g.allowBurst quota b
  | none => quota

/-- `quota_from_window`. -/
def quotaFromWindow (window : RateLimitWindow) (burst : Option NonZeroU32) :
    UtilsResult g.Quota := do
  let quota ← match window with
    | .perSecond allowed => .ok (g.perSecond allowed)
    | .perMinute allowed => .ok (g.perMinute allowed)
    | .custom period => match g.withPeriod period with
      | some quota => .ok quota
      | none => .error zeroPeriodReport
  .ok (g.withBurst quota burst)

variable {g}

private theorem Lawful.withBurst (hg : g.Lawful) (quota : g.Quota) (burst : Option NonZeroU32) :
    g.replenishInterval (g.withBurst quota burst) = g.replenishInterval quota := by
  cases burst with
  | none => rfl
  | some b => exact hg.allowBurst quota b

/-- **The quota of a window.** A zero period is rejected; the quota of any other period has that
period, and the cells of a second or a minute have at most a minute. -/
theorem quotaFromWindow_spec (hg : g.Lawful) (window : RateLimitWindow)
    (burst : Option NonZeroU32) :
    (∃ period, window = .custom period ∧ period.toNanos = 0 ∧
        g.quotaFromWindow window burst = .error zeroPeriodReport) ∨
      ∃ quota, g.quotaFromWindow window burst = .ok quota ∧
        match window with
        | .custom period => period.toNanos ≠ 0 ∧ g.replenishInterval quota = period
        | _ => (g.replenishInterval quota).toNanos ≤ 60 * nanosPerSec := by
  cases window with
  | perSecond n =>
    refine Or.inr ⟨_, rfl, ?_⟩
    have hle := Nat.le_trans (Nat.le_mul_of_pos_left _ n.property.1) (hg.perSecond n)
    simp only [hg.withBurst]
    omega
  | perMinute n =>
    refine Or.inr ⟨_, rfl, ?_⟩
    simp only [hg.withBurst]
    exact Nat.le_trans (Nat.le_mul_of_pos_left _ n.property.1) (hg.perMinute n)
  | custom period =>
    cases hquota : g.withPeriod period with
    | none =>
      refine Or.inl ⟨period, rfl, hg.withPeriod_eq_none_iff.mp hquota, ?_⟩
      simp only [quotaFromWindow, hquota]
      rfl
    | some quota =>
      refine Or.inr ⟨g.withBurst quota burst, ?_, fun hzero => ?_, ?_⟩
      · simp only [quotaFromWindow, hquota]
        rfl
      · simp [hg.withPeriod_eq_none_iff.mpr hzero] at hquota
      · rw [hg.withBurst, hg.withPeriod hquota]

theorem one_isNonZeroU32 : 0 < 1 ∧ 1 < 2 ^ 32 := by decide

/-- A governor whose quotas are a burst and a period, and whose limiters are their quotas, if the
periods of the burst fit a `u64`. -/
def plain : Governor where
  Quota := NonZeroU32 × Duration
  perSecond n := (n, Duration.fromNanos (nanosPerSec / n.val))
  perMinute n := (n, Duration.fromNanos (60 * nanosPerSec / n.val))
  withPeriod period := if period.toNanos = 0 then none else some (⟨1, one_isNonZeroU32⟩, period)
  allowBurst quota burst := (burst, quota.2)
  replenishInterval quota := quota.2
  Direct := NonZeroU32 × Duration
  direct quota := if quota.1.val * quota.2.toNanos < 2 ^ 64 then some quota else none
  Keyed _ := NonZeroU32 × Duration
  keyed _ quota := if quota.1.val * quota.2.toNanos < 2 ^ 64 then some quota else none

theorem lawful_plain : plain.Lawful := by
  have hshare : ∀ (k : ℕ) (n : NonZeroU32), k < 2 ^ 64 →
      n.val * (Duration.fromNanos (k / n.val)).toNanos ≤ k := by
    intro k n hk
    rw [Duration.toNanos_fromNanos (Nat.lt_of_le_of_lt (Nat.div_le_self _ _) hk)]
    exact Nat.mul_div_le k n.val
  have hlong : ∀ quota : NonZeroU32 × Duration, 2 ^ 64 ≤ quota.2.toNanos →
      ¬quota.1.val * quota.2.toNanos < 2 ^ 64 := fun quota h =>
    Nat.not_lt.mpr (h.trans (Nat.le_mul_of_pos_left _ quota.1.property.1))
  refine ⟨fun n => hshare _ n (by decide), fun n => hshare _ n (by decide), ?_, ?_,
    fun _ _ => rfl, fun h => if_neg (hlong _ h), fun h _ => if_neg (hlong _ h)⟩
  · exact fun {period} => by simp [plain]
  · intro period quota h
    obtain ⟨-, hquota⟩ := Option.ite_none_left_eq_some.mp h
    rw [← Option.some_inj.mp hquota]
    rfl

end Governor

namespace RateLimitWindow

variable {n : NonZeroU32} {unit : Char} {w : RateLimitWindow}

/-- A numeral and a unit never stand for a zero period. -/
private theorem Names.toNanos_ne_zero {period : Duration} (h : Names n unit (custom period)) :
    period.toNanos ≠ 0 := by
  have hpos := n.property.1
  cases h with
  | hour h | day h =>
    rw [h, nanosPerSec]
    omega

/-! ### The laws of the parser -/

/-- **The parser panics on multi-byte characters.** It has a result, which is `None` for every bad
unit, if and only if the string is empty or ends in an ASCII character. -/
theorem fromString_total_iff (s : List Char) :
    ((∃ result, fromString s = some result) ∧
      ∀ numeral unit, s = numeral ++ [unit] → unit ∉ units → fromString s = some none) ↔
    ∀ c, s.getLast? = some c → c.toNat < 128 := by
  rcases s.eq_nil_or_concat with rfl | ⟨numeral, unit, rfl⟩
  · simp [fromString]
  · rw [List.concat_eq_append, List.getLast?_concat]
    constructor
    · rintro ⟨⟨result, hresult⟩, -⟩ c hc
      obtain rfl := Option.some_inj.mp hc
      rw [← Utf8.utf8Size_eq_one_iff]
      by_contra hne
      rw [fromString_snoc, if_neg hne] at hresult
      contradiction
    · intro hascii
      have hunit : unit.utf8Size = 1 := Utf8.utf8Size_eq_one_iff.mpr (hascii unit rfl)
      rcases fromString_spec numeral hunit with ⟨n, w, hdenotes, hnames, hw⟩ | ⟨hnone, hw⟩
      · refine ⟨⟨_, hw⟩, fun numeral' unit' heq hbad => ?_⟩
        obtain ⟨-, hlast⟩ := List.append_inj' heq rfl
        exact absurd (List.singleton_inj.mp hlast ▸ hnames.mem_units) hbad
      · exact ⟨⟨_, hw⟩, fun _ _ _ _ => hw⟩

/-- A ten and an accented letter of two bytes. -/
theorem fromString_panics : fromString ['1', '0', 'é'] = none := by decide

/-- **The parser and its grammar.** It accepts exactly a numeral of a positive `u32` and a unit, and
gives the window they stand for, so it reads back every number and unit; zero and numbers that
exceed a `u32` are rejected; and there is a quota for every window it gives. -/
theorem fromString_grammar {g : Governor} (hg : g.Lawful) :
    (∀ s w, fromString s = some (some w) ↔ ∃ numeral unit n, s = numeral ++ [unit] ∧
      Numeral.Denotes numeral n.val ∧ Names n unit w) ∧
    (∀ n : NonZeroU32, ∀ unit ∈ units, ∃ w, Names n unit w ∧
      fromString ((toString n.val).toList ++ [unit]) = some (some w)) ∧
    (∀ numeral n unit, Numeral.Denotes numeral n → n = 0 ∨ 2 ^ 32 ≤ n → unit.toNat < 128 →
      fromString (numeral ++ [unit]) = some none) ∧
    ∀ s w burst, fromString s = some (some w) →
      ∃ quota, g.quotaFromWindow w burst = .ok quota := by
  refine ⟨fun s w => fromString_eq_some_iff, fun n unit hunit => ?_,
    fun numeral n unit hdenotes hrange hascii => ?_, fun s w burst hw => ?_⟩
  · rcases ofUnit_spec n unit with ⟨w, hnames, -⟩ | ⟨hbad, -⟩
    · refine ⟨w, hnames, fromString_eq_some_iff.mpr ⟨_, unit, n, rfl, ?_, hnames⟩⟩
      rw [Nat.toString_eq_ofList_toDigits, String.toList_ofList]
      exact Numeral.denotes_toDigits n.val
    · exact absurd hunit hbad
  · rcases fromString_spec numeral (Utf8.utf8Size_eq_one_iff.mpr hascii) with
      ⟨m, w, hm, -, -⟩ | ⟨-, hnone⟩
    · have hval := hdenotes.unique hm
      have hm := m.property
      omega
    · exact hnone
  · obtain ⟨numeral, unit, n, -, -, hnames⟩ := fromString_eq_some_iff.mp hw
    rcases Governor.quotaFromWindow_spec hg w burst with ⟨period, rfl, hzero, -⟩ | ⟨quota, hq, -⟩
    · exact absurd hzero hnames.toNanos_ne_zero
    · exact ⟨quota, hq⟩

/-- Two hours, with a sign and a leading zero. -/
theorem fromString_grammar_twoHours :
    ∃ w, fromString ['+', '0', '2', 'h'] = some (some w) ∧
      ∃ quota, Governor.plain.quotaFromWindow w none = .ok quota := by
  have hw : fromString ['+', '0', '2', 'h'] =
      some (some (custom (Duration.fromSecs 7200))) := by decide
  exact ⟨_, hw, (fromString_grammar Governor.lawful_plain).2.2.2 _ _ none hw⟩

end RateLimitWindow

end RustUtils
