import RustUtils.BackoffCurve
import RustUtils.Json.Layout
import RustUtils.Network.Validation

/-!
# The structure scan on arbitrary bytes

`Json.openLiteral` and `Json.balance` say where string literals end and how the brackets outside
them add up, and `ScanState.after` are the variables that the scan ought to have after some bytes:
the flag stands for the parity of a run of backslashes. `scanByte_after` is the step of the scan,
and `scan_after` the loop. The scan fails at the first prefix whose balance leaves the limits
(`structure_scan_law`).

The last section repeats the scan in machine arithmetic, with every value the counter takes.
-/

namespace RustUtils

open Json

/-! ### The reports -/

/-- The depth limit is exceeded at a position. -/
def depthLimitReport (maxDepth position : ℕ) : UtilsReport :=
  (UtilsReport.new .internal).attach
    s!"JSON depth limit exceeded at position {position}: depth {maxDepth + 1}, max {maxDepth}"

/-- A closing bracket has no match. -/
def unmatchedClosingReport (position : ℕ) : UtilsReport :=
  (UtilsReport.new .internal).attach
    s!"invalid JSON: unmatched closing bracket at position {position}"

/-- A literal is not closed. -/
def unterminatedReport : UtilsReport :=
  (UtilsReport.new .internal).attach "invalid JSON: unterminated string literal"

/-- Opening brackets have no match. -/
def unmatchedOpeningReport (count : ℕ) : UtilsReport :=
  (UtilsReport.new .internal).attach s!"invalid JSON: {count} unmatched opening bracket(s)"

/-! ### The loop -/

/-- The variables of the scan after the bytes. -/
def ScanState.after (data : List UInt8) : ScanState where
  currentDepth := (balance data).toNat
  insideString := (openLiteral data).isSome
  escaped := (openLiteral data).any fun body => !decide (Closes body)

/-- The balance of the brackets is within the limits. -/
def InRange (maxDepth : ℕ) (data : List UInt8) : Prop :=
  0 ≤ balance data ∧ balance data ≤ maxDepth

private theorem ScanState.after_of_some {data body : List UInt8}
    (h : openLiteral data = some body) :
    ScanState.after data = ⟨(balance data).toNat, true, !decide (Closes body)⟩ := by
  simp [after, h]

private theorem ScanState.after_of_none {data : List UInt8} (h : openLiteral data = none) :
    ScanState.after data = ⟨(balance data).toNat, false, false⟩ := by
  simp [after, h]

/-- A byte inside a literal: the flag is the parity of the run of backslashes. -/
private theorem scanByte_inside {data body : List UInt8} (h : openLiteral data = some body)
    (maxDepth position : ℕ) (byte : UInt8) :
    balance (data ++ [byte]) = balance data ∧
      scanByte maxDepth position (.after data) byte = .ok (.after (data ++ [byte])) := by
  have hbalance : balance (data ++ [byte]) = balance data := by simp [balance_snoc, h]
  refine ⟨hbalance, ?_⟩
  rw [ScanState.after_of_some h]
  by_cases hends : byte = 0x22 ∧ Closes body
  · have hliteral : openLiteral (data ++ [byte]) = none := by simp [h, literalAfter, hends]
    rw [ScanState.after_of_none hliteral, hbalance]
    simp [scanByte, hends]
  · have hliteral : openLiteral (data ++ [byte]) = some (body ++ [byte]) := by
      simp [h, literalAfter, hends]
    rw [ScanState.after_of_some hliteral, hbalance]
    by_cases hcloses : Closes body
    · -- the run before this byte is even
      have hquote : byte ≠ 0x22 := fun hquote => hends ⟨hquote, hcloses⟩
      by_cases hbackslash : byte = 0x5C <;>
        simp [scanByte, closes_snoc_iff, hcloses, hquote, hbackslash]
    · simp [scanByte, closes_snoc_iff, hcloses]

/-- A byte outside all literals. -/
private theorem scanByte_outside {maxDepth : ℕ} {data : List UInt8} (h : openLiteral data = none)
    (hrange : InRange maxDepth data) (position : ℕ) (byte : UInt8) :
    scanByte maxDepth position (.after data) byte =
      if balance (data ++ [byte]) < 0 then .error (unmatchedClosingReport position)
      else if maxDepth < balance (data ++ [byte]) then
        .error (depthLimitReport maxDepth position)
      else .ok (.after (data ++ [byte])) := by
  obtain ⟨hnonneg, hle⟩ := hrange
  have hbalance : balance (data ++ [byte]) = balance data + bracketValue byte := by
    simp [balance_snoc, h]
  have hopen : openLiteral (data ++ [byte]) = if byte = 0x22 then some [] else none := by
    simp [h, literalAfter]
  obtain ⟨depth, hdepth⟩ := Int.eq_ofNat_of_zero_le hnonneg
  rw [hdepth] at hbalance hle
  rw [ScanState.after_of_none h, hdepth]
  by_cases hquote : byte = 0x22
  · -- a quote opens a literal
    have hvalue : bracketValue byte = 0 := by rw [hquote]; rfl
    rw [hvalue, add_zero] at hbalance
    rw [if_pos hquote] at hopen
    rw [ScanState.after_of_some hopen, hbalance, if_neg (by omega), if_neg (by omega)]
    simp [scanByte, hquote, Closes, trailingBackslashes]
  · rw [if_neg hquote] at hopen
    rw [ScanState.after_of_none hopen, hbalance]
    by_cases hup : byte = 0x7B ∨ byte = 0x5B
    · have hvalue : bracketValue byte = 1 := if_pos hup
      rw [hvalue]
      have hscan : scanByte maxDepth position ⟨depth, false, false⟩ byte =
          if maxDepth < depth + 1 then .error (depthLimitReport maxDepth position)
          else .ok ⟨depth + 1, false, false⟩ := by
        by_cases hlimit : maxDepth < depth + 1
        · obtain rfl : depth = maxDepth := by omega
          simp [scanByte, hquote, hup, depthLimitReport]
        · simp [scanByte, hquote, hup, hlimit]
      rw [Int.toNat_natCast, hscan, if_neg (show ¬(depth + 1 : ℤ) < 0 by omega)]
      refine if_congr (by omega) rfl ?_
      rfl
    · by_cases hdown : byte = 0x7D ∨ byte = 0x5D
      · have hvalue : bracketValue byte = -1 := by rw [bracketValue, if_neg hup, if_pos hdown]
        have hscan : scanByte maxDepth position ⟨depth, false, false⟩ byte =
            if depth = 0 then .error (unmatchedClosingReport position)
            else .ok ⟨depth - 1, false, false⟩ := by
          by_cases hzero : depth = 0 <;>
            simp [scanByte, hquote, hup, hdown, hzero, unmatchedClosingReport]
        rw [hvalue, Int.toNat_natCast, hscan, if_neg (show ¬(maxDepth : ℤ) < depth + -1 by omega)]
        refine if_congr (by omega) rfl ?_
        rw [show ((depth : ℤ) + -1).toNat = depth - 1 by omega]
      · have hvalue : bracketValue byte = 0 := by rw [bracketValue, if_neg hup, if_neg hdown]
        rw [hvalue, add_zero, if_neg (by omega), if_neg (by omega)]
        simp [scanByte, hquote, hup, hdown]

/-- **One byte of the scan**, after bytes within the limits. -/
theorem scanByte_after {maxDepth : ℕ} {data : List UInt8} (h : InRange maxDepth data)
    (position : ℕ) (byte : UInt8) :
    scanByte maxDepth position (.after data) byte =
      if balance (data ++ [byte]) < 0 then .error (unmatchedClosingReport position)
      else if maxDepth < balance (data ++ [byte]) then
        .error (depthLimitReport maxDepth position)
      else .ok (.after (data ++ [byte])) := by
  cases hliteral : openLiteral data with
  | none => exact scanByte_outside hliteral h position byte
  | some body =>
    obtain ⟨hbalance, hscan⟩ := scanByte_inside hliteral maxDepth position byte
    rw [hscan, hbalance, if_neg (Int.not_lt.mpr h.1), if_neg (Int.not_lt.mpr h.2)]

private theorem scanFrom_append (maxDepth i : ℕ) (s : ScanState) (xs ys : List UInt8) :
    scanFrom maxDepth i s (xs ++ ys) =
      (scanFrom maxDepth i s xs).bind fun s' => scanFrom maxDepth (i + xs.length) s' ys := by
  induction xs generalizing i s with
  | nil => rfl
  | cons byte xs ih =>
    rw [List.cons_append, scanFrom_cons, scanFrom_cons]
    cases scanByte maxDepth (i + 1) s byte with
    | error e => rfl
    | ok s' =>
      refine (ih (i + 1) s').trans ?_
      rw [List.length_cons, Nat.add_assoc i, Nat.add_comm 1]
      rfl

/-- **The scan's loop**, as long as the balance stays within the limits. -/
theorem scan_after {maxDepth : ℕ} {data : List UInt8}
    (h : ∀ k ≤ data.length, InRange maxDepth (data.take k)) :
    scan maxDepth data = .ok (.after data) := by
  induction data using List.reverseRecOn with
  | nil => rfl
  | append_singleton data byte ih =>
    have hearlier : ∀ k ≤ data.length, InRange maxDepth (data.take k) := by
      intro k hk
      rw [← List.take_append_of_le_length hk]
      exact h k (hk.trans (by simp))
    have hdata := hearlier _ le_rfl
    have hlast := h _ le_rfl
    rw [List.take_length] at hdata hlast
    have hscan : scanFrom maxDepth 0 ⟨0, false, false⟩ data = .ok (.after data) := ih hearlier
    have hbyte := scanByte_after hdata (0 + data.length + 1) byte
    rw [if_neg (Int.not_lt.mpr hlast.1), if_neg (Int.not_lt.mpr hlast.2)] at hbyte
    rw [scan, scanFrom_append, hscan, Except.bind, scanFrom_cons, hbyte]
    rfl

/-- **The scan fails where the balance first leaves the limits**, on the side on which it does. -/
theorem scan_of_leaves {maxDepth : ℕ} {before after : List UInt8} {byte : UInt8}
    (h : ∀ k ≤ before.length, InRange maxDepth (before.take k))
    (hleaves : ¬InRange maxDepth (before ++ [byte])) :
    scan maxDepth (before ++ byte :: after) =
      if balance (before ++ [byte]) < 0 then .error (unmatchedClosingReport (before.length + 1))
      else .error (depthLimitReport maxDepth (before.length + 1)) := by
  have hbefore := h _ le_rfl
  rw [List.take_length] at hbefore
  have hscan : scanFrom maxDepth 0 ⟨0, false, false⟩ before = .ok (.after before) := scan_after h
  have hbyte := scanByte_after hbefore (0 + before.length + 1) byte
  rw [scan, scanFrom_append, hscan, Except.bind, scanFrom_cons, hbyte, Nat.zero_add]
  by_cases hneg : balance (before ++ [byte]) < 0
  · rw [if_pos hneg, if_pos hneg]
    rfl
  · have hover : (maxDepth : ℤ) < balance (before ++ [byte]) :=
      Int.not_le.mp fun hle => hleaves ⟨Int.not_lt.mp hneg, hle⟩
    rw [if_neg hneg, if_neg hneg, if_pos hover]
    rfl

/-- The first prefix whose balance leaves the limits. -/
def FirstLeaves (maxDepth : ℕ) (data : List UInt8) (k : ℕ) : Prop :=
  IsLeast {k | k ≤ data.length ∧ ¬InRange maxDepth (data.take k)} k

private theorem inRange_or_firstLeaves (maxDepth : ℕ) (data : List UInt8) :
    (∀ k ≤ data.length, InRange maxDepth (data.take k)) ∨ ∃ k, FirstLeaves maxDepth data k := by
  classical
  refine or_iff_not_imp_left.mpr fun h => ?_
  simp only [not_forall] at h
  obtain ⟨k, hk, hleaves⟩ := h
  have hex : ∃ k, k ≤ data.length ∧ ¬InRange maxDepth (data.take k) := ⟨k, hk, hleaves⟩
  exact ⟨Nat.find hex, Nat.find_spec hex, fun j hj => Nat.find_min' hex hj⟩

private theorem scan_of_firstLeaves {maxDepth k : ℕ} {data : List UInt8}
    (h : FirstLeaves maxDepth data k) :
    scan maxDepth data = if balance (data.take k) < 0 then .error (unmatchedClosingReport k)
      else .error (depthLimitReport maxDepth k) := by
  obtain ⟨⟨hk, hleaves⟩, hleast⟩ := h
  -- the empty prefix is within the limits
  obtain ⟨m, rfl⟩ : ∃ m, k = m + 1 := by
    refine Nat.exists_eq_succ_of_ne_zero fun hzero => hleaves ?_
    rw [hzero, List.take_zero]
    exact ⟨le_rfl, Int.natCast_nonneg maxDepth⟩
  have hsplit : data = data.take m ++ data[m] :: data.drop (m + 1) := by
    rw [List.getElem_cons_drop, List.take_append_drop]
  have hlength : (data.take m).length = m := List.length_take_of_le (Nat.le_of_succ_le hk)
  have hearlier : ∀ j ≤ (data.take m).length, InRange maxDepth ((data.take m).take j) := by
    intro j hj
    rw [hlength] at hj
    rw [List.take_take, Nat.min_eq_left hj]
    refine not_not.mp fun hout => ?_
    exact Nat.not_succ_le_self m ((hleast ⟨by omega, hout⟩).trans hj)
  have hprefix : data.take m ++ [data[m]] = data.take (m + 1) := List.take_append_getElem hk
  rw [← hprefix] at hleaves
  have hscan : scan maxDepth (data.take m ++ data[m] :: data.drop (m + 1)) = _ :=
    scan_of_leaves hearlier hleaves
  rwa [← hsplit, hprefix, hlength] at hscan

/-- The result of the scan is that of its loop, then of the checks after it. -/
private theorem validateJsonStructure_of_scan {maxDepth : ℕ} {data : List UInt8} {s : ScanState}
    (h : scan maxDepth data = .ok s) : validateJsonStructure data maxDepth = scanEnd s := by
  rw [validateJsonStructure, h]
  rfl

private theorem scanEnd_after_of_open {data body : List UInt8} (h : openLiteral data = some body) :
    scanEnd (.after data) = .error unterminatedReport := by
  rw [ScanState.after_of_some h]
  rfl

private theorem scanEnd_after_of_closed {data : List UInt8} (h : openLiteral data = none)
    (hnonneg : 0 ≤ balance data) :
    scanEnd (.after data) = if balance data = 0 then .ok ()
      else .error (unmatchedOpeningReport (balance data).toNat) := by
  rw [ScanState.after_of_none h]
  by_cases hzero : balance data = 0
  · rw [if_pos hzero, hzero]
    rfl
  · have hcount : (balance data).toNat ≠ 0 := by omega
    rw [if_neg hzero]
    exact (if_neg Bool.false_ne_true).trans (if_pos hcount)

/-- Within the limits the verdict is that of the checks after the loop. -/
private theorem validateJsonStructure_of_inRange {maxDepth : ℕ} {data : List UInt8}
    (h : ∀ k ≤ data.length, InRange maxDepth (data.take k)) :
    validateJsonStructure data maxDepth =
      if openLiteral data ≠ none then .error unterminatedReport
      else if balance data = 0 then .ok ()
      else .error (unmatchedOpeningReport (balance data).toNat) := by
  have hdata := h _ le_rfl
  rw [List.take_length] at hdata
  rw [validateJsonStructure_of_scan (scan_after h)]
  cases hliteral : openLiteral data with
  | none => rw [scanEnd_after_of_closed hliteral hdata.1, if_neg (not_not.mpr rfl)]
  | some body => rw [scanEnd_after_of_open hliteral, if_pos (Option.some_ne_none body)]

private theorem validateJsonStructure_of_firstLeaves {maxDepth k : ℕ} {data : List UInt8}
    (h : FirstLeaves maxDepth data k) :
    validateJsonStructure data maxDepth =
      if balance (data.take k) < 0 then .error (unmatchedClosingReport k)
      else .error (depthLimitReport maxDepth k) := by
  rw [validateJsonStructure, scan_of_firstLeaves h]
  split <;> rfl

/-! ### Machine arithmetic -/

/-- Subtraction of unsigned integers; an underflow is a panic. -/
def MachineArith.sub (a b : ℕ) : Option ℕ := if b ≤ a then some (a - b) else none

/-- The body of the scan's loop with a `usize` of `bits` bits, and the values that the counter
takes. -/
def machineByte (bits maxDepth position : ℕ) (s : ScanState) (byte : UInt8) :
    Option (List ℕ × UtilsResult ScanState) :=
  if s.insideString ∨ byte = 0x22 then some ([], scanByte maxDepth position s byte)
  else if byte = 0x7B ∨ byte = 0x5B then do
    let currentDepth ← MachineArith.add bits s.currentDepth 1
    some ([currentDepth], if maxDepth < currentDepth then
      .error ((UtilsReport.new .internal).attach
        s!"JSON depth limit exceeded at position {position}: depth {currentDepth}, max {maxDepth}")
    else .ok { s with currentDepth := currentDepth })
  else if byte = 0x7D ∨ byte = 0x5D then
    if s.currentDepth = 0 then some ([], scanByte maxDepth position s byte)
    else do
      let currentDepth ← MachineArith.sub s.currentDepth 1
      some ([currentDepth], .ok { s with currentDepth := currentDepth })
  else some ([], scanByte maxDepth position s byte)

/-- The scan's loop from index `i` on, in machine arithmetic. -/
def machineScanFrom (bits maxDepth : ℕ) :
    ℕ → ScanState → List UInt8 → Option (List ℕ × UtilsResult ScanState)
  | _, s, [] => some ([], .ok s)
  | i, s, byte :: data => do
    let position ← MachineArith.add bits i 1
    match ← machineByte bits maxDepth position s byte with
    | (values, .error report) => some (values, .error report)
    | (values, .ok s') => do
      let later ← machineScanFrom bits maxDepth position s' data
      some (values ++ later.1, later.2)

/-- A byte raises the counter by at most one, and not past the cap. -/
private theorem currentDepth_of_scanByte {maxDepth position : ℕ} {s s' : ScanState} {byte : UInt8}
    (hdepth : s.currentDepth ≤ maxDepth) (h : scanByte maxDepth position s byte = .ok s') :
    s'.currentDepth ≤ maxDepth ∧ s'.currentDepth ≤ s.currentDepth + 1 := by
  unfold scanByte at h
  dsimp only at h
  split_ifs at h
  -- a byte that is refused leaves no variables
  all_goals cases h
  all_goals grind

/-- A byte of the scan in machine arithmetic, while the counter fits. -/
private theorem machineByte_eq {bits maxDepth : ℕ} {s : ScanState}
    (hdepth : s.currentDepth ≤ maxDepth)
    (hfits : s.currentDepth + 1 < 2 ^ bits) (position : ℕ) (byte : UInt8) :
    ∃ values, machineByte bits maxDepth position s byte =
        some (values, scanByte maxDepth position s byte) ∧ ∀ v ∈ values, v ≤ maxDepth + 1 := by
  by_cases hkept : s.insideString ∨ byte = 0x22
  · exact ⟨[], by rw [machineByte, if_pos hkept], fun v hv => absurd hv List.not_mem_nil⟩
  · obtain ⟨hinside, hquote⟩ := not_or.mp hkept
    by_cases hup : byte = 0x7B ∨ byte = 0x5B
    · refine ⟨[s.currentDepth + 1], ?_, ?_⟩
      · rw [machineByte, if_neg hkept, if_pos hup, MachineArith.add_eq hfits]
        simp [scanByte, hinside, hquote, hup]
      · intro v hv
        obtain rfl := List.mem_singleton.mp hv
        exact Nat.succ_le_succ hdepth
    · by_cases hdown : byte = 0x7D ∨ byte = 0x5D
      · by_cases hzero : s.currentDepth = 0
        · exact ⟨[], by rw [machineByte, if_neg hkept, if_neg hup, if_pos hdown, if_pos hzero],
            fun v hv => absurd hv List.not_mem_nil⟩
        · have hsub : MachineArith.sub s.currentDepth 1 = some (s.currentDepth - 1) :=
            if_pos (Nat.pos_of_ne_zero hzero)
          refine ⟨[s.currentDepth - 1], ?_, ?_⟩
          · rw [machineByte, if_neg hkept, if_neg hup, if_pos hdown, if_neg hzero, hsub]
            simp [scanByte, hinside, hquote, hup, hdown, hzero]
          · intro v hv
            obtain rfl := List.mem_singleton.mp hv
            omega
      · exact ⟨[], by rw [machineByte, if_neg hkept, if_neg hup, if_neg hdown],
          fun v hv => absurd hv List.not_mem_nil⟩

/-- **The counter is safe.** A scan of at most `isize::MAX` bytes does not overflow or underflow,
and its counter is never more than one above the cap. -/
theorem machineScanFrom_eq {bits maxDepth i : ℕ} {s : ScanState} {data : List UInt8}
    (hlength : i + data.length < 2 ^ (bits - 1)) (hdepth : s.currentDepth ≤ maxDepth)
    (hindex : s.currentDepth ≤ i) :
    ∃ values, machineScanFrom bits maxDepth i s data =
        some (values, scanFrom maxDepth i s data) ∧ ∀ v ∈ values, v ≤ maxDepth + 1 := by
  have hbits : 2 ^ (bits - 1) ≤ 2 ^ bits := Nat.pow_le_pow_right (by decide) (Nat.sub_le _ _)
  induction data generalizing i s with
  | nil => exact ⟨[], rfl, fun v hv => absurd hv List.not_mem_nil⟩
  | cons byte data ih =>
    rw [List.length_cons] at hlength
    have hfits : s.currentDepth + 1 < 2 ^ bits := by omega
    obtain ⟨values, hbyte, hvalues⟩ := machineByte_eq hdepth hfits (i + 1) byte
    rw [scanFrom_cons, machineScanFrom, MachineArith.add_eq (by omega)]
    simp only [Option.bind_eq_bind, Option.bind_some, hbyte]
    cases hscan : scanByte maxDepth (i + 1) s byte with
    | error report => exact ⟨values, rfl, hvalues⟩
    | ok s' =>
      obtain ⟨hdepth', hindex'⟩ := currentDepth_of_scanByte hdepth hscan
      obtain ⟨later, hlater, hbound⟩ := ih (i := i + 1) (by omega) hdepth' (by omega)
      refine ⟨values ++ later, ?_, ?_⟩
      · simp only [hlater, Option.bind_some]
        rfl
      · intro v hv
        exact (List.mem_append.mp hv).elim (hvalues v) (hbound v)

/-! ### The law -/

/-- **The structure scan on arbitrary bytes.** The scan accepts exactly if every literal is closed,
every prefix of the bytes has a balance between zero and the limit, and the total is zero.
Otherwise it fails at the first prefix whose balance leaves these limits, on the side on which it
does; if there is none, with the unterminated literal; and else with the number of brackets that are
left open. In machine arithmetic nothing overflows or underflows. -/
theorem structure_scan_law (data : List UInt8) (maxDepth bits : ℕ)
    (hbits : data.length < 2 ^ (bits - 1)) :
    (validateJsonStructure data maxDepth = .ok () ↔ openLiteral data = none ∧
      (∀ k ≤ data.length, InRange maxDepth (data.take k)) ∧ balance data = 0) ∧
    (∀ k, FirstLeaves maxDepth data k →
      (balance (data.take k) < 0 →
        validateJsonStructure data maxDepth = .error (unmatchedClosingReport k)) ∧
      (maxDepth < balance (data.take k) →
        validateJsonStructure data maxDepth = .error (depthLimitReport maxDepth k))) ∧
    ((∀ k ≤ data.length, InRange maxDepth (data.take k)) →
      (openLiteral data ≠ none →
        validateJsonStructure data maxDepth = .error unterminatedReport) ∧
      (openLiteral data = none → balance data ≠ 0 → validateJsonStructure data maxDepth =
        .error (unmatchedOpeningReport (balance data).toNat))) ∧
    ∃ values, machineScanFrom bits maxDepth 0 ⟨0, false, false⟩ data =
      some (values, scan maxDepth data) ∧ ∀ v ∈ values, v ≤ maxDepth + 1 := by
  refine ⟨⟨fun h => ?_, ?_⟩, fun k hk => ⟨fun hneg => ?_, fun hover => ?_⟩,
    fun hrange => ⟨fun hopen => ?_, fun hclosed hne => ?_⟩,
    machineScanFrom_eq (by omega) (Nat.zero_le _) le_rfl⟩
  · rcases inRange_or_firstLeaves maxDepth data with hrange | ⟨k, hk⟩
    · rw [validateJsonStructure_of_inRange hrange] at h
      split_ifs at h with hopen hzero
      exact ⟨not_not.mp hopen, hrange, hzero⟩
    · rw [validateJsonStructure_of_firstLeaves hk] at h
      split at h <;> contradiction
  · rintro ⟨hclosed, hrange, hzero⟩
    rw [validateJsonStructure_of_inRange hrange, if_neg (not_not.mpr hclosed), if_pos hzero]
  · rw [validateJsonStructure_of_firstLeaves hk, if_pos hneg]
  · rw [validateJsonStructure_of_firstLeaves hk, if_neg (by omega)]
  · rw [validateJsonStructure_of_inRange hrange, if_pos hopen]
  · rw [validateJsonStructure_of_inRange hrange, if_neg (not_not.mpr hclosed), if_neg hne]

/-- A bracket in a literal, behind an escaped quote, does not close the one outside. -/
theorem structure_scan_law_bracketInLiteral :
    validateJsonStructure [0x7B, 0x22, 0x5C, 0x22, 0x7D, 0x22] 3 =
      .error (unmatchedOpeningReport 1) := by
  have h := structure_scan_law [0x7B, 0x22, 0x5C, 0x22, 0x7D, 0x22] 3 64 (by decide)
  refine (h.2.2.1 ?_).2 (by decide) (by decide)
  unfold InRange
  decide

end RustUtils
