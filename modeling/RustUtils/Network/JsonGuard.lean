import RustUtils.Network.Validation

/-!
# `validate_and_parse_json` as a guard

What stands between the bytes of a peer and `serde_json`, for any deserializer. The deserializer is
shown the bytes only if they are within the size limit and no part of them that could begin a JSON
text opens more containers than the depth limit (`KeepsDepth`), so a deserializer that descends into
the containers of its input never descends deeper than that. And on a JSON text within both limits
the guard does not show: the value or the failure is that of the deserializer alone.
-/

namespace RustUtils

open Json

/-- No prefix of the bytes that begins a JSON text has more than `maxDepth` containers open. -/
def KeepsDepth (maxDepth : ℕ) (data : List UInt8) : Prop :=
  ∀ (t : Text) (p : List UInt8), p <+: data → p <+: t.bytes →
    (t.cursorAt p.length).opened ≤ maxDepth

variable {maxDepth : ℕ}

/-! ### What the scan accepts -/

/-- Accepted bytes keep the depth limit, whether or not they are JSON. -/
private theorem keepsDepth_of_valid {data : List UInt8}
    (hok : validateJsonStructure data maxDepth = .ok ()) : KeepsDepth maxDepth data :=
  fun _ _ hdata hp => (within_of_valid hok hdata hp).opened_after_le (Nat.zero_le _)

/-! ### Errors -/

/-- The scan's body fails with `Internal` only. -/
private theorem internal_of_scanByte {position : ℕ} {s : ScanState} {byte : UInt8} {e : UtilsReport}
    (h : scanByte maxDepth position s byte = .error e) : e.currentContext = .internal := by
  unfold scanByte at h
  dsimp only at h
  split_ifs at h
  all_goals first | contradiction | exact (Except.error.inj h) ▸ rfl

/-- The scan's loop fails with `Internal` only. -/
private theorem internal_of_scanFrom {i : ℕ} {s : ScanState} {data : List UInt8} {e : UtilsReport}
    (h : scanFrom maxDepth i s data = .error e) : e.currentContext = .internal := by
  induction data generalizing i s with
  | nil => contradiction
  | cons byte data ih =>
    rw [scanFrom_cons] at h
    cases hbyte : scanByte maxDepth (i + 1) s byte with
    | error e' =>
      rw [hbyte] at h
      exact (Except.error.inj h) ▸ internal_of_scanByte hbyte
    | ok s' =>
      rw [hbyte] at h
      exact ih h

/-- The validator fails with `Internal` only. -/
private theorem internal_of_validate {data : List UInt8} {e : UtilsReport}
    (h : validateJsonStructure data maxDepth = .error e) : e.currentContext = .internal := by
  rw [validateJsonStructure_eq] at h
  cases hscan : scan maxDepth data with
  | error e' =>
    rw [hscan] at h
    exact (Except.error.inj h) ▸ internal_of_scanFrom hscan
  | ok s =>
    rw [hscan] at h
    simp only [Except.bind, scanEnd] at h
    split_ifs at h
    all_goals first | contradiction | exact (Except.error.inj h) ▸ rfl

/-! ### The guard -/

section

variable {α : Type} (fromSlice : List UInt8 → Except String α) (data : List UInt8)

/-- What the deserializer returns, as the guard passes it on. -/
def deserialized : UtilsResult α :=
  match fromSlice data with
  | .ok value => .ok value
  | .error display =>
    .error ((UtilsReport.fromForeign display .internal).attach "JSON deserialization failed")

/-- Turning the deserializer's error into a report keeps its values. -/
private theorem deserialized_eq_ok_iff {v : α} :
    deserialized fromSlice data = .ok v ↔ fromSlice data = .ok v := by
  unfold deserialized
  cases fromSlice data <;> simp

/-- The deserializer's error is reported as `Internal`. -/
private theorem internal_of_deserialized {e : UtilsReport}
    (h : deserialized fromSlice data = .error e) :
    e.currentContext = .internal := by
  unfold deserialized at h
  split at h
  · contradiction
  · exact (Except.error.inj h) ▸ rfl

/-- The guard, by what the scan returns. -/
private theorem validateAndParseJson_eq (maxSize maxDepth : ℕ) :
    validateAndParseJson fromSlice data maxSize maxDepth =
      if maxSize < data.length then
        .error ((UtilsReport.new .internal).attach
          s!"request body too large: {data.length} bytes (max: {maxSize})")
      else (validateJsonStructure data maxDepth).bind fun _ => deserialized fromSlice data := by
  unfold validateAndParseJson deserialized
  split_ifs with hsize
  · rfl
  · cases validateJsonStructure data maxDepth with
    | error e => rfl
    | ok u => cases fromSlice data <;> rfl

/-- **The guard.** Whatever the bytes and the deserializer are: every error is an `Internal` one.
The result does not depend on the deserializer unless the bytes are within the size limit and keep
the depth limit. And a JSON text is deserialized to a value exactly if it is within both limits and
the deserializer returns this value for it. -/
theorem validate_and_parse_law (maxSize maxDepth : ℕ) :
    (∀ e, validateAndParseJson fromSlice data maxSize maxDepth = .error e →
      e.currentContext = .internal) ∧
    (∀ fromSlice' : List UInt8 → Except String α,
      (data.length ≤ maxSize → KeepsDepth maxDepth data → fromSlice' data = fromSlice data) →
      validateAndParseJson fromSlice' data maxSize maxDepth =
        validateAndParseJson fromSlice data maxSize maxDepth) ∧
    (∀ (t : Text) (v : α), t.bytes = data →
      (validateAndParseJson fromSlice data maxSize maxDepth = .ok v ↔
        data.length ≤ maxSize ∧ t.nesting ≤ maxDepth ∧ fromSlice data = .ok v)) := by
  refine ⟨fun e he => ?_, fun fromSlice' hsame => ?_, fun t v ht => ?_⟩
  · rw [validateAndParseJson_eq] at he
    split_ifs at he with hsize
    · exact (Except.error.inj he) ▸ rfl
    · cases hvalid : validateJsonStructure data maxDepth with
      | error e' =>
        rw [hvalid] at he
        exact (Except.error.inj he) ▸ internal_of_validate hvalid
      | ok u =>
        rw [hvalid] at he
        exact internal_of_deserialized fromSlice data he
  · rw [validateAndParseJson_eq, validateAndParseJson_eq]
    split_ifs with hsize
    · rfl
    · cases hvalid : validateJsonStructure data maxDepth with
      | error e => rfl
      | ok u =>
        have heq := hsame (Nat.le_of_not_lt hsize) (keepsDepth_of_valid hvalid)
        simp only [Except.bind, deserialized, heq]
  · subst ht
    rw [validateAndParseJson_eq, ← valid_text_iff]
    split_ifs with hsize
    · exact iff_of_false (by simp) fun h => absurd h.1 (Nat.not_le.mpr hsize)
    · cases hvalid : validateJsonStructure t.bytes maxDepth with
      | error e => exact iff_of_false (by simp [Except.bind]) (by simp)
      | ok u =>
        simpa [Except.bind, Nat.le_of_not_lt hsize] using deserialized_eq_ok_iff fromSlice t.bytes

end

end RustUtils
