import RustUtils.Error
import RustUtils.Json.Grammar

/-!
# The JSON structure scan

`validateJsonStructure` walks the bytes once with three variables. `Tracks` relates the scan
to the grammar: from the grammar's position, every byte takes the scan to the grammar's next
position, or past the cap. Every derivation tracks (`tracks_text`), by induction on the
syntax, so on JSON texts and their prefixes the scan computes the position of the grammar,
and `validate_agrees_with_grammar` follows.
-/

namespace RustUtils

/-! ### The scan -/

/-- The variables of the scan. -/
structure ScanState where
  currentDepth : ℕ
  insideString : Bool
  escaped : Bool
  deriving DecidableEq

/-- The body of the scan's loop. -/
def scanByte (maxDepth position : ℕ) (s : ScanState) (byte : UInt8) : UtilsResult ScanState :=
  if s.insideString then
    if s.escaped then .ok { s with escaped := false }
    else if byte = 0x5C then .ok { s with escaped := true }
    else if byte = 0x22 then .ok { s with insideString := false }
    else .ok s
  else if byte = 0x22 then .ok { s with insideString := true }
  else if byte = 0x7B ∨ byte = 0x5B then
    let currentDepth := s.currentDepth + 1
    if maxDepth < currentDepth then
      .error ((UtilsReport.new .internal).attach
        s!"JSON depth limit exceeded at position {position}: depth {currentDepth}, max {maxDepth}")
    else .ok { s with currentDepth := currentDepth }
  else if byte = 0x7D ∨ byte = 0x5D then
    if s.currentDepth = 0 then
      .error ((UtilsReport.new .internal).attach
        s!"invalid JSON: unmatched closing bracket at position {position}")
    else .ok { s with currentDepth := s.currentDepth - 1 }
  else .ok s

/-- The scan's loop from index `i` on. -/
def scanFrom (maxDepth : ℕ) : ℕ → ScanState → List UInt8 → UtilsResult ScanState
  | _, s, [] => .ok s
  | i, s, byte :: data => do
    let s' ← scanByte maxDepth (i + 1) s byte
    scanFrom maxDepth (i + 1) s' data

/-- The scan's loop. -/
def scan (maxDepth : ℕ) (data : List UInt8) : UtilsResult ScanState :=
  scanFrom maxDepth 0 ⟨0, false, false⟩ data

/-- The checks after the loop. -/
def scanEnd (s : ScanState) : UtilsResult Unit :=
  if s.insideString then
    .error ((UtilsReport.new .internal).attach "invalid JSON: unterminated string literal")
  else if s.currentDepth ≠ 0 then
    .error ((UtilsReport.new .internal).attach
      s!"invalid JSON: {s.currentDepth} unmatched opening bracket(s)")
  else .ok ()

/-- `validate_json_structure`. -/
def validateJsonStructure (data : List UInt8) (maxDepth : ℕ) : UtilsResult Unit := do
  let s ← scan maxDepth data
  scanEnd s

/-- `validate_and_parse_json`, over `serde_json::from_slice`, whose errors are given by their
`Display`. -/
def validateAndParseJson {α : Type} (fromSlice : List UInt8 → Except String α)
    (data : List UInt8) (maxRequestBodySize maxJsonDepth : ℕ) : UtilsResult α := do
  if maxRequestBodySize < data.length then
    throw ((UtilsReport.new .internal).attach
      s!"request body too large: {data.length} bytes (max: {maxRequestBodySize})")
  validateJsonStructure data maxJsonDepth
  match fromSlice data with
  | .ok value => pure value
  | .error display =>
    throw ((UtilsReport.fromForeign display .internal).attach "JSON deserialization failed")

/-! ### Prefixes -/

/-- The scan takes one byte and goes on from the next index. -/
theorem scanFrom_cons (maxDepth i : ℕ) (s : ScanState) (byte : UInt8) (data : List UInt8) :
    scanFrom maxDepth i s (byte :: data) =
      (scanByte maxDepth (i + 1) s byte).bind fun s' => scanFrom maxDepth (i + 1) s' data := rfl

/-- A scan that succeeds has succeeded on every prefix. -/
private theorem scanFrom_of_append {maxDepth i : ℕ} {s s' : ScanState} {xs ys : List UInt8}
    (h : scanFrom maxDepth i s (xs ++ ys) = .ok s') : ∃ t, scanFrom maxDepth i s xs = .ok t := by
  induction xs generalizing i s with
  | nil => exact ⟨s, rfl⟩
  | cons byte xs ih =>
    rw [List.cons_append, scanFrom_cons] at h
    rw [scanFrom_cons]
    cases hbyte : scanByte maxDepth (i + 1) s byte with
    | error e => rw [hbyte] at h; cases h
    | ok s₁ =>
      rw [hbyte] at h
      exact ih h

/-! ### The scan and the grammar -/

open Json

/-- The scan's variables at a position of the grammar. -/
def ScanState.ofCursor (c : Cursor) : ScanState := ⟨c.opened, c.inString, c.inEscape⟩

/-- From the grammar's position the scan takes a byte to the grammar's next position, unless
that is past the cap. -/
def TracksMark (maxDepth : ℕ) (c : Cursor) (m : Mark) : Prop :=
  c.opened ≤ maxDepth → ∀ position,
    if m.cursor.opened ≤ maxDepth then
      scanByte maxDepth position (.ofCursor c) m.byte = .ok (.ofCursor m.cursor)
    else ∃ e, scanByte maxDepth position (.ofCursor c) m.byte = .error e

/-- The scan follows the grammar through the bytes. -/
def Tracks (maxDepth : ℕ) : Cursor → List Mark → Prop
  | _, [] => True
  | c, m :: ms => TracksMark maxDepth c m ∧ Tracks maxDepth m.cursor ms

variable {maxDepth : ℕ}

/-- The scan follows a concatenation part by part. -/
private theorem tracks_append {c : Cursor} {xs ys : List Mark} :
    Tracks maxDepth c (xs ++ ys) ↔ Tracks maxDepth c xs ∧ Tracks maxDepth (c.after xs) ys := by
  induction xs generalizing c with
  | nil => simp [Tracks, Cursor.after]
  | cons m xs ih => rw [List.cons_append, Tracks, Tracks, ih, Cursor.after, and_assoc]

/-- **The scan computes the position.** Along bytes that it tracks, the scan succeeds exactly
as long as the cap is kept, and then stands where the grammar stands. -/
theorem scanFrom_marks {c : Cursor} {ms : List Mark} (h : Tracks maxDepth c ms)
    (hc : c.opened ≤ maxDepth) (i : ℕ) :
    (Within maxDepth ms →
      scanFrom maxDepth i (.ofCursor c) (ms.map Mark.byte) = .ok (.ofCursor (c.after ms))) ∧
    (∀ s, scanFrom maxDepth i (.ofCursor c) (ms.map Mark.byte) = .ok s → Within maxDepth ms) := by
  induction ms generalizing c i with
  | nil => exact ⟨fun _ => rfl, fun _ _ m hm => absurd hm List.not_mem_nil⟩
  | cons m ms ih =>
    obtain ⟨hm, hms⟩ := h
    -- one byte: the scan goes where the grammar goes, or fails where the cap is broken
    have hstep := hm hc (i + 1)
    rw [List.map_cons, scanFrom_cons, Cursor.after, within_cons]
    by_cases hle : m.cursor.opened ≤ maxDepth
    · rw [if_pos hle] at hstep
      rw [hstep]
      obtain ⟨hok, hwithin⟩ := ih hms hle (i + 1)
      exact ⟨fun h => hok h.2, fun s hs => ⟨hle, hwithin s hs⟩⟩
    · rw [if_neg hle] at hstep
      obtain ⟨e, he⟩ := hstep
      rw [he]
      exact ⟨fun h => absurd h.1 hle, fun s hs => by cases hs⟩

/-! ### Every derivation tracks -/

/-- Outside literals a byte that is no delimiter is passed over. -/
private theorem tracksMark_plain {d : ℕ} {b : UInt8} (h : ¬IsDelimiter b) :
    TracksMark maxDepth ⟨d, false, false⟩ ⟨b, ⟨d, false, false⟩⟩ := by
  intro hd position
  simp only [IsDelimiter, not_or] at h
  obtain ⟨h1, h2, h3, h4, h5⟩ := h
  simp [hd, scanByte, ScanState.ofCursor, h1, h2, h3, h4, h5]

/-- Inside a literal a byte that may stand there as it is is passed over. -/
private theorem tracksMark_quoted {d : ℕ} {b : UInt8} (h : IsStringByte b) :
    TracksMark maxDepth ⟨d, true, false⟩ ⟨b, ⟨d, true, false⟩⟩ := by
  intro hd position
  simp [hd, scanByte, ScanState.ofCursor, h.1, h.2]

/-- Whatever byte comes after a backslash, it is skipped. -/
private theorem tracksMark_escape {d : ℕ} (b : UInt8) :
    TracksMark maxDepth ⟨d, true, true⟩ ⟨b, ⟨d, true, false⟩⟩ := by
  intro hd position
  simp [hd, scanByte, ScanState.ofCursor]

/-- An opening bracket is counted, up to the cap. -/
private theorem tracksMark_open {d : ℕ} {b : UInt8} (h : b = 0x5B ∨ b = 0x7B) :
    TracksMark maxDepth ⟨d, false, false⟩ ⟨b, ⟨d + 1, false, false⟩⟩ := by
  intro hd position
  by_cases hle : d + 1 ≤ maxDepth
  · rcases h with rfl | rfl <;>
      simp [scanByte, ScanState.ofCursor, hle, Nat.not_lt.mpr hle]
  · rcases h with rfl | rfl <;>
      simp [scanByte, ScanState.ofCursor, hle, Nat.lt_of_not_le hle]

/-- A closing bracket is taken off the count. -/
private theorem tracksMark_close {d : ℕ} {b : UInt8} (h : b = 0x5D ∨ b = 0x7D) :
    TracksMark maxDepth ⟨d + 1, false, false⟩ ⟨b, ⟨d, false, false⟩⟩ := by
  intro hd position
  have hle : d ≤ maxDepth := Nat.le_of_succ_le hd
  rcases h with rfl | rfl <;> simp [scanByte, ScanState.ofCursor, hle]

/-- The bytes from one position to another are tracked. -/
structure TracksTo (maxDepth : ℕ) (c : Cursor) (ms : List Mark) (c' : Cursor) : Prop where
  tracks : Tracks maxDepth c ms
  after : c.after ms = c'

private theorem TracksTo.nil (c : Cursor) : TracksTo maxDepth c [] c := ⟨trivial, rfl⟩

/-- A byte is tracked, and then the rest. -/
private theorem TracksTo.cons {c c' : Cursor} {m : Mark} {ms : List Mark}
    (hm : TracksMark maxDepth c m) (hms : TracksTo maxDepth m.cursor ms c') :
    TracksTo maxDepth c (m :: ms) c' :=
  ⟨⟨hm, hms.tracks⟩, hms.after⟩

/-- Tracked stretches join. -/
private theorem TracksTo.append {c c' c'' : Cursor} {xs ys : List Mark}
    (hxs : TracksTo maxDepth c xs c') (hys : TracksTo maxDepth c' ys c'') :
    TracksTo maxDepth c (xs ++ ys) c'' := by
  obtain ⟨htracks, rfl⟩ := hxs
  exact ⟨tracks_append.mpr ⟨htracks, hys.tracks⟩, by rw [Cursor.after_append, hys.after]⟩

/-- The scan passes over bytes without delimiters outside literals. -/
private theorem tracks_plain {d : ℕ} {bs : List UInt8} (h : ∀ b ∈ bs, ¬IsDelimiter b) :
    TracksTo maxDepth ⟨d, false, false⟩ (plain d bs) ⟨d, false, false⟩ := by
  induction bs with
  | nil => exact .nil _
  | cons b bs ih =>
    obtain ⟨hb, hbs⟩ := List.forall_mem_cons.mp h
    exact .cons (tracksMark_plain hb) (ih hbs)

/-- The scan passes over the plain bytes of a literal. -/
private theorem tracks_quoted {d : ℕ} {bs : List UInt8} (h : ∀ b ∈ bs, IsStringByte b) :
    TracksTo maxDepth ⟨d, true, false⟩ (quoted d bs) ⟨d, true, false⟩ := by
  induction bs with
  | nil => exact .nil _
  | cons b bs ih =>
    obtain ⟨hb, hbs⟩ := List.forall_mem_cons.mp h
    exact .cons (tracksMark_quoted hb) (ih hbs)

private theorem tracks_spaces {d : ℕ} (ws : List Space) :
    TracksTo maxDepth ⟨d, false, false⟩ (plain d (ws.map Space.byte)) ⟨d, false, false⟩ :=
  tracks_plain (List.forall_mem_map.mpr fun s _ => s.not_isDelimiter)

/-- The scan stays inside a literal over each of its characters, escaped or not. -/
private theorem tracks_stringChar {d : ℕ} (c : StringChar) :
    TracksTo maxDepth ⟨d, true, false⟩ (c.marks d) ⟨d, true, false⟩ := by
  cases c with
  | unescaped c => exact tracks_quoted c.isStringByte
  | escaped e =>
    -- the byte after the backslash is skipped, whatever it is; a quotation mark it may be
    obtain ⟨b, rest, hbytes, hrest⟩ := e.isStringByte
    have hbackslash : TracksMark maxDepth ⟨d, true, false⟩ ⟨0x5C, ⟨d, true, true⟩⟩ := by
      intro hd position
      simp [hd, scanByte, ScanState.ofCursor]
    rw [StringChar.marks, hbytes]
    exact .cons hbackslash (.cons (tracksMark_escape b) (tracks_quoted hrest))

/-- The scan enters a string and leaves it at the closing quotation mark. -/
private theorem tracks_str {d : ℕ} (s : Str) :
    TracksTo maxDepth ⟨d, false, false⟩ (s.marks d) ⟨d, false, false⟩ := by
  have hopen : TracksMark maxDepth ⟨d, false, false⟩ ⟨0x22, ⟨d, true, false⟩⟩ := by
    intro hd position
    simp [hd, scanByte, ScanState.ofCursor]
  have hclose : TracksMark maxDepth ⟨d, true, false⟩ ⟨0x22, ⟨d, false, false⟩⟩ := by
    intro hd position
    simp [hd, scanByte, ScanState.ofCursor]
  have hchars : TracksTo maxDepth ⟨d, true, false⟩ (s.flatMap (StringChar.marks d))
      ⟨d, true, false⟩ := by
    induction s with
    | nil => exact .nil _
    | cons c s ih => exact (tracks_stringChar c).append ih
  exact .cons hopen (hchars.append (.cons hclose (.nil _)))

/-- The scan passes over a comma or a colon and the white space around it. -/
private theorem tracks_separator {d : ℕ} {b : UInt8} (w : Around) (h : ¬IsDelimiter b) :
    TracksTo maxDepth ⟨d, false, false⟩ (w.separator d b) ⟨d, false, false⟩ := by
  refine tracks_plain (List.forall_mem_append.mpr ⟨?_, List.forall_mem_cons.mpr ⟨h, ?_⟩⟩)
  · exact List.forall_mem_map.mpr fun s _ => s.not_isDelimiter
  · exact List.forall_mem_map.mpr fun s _ => s.not_isDelimiter

/-- A bracketed list tracks if what is inside does, one level deeper. -/
private theorem tracks_bracketed {d : ℕ} {b b' : UInt8} {inner : List Mark} (left right : Around)
    (hb : b = 0x5B ∨ b = 0x7B) (hb' : b' = 0x5D ∨ b' = 0x7D)
    (h : TracksTo maxDepth ⟨d + 1, false, false⟩ inner ⟨d + 1, false, false⟩) :
    TracksTo maxDepth ⟨d, false, false⟩ (left.opening d b ++ inner ++ right.closing d b')
      ⟨d, false, false⟩ :=
  have hopen : TracksTo maxDepth ⟨d, false, false⟩ (left.opening d b) ⟨d + 1, false, false⟩ :=
    (tracks_spaces left.before).append (.cons (tracksMark_open hb) (tracks_spaces left.after))
  have hclose : TracksTo maxDepth ⟨d + 1, false, false⟩ (right.closing d b')
      ⟨d, false, false⟩ :=
    (tracks_spaces right.before).append (.cons (tracksMark_close hb') (tracks_spaces right.after))
  (hopen.append h).append hclose

mutual

private theorem tracks_value (d : ℕ) (v : Value) :
    TracksTo maxDepth ⟨d, false, false⟩ (v.marks d) ⟨d, false, false⟩ := by
  cases v with
  | false | null | true => exact tracks_plain (not_isDelimiter_of_all (by decide))
  | number n => exact tracks_plain n.not_isDelimiter
  | string s => exact tracks_str s
  | emptyArray left right =>
    simpa [Value.marks] using
      tracks_bracketed left right (Or.inl rfl) (Or.inl rfl) (.nil ⟨d + 1, Bool.false, Bool.false⟩)
  | emptyObject left right =>
    simpa [Value.marks] using
      tracks_bracketed left right (Or.inr rfl) (Or.inr rfl) (.nil ⟨d + 1, Bool.false, Bool.false⟩)
  | array left elements right =>
    exact tracks_bracketed left right (Or.inl rfl) (Or.inl rfl) (tracks_elements (d + 1) elements)
  | object left members right =>
    exact tracks_bracketed left right (Or.inr rfl) (Or.inr rfl) (tracks_members (d + 1) members)

/-- The same of the elements of an array. -/
theorem tracks_elements (d : ℕ) (es : Elements) :
    TracksTo maxDepth ⟨d, false, false⟩ (es.marks d) ⟨d, false, false⟩ := by
  cases es with
  | one v => exact tracks_value d v
  | cons v comma rest =>
    exact ((tracks_value d v).append (tracks_separator comma (by decide))).append
      (tracks_elements d rest)

/-- The same of the members of an object. -/
theorem tracks_members (d : ℕ) (ms : Members) :
    TracksTo maxDepth ⟨d, false, false⟩ (ms.marks d) ⟨d, false, false⟩ := by
  cases ms with
  | one name colon v =>
    exact ((tracks_str name).append (tracks_separator colon (by decide))).append
      (tracks_value d v)
  | cons name colon v comma rest =>
    exact ((((tracks_str name).append (tracks_separator colon (by decide))).append
      (tracks_value d v)).append (tracks_separator comma (by decide))).append
      (tracks_members d rest)

end

/-- The scan follows every text of the grammar, back to its initial position. -/
private theorem tracks_text (maxDepth : ℕ) (t : Text) : TracksTo maxDepth .start t.marks .start :=
  ((tracks_spaces t.before).append (tracks_value 0 t.value)).append (tracks_spaces t.after)

/-! ### Agreement -/

/-- The scan of a prefix of a text. -/
private theorem scan_of_isPrefix (maxDepth : ℕ) {t : Text} {p : List UInt8} (hp : p <+: t.bytes) :
    (Within maxDepth (t.marks.take p.length) →
      scan maxDepth p = .ok (.ofCursor (t.cursorAt p.length))) ∧
    (∀ s, scan maxDepth p = .ok s → Within maxDepth (t.marks.take p.length)) := by
  have hbytes : (t.marks.take p.length).map Mark.byte = p := by
    rw [List.map_take, ← Text.bytes]
    exact (List.prefix_iff_eq_take.mp hp).symm
  have htracks : Tracks maxDepth .start (t.marks.take p.length) := by
    have htext := (tracks_text maxDepth t).tracks
    rw [← List.take_append_drop p.length t.marks, tracks_append] at htext
    exact htext.1
  have hscan := scanFrom_marks htracks (Nat.zero_le _) 0
  rwa [hbytes] at hscan

/-- The scan, then the checks after it. -/
theorem validateJsonStructure_eq (data : List UInt8) (maxDepth : ℕ) :
    validateJsonStructure data maxDepth = (scan maxDepth data).bind scanEnd := rfl

/-- Acceptance of some bytes bounds every prefix that a text can have in common with them. -/
theorem within_of_valid {data : List UInt8} (hok : validateJsonStructure data maxDepth = .ok ())
    {t : Text} {p : List UInt8} (hdata : p <+: data) (hp : p <+: t.bytes) :
    Within maxDepth (t.marks.take p.length) := by
  obtain ⟨rest, rfl⟩ := hdata
  rw [validateJsonStructure_eq] at hok
  cases hscan : scan maxDepth (p ++ rest) with
  | error e =>
    rw [hscan] at hok
    contradiction
  | ok s =>
    obtain ⟨s', hs'⟩ := scanFrom_of_append hscan
    exact (scan_of_isPrefix maxDepth hp).2 s' hs'

/-- A JSON text is accepted exactly if it nests within the limit. -/
theorem valid_text_iff (t : Text) :
    validateJsonStructure t.bytes maxDepth = .ok () ↔ t.nesting ≤ maxDepth := by
  have hlength : t.bytes.length = t.marks.length := List.length_map _
  have htake : t.marks.take t.bytes.length = t.marks := by rw [hlength, List.take_length]
  rw [← t.within_iff]
  constructor
  · intro hok
    exact htake ▸ within_of_valid hok List.prefix_rfl List.prefix_rfl
  · intro hwithin
    have hscan := (scan_of_isPrefix maxDepth (List.prefix_refl t.bytes)).1 (by rwa [htake])
    -- at the end of a text nothing is open
    have hend : t.cursorAt t.bytes.length = .start := by
      rw [Text.cursorAt, htake, (tracks_text maxDepth t).after]
    rw [validateJsonStructure_eq, hscan, hend]
    rfl

/-- **The scan agrees with the grammar.** On a prefix of a JSON text that keeps the cap, the
scan succeeds with the number of containers open there and knows whether a string is open.
A JSON text is accepted iff it nests at most as deep as the cap. And when any bytes at all
are accepted, no prefix of them that extends to a JSON text has more containers open than
the cap. -/
theorem validate_agrees_with_grammar (maxDepth : ℕ) :
    (∀ (t : Text) (p : List UInt8), p <+: t.bytes →
      (∀ q, q <+: p → (t.cursorAt q.length).opened ≤ maxDepth) →
      ∃ s, scan maxDepth p = .ok s ∧ s.currentDepth = (t.cursorAt p.length).opened ∧
        s.insideString = (t.cursorAt p.length).inString) ∧
    (∀ t : Text, validateJsonStructure t.bytes maxDepth = .ok () ↔ t.nesting ≤ maxDepth) ∧
    (∀ data, validateJsonStructure data maxDepth = .ok () →
      ∀ (t : Text) (p : List UInt8), p <+: data → p <+: t.bytes →
        (t.cursorAt p.length).opened ≤ maxDepth) := by
  refine ⟨fun t p hp hkeeps => ?_, fun t => valid_text_iff t, fun data hok t p hdata hp => ?_⟩
  · have hwithin : Within maxDepth (t.marks.take p.length) := by
      refine Text.within_take fun k hk => ?_
      have hlen : (p.take k).length = k := List.length_take_of_le hk
      exact hlen ▸ hkeeps _ (List.take_prefix k p)
    exact ⟨_, (scan_of_isPrefix maxDepth hp).1 hwithin, rfl, rfl⟩
  · exact (within_of_valid hok hdata hp).opened_after_le (Nat.zero_le _)

/-- An array with one string, of a closing bracket and an escaped quotation mark. -/
def bracketInString : Text where
  before := []
  value := .array ⟨[], []⟩
    (.one (.string [.unescaped ⟨']', by decide⟩, .escaped .quotationMark])) ⟨[], []⟩
  after := []

theorem validate_agrees_with_grammar_bracketInString :
    validateJsonStructure bracketInString.bytes 1 = .ok () :=
  ((validate_agrees_with_grammar 1).2.1 bracketInString).mpr (by decide)

end RustUtils
