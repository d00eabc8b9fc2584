import Mathlib.Order.Lattice.Nat
import Mathlib.Tactic.Common

/-!
# The JSON grammar, with positions

The concrete syntax trees of RFC 8259: a `Text` derives one JSON text, with its insignificant
white space, its number tokens and the escapes of its strings. Unescaped characters are
Unicode scalar values in UTF-8.

Every tree spells its text as a list of `Mark`s, the bytes with the position the grammar is
in after each of them: how many objects and arrays are open, whether a string literal is
open, and whether an escape has just begun. `Text.bytes` is the text and `Text.cursorAt` the
position after a prefix of it. `Value.nesting` is the maximal nesting of objects and arrays;
`Text.within_iff` says that it is the largest number of containers open at any position.
-/

namespace Json

/-! ### Positions -/

/-- The position of the grammar between two bytes of a text. -/
structure Cursor where
  /-- The number of objects and arrays that are open. -/
  opened : ℕ
  /-- A string literal is open. -/
  inString : Bool
  /-- The backslash of an escape has just been read. -/
  inEscape : Bool
  deriving DecidableEq

/-- A byte of a text, with the position after it. -/
structure Mark where
  byte : UInt8
  cursor : Cursor
  deriving DecidableEq

/-- Bytes outside strings that open and close nothing. -/
def plain (d : ℕ) (bs : List UInt8) : List Mark := bs.map fun b => ⟨b, ⟨d, false, false⟩⟩

/-- Bytes inside a string that begin no escape and do not end it. -/
def quoted (d : ℕ) (bs : List UInt8) : List Mark := bs.map fun b => ⟨b, ⟨d, true, false⟩⟩

/-! ### White space -/

/-- `ws` is a list of these. -/
inductive Space where
  | space
  | tab
  | lineFeed
  | carriageReturn
  deriving DecidableEq

def Space.byte : Space → UInt8
  | space => 0x20
  | tab => 0x09
  | lineFeed => 0x0A
  | carriageReturn => 0x0D

/-- The white space around a structural character. -/
structure Around where
  before : List Space
  after : List Space

/-- A name separator or value separator. -/
def Around.separator (w : Around) (d : ℕ) (b : UInt8) : List Mark :=
  plain d (w.before.map Space.byte ++ b :: w.after.map Space.byte)

/-- The character that begins an object or array. -/
def Around.opening (w : Around) (d : ℕ) (b : UInt8) : List Mark :=
  plain d (w.before.map Space.byte) ++ ⟨b, ⟨d + 1, false, false⟩⟩ ::
    plain (d + 1) (w.after.map Space.byte)

/-- The character that ends an object or array. -/
def Around.closing (w : Around) (d : ℕ) (b : UInt8) : List Mark :=
  plain (d + 1) (w.before.map Space.byte) ++ ⟨b, ⟨d, false, false⟩⟩ ::
    plain d (w.after.map Space.byte)

/-! ### Numbers -/

/-- `DIGIT`. -/
def digit (k : Fin 10) : UInt8 := UInt8.ofNat (0x30 + k)

/-- `1*DIGIT`. -/
structure Digits where
  first : Fin 10
  rest : List (Fin 10)

def Digits.bytes (ds : Digits) : List UInt8 := digit ds.first :: ds.rest.map digit

/-- `int = zero / ( digit1-9 *DIGIT )`. -/
inductive IntPart where
  | zero
  | nonzero (first : Fin 9) (rest : List (Fin 10))

def IntPart.bytes : IntPart → List UInt8
  | zero => [0x30]
  | nonzero first rest => digit first.succ :: rest.map digit

/-- `exp = e [ minus / plus ] 1*DIGIT`. -/
structure Exponent where
  upper : Bool
  /-- The sign, negative for `true`. -/
  sign : Option Bool
  digits : Digits

def Exponent.bytes (e : Exponent) : List UInt8 :=
  (if e.upper then 0x45 else 0x65) ::
    (e.sign.toList.map fun negative => if negative then 0x2D else 0x2B) ++ e.digits.bytes

/-- `number = [ minus ] int [ frac ] [ exp ]`. -/
structure Number where
  minus : Bool
  int : IntPart
  frac : Option Digits
  exp : Option Exponent

def Number.bytes (n : Number) : List UInt8 :=
  (if n.minus then [0x2D] else []) ++ n.int.bytes ++
    (n.frac.toList.flatMap fun ds => 0x2E :: ds.bytes) ++
    n.exp.toList.flatMap Exponent.bytes

/-! ### Strings -/

/-- `HEXDIG`, in either case. -/
structure HexDigit where
  value : Fin 16
  upper : Bool

def HexDigit.byte (h : HexDigit) : UInt8 :=
  if h.value < 10 then UInt8.ofNat (0x30 + h.value)
  else if h.upper then UInt8.ofNat (0x41 + (h.value - 10))
  else UInt8.ofNat (0x61 + (h.value - 10))

/-- What follows the backslash of an escape. -/
inductive Escape where
  | quotationMark
  | reverseSolidus
  | solidus
  | backspace
  | formFeed
  | lineFeed
  | carriageReturn
  | tab
  | unicode (a b c d : HexDigit)

def Escape.bytes : Escape → List UInt8
  | quotationMark => [0x22]
  | reverseSolidus => [0x5C]
  | solidus => [0x2F]
  | backspace => [0x62]
  | formFeed => [0x66]
  | lineFeed => [0x6E]
  | carriageReturn => [0x72]
  | tab => [0x74]
  | unicode a b c d => [0x75, a.byte, b.byte, c.byte, d.byte]

/-- `unescaped = %x20-21 / %x23-5B / %x5D-10FFFF`. -/
abbrev Unescaped := {c : Char // 0x20 ≤ c.toNat ∧ c.toNat ≠ 0x22 ∧ c.toNat ≠ 0x5C}

/-- `char`, a character of a string. -/
inductive StringChar where
  | unescaped (c : Unescaped)
  | escaped (e : Escape)

def StringChar.marks (d : ℕ) : StringChar → List Mark
  | unescaped c => quoted d (String.utf8EncodeChar c.val)
  | escaped e => ⟨0x5C, ⟨d, true, true⟩⟩ :: quoted d e.bytes

/-- `string`, between its quotation marks. -/
abbrev Str := List StringChar

def Str.marks (d : ℕ) (s : Str) : List Mark :=
  ⟨0x22, ⟨d, true, false⟩⟩ :: s.flatMap (StringChar.marks d) ++ [⟨0x22, ⟨d, false, false⟩⟩]

/-! ### Values -/

mutual

/-- `value`. -/
inductive Value where
  | false
  | null
  | true
  | number (n : Number)
  | string (s : Str)
  | emptyArray (left right : Around)
  | array (left : Around) (elements : Elements) (right : Around)
  | emptyObject (left right : Around)
  | object (left : Around) (members : Members) (right : Around)

/-- `value *( value-separator value )`. -/
inductive Elements where
  | one (v : Value)
  | cons (v : Value) (comma : Around) (rest : Elements)

/-- `member *( value-separator member )`, with `member = string name-separator value`. -/
inductive Members where
  | one (name : Str) (colon : Around) (v : Value)
  | cons (name : Str) (colon : Around) (v : Value) (comma : Around) (rest : Members)

end

mutual

/-- The bytes of a value that starts with `d` containers open. -/
def Value.marks (d : ℕ) : Value → List Mark
  | .false => plain d [0x66, 0x61, 0x6C, 0x73, 0x65]
  | .null => plain d [0x6E, 0x75, 0x6C, 0x6C]
  | .true => plain d [0x74, 0x72, 0x75, 0x65]
  | .number n => plain d n.bytes
  | .string s => s.marks d
  | .emptyArray left right => left.opening d 0x5B ++ right.closing d 0x5D
  | .array left elements right =>
    left.opening d 0x5B ++ elements.marks (d + 1) ++ right.closing d 0x5D
  | .emptyObject left right => left.opening d 0x7B ++ right.closing d 0x7D
  | .object left members right =>
    left.opening d 0x7B ++ members.marks (d + 1) ++ right.closing d 0x7D

def Elements.marks (d : ℕ) : Elements → List Mark
  | .one v => v.marks d
  | .cons v comma rest => v.marks d ++ comma.separator d 0x2C ++ rest.marks d

def Members.marks (d : ℕ) : Members → List Mark
  | .one name colon v => name.marks d ++ colon.separator d 0x3A ++ v.marks d
  | .cons name colon v comma rest =>
    name.marks d ++ colon.separator d 0x3A ++ v.marks d ++ comma.separator d 0x2C ++ rest.marks d

end

mutual

/-- The maximal nesting of objects and arrays. -/
def Value.nesting : Value → ℕ
  | .emptyArray _ _ | .emptyObject _ _ => 1
  | .array _ elements _ => elements.nesting + 1
  | .object _ members _ => members.nesting + 1
  | _ => 0

def Elements.nesting : Elements → ℕ
  | .one v => v.nesting
  | .cons v _ rest => max v.nesting rest.nesting

def Members.nesting : Members → ℕ
  | .one _ _ v => v.nesting
  | .cons _ _ v _ rest => max v.nesting rest.nesting

end

/-! ### Texts -/

/-- `JSON-text = ws value ws`. -/
structure Text where
  before : List Space
  value : Value
  after : List Space

/-- The position before the first byte. -/
def Cursor.start : Cursor := ⟨0, false, false⟩

/-- The position after some bytes. -/
def Cursor.after : Cursor → List Mark → Cursor
  | c, [] => c
  | _, m :: ms => m.cursor.after ms

/-- The position after a concatenation. -/
theorem Cursor.after_append (c : Cursor) (xs ys : List Mark) :
    c.after (xs ++ ys) = (c.after xs).after ys := by
  induction xs generalizing c with
  | nil => rfl
  | cons m xs ih => exact ih m.cursor

namespace Text

variable (t : Text)

def marks : List Mark :=
  plain 0 (t.before.map Space.byte) ++ t.value.marks 0 ++ plain 0 (t.after.map Space.byte)

/-- The text itself. -/
def bytes : List UInt8 := t.marks.map Mark.byte

/-- The position after the first `n` bytes. -/
def cursorAt (n : ℕ) : Cursor := Cursor.start.after (t.marks.take n)

/-- The maximal nesting of the text. -/
def nesting : ℕ := t.value.nesting

end Text

/-! ### Nesting -/

/-- At most `N` containers are open after any of the bytes. -/
def Within (N : ℕ) (ms : List Mark) : Prop := ∀ m ∈ ms, m.cursor.opened ≤ N

/-- A bound on the nesting holds of a concatenation part by part. -/
@[simp]
theorem within_append {N : ℕ} {xs ys : List Mark} :
    Within N (xs ++ ys) ↔ Within N xs ∧ Within N ys :=
  List.forall_mem_append

/-- A bound on the nesting holds of a list byte by byte. -/
@[simp]
theorem within_cons {N : ℕ} {m : Mark} {ms : List Mark} :
    Within N (m :: ms) ↔ m.cursor.opened ≤ N ∧ Within N ms :=
  List.forall_mem_cons

/-- A bound on the nesting may be raised. -/
private theorem Within.mono {N N' : ℕ} {ms : List Mark} (h : Within N ms) (hle : N ≤ N') :
    Within N' ms :=
  fun m hm => (h m hm).trans hle

/-- Bytes outside literals open nothing. -/
private theorem within_plain (d : ℕ) (bs : List UInt8) : Within d (plain d bs) :=
  List.forall_mem_map.mpr fun _ _ => le_rfl

/-- Bytes inside a literal open nothing. -/
private theorem within_quoted (d : ℕ) (bs : List UInt8) : Within d (quoted d bs) :=
  List.forall_mem_map.mpr fun _ _ => le_rfl

/-- A string opens nothing. -/
private theorem Str.within (d : ℕ) (s : Str) : Within d (s.marks d) := by
  rw [Str.marks, List.cons_append, within_cons, within_append]
  refine ⟨le_rfl, List.forall_mem_flatMap.mpr fun c _ => ?_, by simp [Within]⟩
  cases c with
  | unescaped c => exact within_quoted d _
  | escaped e => exact within_cons.mpr ⟨le_rfl, within_quoted d _⟩

/-- A separator opens nothing. -/
private theorem Around.within_separator (w : Around) (d : ℕ) (b : UInt8) :
    Within d (w.separator d b) :=
  within_plain d _

/-- An opening bracket opens one container. -/
private theorem Around.within_opening (w : Around) (d : ℕ) (b : UInt8) :
    Within (d + 1) (w.opening d b) := by
  rw [Around.opening, within_append, within_cons]
  exact ⟨(within_plain d _).mono (Nat.le_succ d), le_rfl, within_plain (d + 1) _⟩

/-- A closing bracket opens nothing. -/
private theorem Around.within_closing (w : Around) (d : ℕ) (b : UInt8) :
    Within (d + 1) (w.closing d b) := by
  rw [Around.closing, within_append, within_cons]
  exact ⟨within_plain (d + 1) _, Nat.le_succ d, (within_plain d _).mono (Nat.le_succ d)⟩

/-- What stands between two brackets, with the brackets. -/
private theorem Around.within_bracketed {d N : ℕ} {inner : List Mark} (left right : Around)
    (b b' : UInt8) (h : Within (d + 1 + N) inner) :
    Within (d + (N + 1)) (left.opening d b ++ inner ++ right.closing d b') := by
  rw [within_append, within_append]
  exact ⟨⟨(left.within_opening d b).mono (by omega), h.mono (by omega)⟩,
    (right.within_closing d b').mono (by omega)⟩

mutual

/-- No more containers are open in a value than it nests. -/
private theorem Value.within (d : ℕ) (v : Value) : Within (d + v.nesting) (v.marks d) := by
  cases v with
  | false | null | true | number n => exact within_plain d _
  | string s => exact s.within d
  | emptyArray left right | emptyObject left right =>
    exact within_append.mpr ⟨left.within_opening d _, right.within_closing d _⟩
  | array left elements right =>
    exact Around.within_bracketed left right _ _ (elements.within (d + 1))
  | object left members right =>
    exact Around.within_bracketed left right _ _ (members.within (d + 1))

/-- The same of the elements of an array. -/
theorem Elements.within (d : ℕ) (es : Elements) : Within (d + es.nesting) (es.marks d) := by
  cases es with
  | one v => exact v.within d
  | cons v comma rest =>
    rw [Elements.marks, Elements.nesting, within_append, within_append]
    exact ⟨⟨(v.within d).mono (by omega), (comma.within_separator d _).mono (by omega)⟩,
      (rest.within d).mono (by omega)⟩

/-- The same of the members of an object. -/
theorem Members.within (d : ℕ) (ms : Members) : Within (d + ms.nesting) (ms.marks d) := by
  cases ms with
  | one name colon v =>
    rw [Members.marks, Members.nesting, within_append, within_append]
    exact ⟨⟨(name.within d).mono (by omega), (colon.within_separator d _).mono (by omega)⟩,
      v.within d⟩
  | cons name colon v comma rest =>
    rw [Members.marks, Members.nesting, within_append, within_append, within_append,
      within_append]
    exact ⟨⟨⟨⟨(name.within d).mono (by omega), (colon.within_separator d _).mono (by omega)⟩,
      (v.within d).mono (by omega)⟩, (comma.within_separator d _).mono (by omega)⟩,
      (rest.within d).mono (by omega)⟩

end

/-- A bracket is the deepest byte unless its contents are deeper. -/
private theorem Around.nesting_le_of_bracketed {d N n : ℕ} (left : Around) (b : UInt8)
    (inner : List Mark) (right : Around) (b' : UInt8)
    (hinner : 0 < n → Within N inner → d + 1 + n ≤ N)
    (h : Within N (left.opening d b ++ inner ++ right.closing d b')) : d + (n + 1) ≤ N := by
  rw [within_append, within_append, Around.opening, within_append, within_cons] at h
  obtain ⟨⟨⟨-, hbracket, -⟩, hin⟩, -⟩ := h
  rcases Nat.eq_zero_or_pos n with rfl | hpos
  · exact hbracket
  · have := hinner hpos hin
    omega

mutual

/-- As many containers are open somewhere in a value as it nests. -/
private theorem Value.nesting_le {d N : ℕ} (v : Value) (hpos : 0 < v.nesting)
    (h : Within N (v.marks d)) : d + v.nesting ≤ N := by
  cases v with
  | false | null | true | number n | string s => exact absurd hpos (Nat.lt_irrefl 0)
  | emptyArray left right =>
    have h' : Within N (left.opening d 0x5B ++ [] ++ right.closing d 0x5D) := by
      rwa [List.append_nil]
    exact Around.nesting_le_of_bracketed left _ [] right _ (fun h => absurd h (by simp)) h'
  | emptyObject left right =>
    have h' : Within N (left.opening d 0x7B ++ [] ++ right.closing d 0x7D) := by
      rwa [List.append_nil]
    exact Around.nesting_le_of_bracketed left _ [] right _ (fun h => absurd h (by simp)) h'
  | array left elements right =>
    exact Around.nesting_le_of_bracketed left _ _ right _ elements.nesting_le h
  | object left members right =>
    exact Around.nesting_le_of_bracketed left _ _ right _ members.nesting_le h

/-- The same of the elements of an array. -/
theorem Elements.nesting_le {d N : ℕ} (es : Elements) (hpos : 0 < es.nesting)
    (h : Within N (es.marks d)) : d + es.nesting ≤ N := by
  cases es with
  | one v => exact v.nesting_le hpos h
  | cons v comma rest =>
    rw [Elements.marks, within_append, within_append] at h
    have hv : 0 < v.nesting → d + v.nesting ≤ N := fun hv => v.nesting_le hv h.1.1
    have hrest : 0 < rest.nesting → d + rest.nesting ≤ N := fun hr => rest.nesting_le hr h.2
    rw [Elements.nesting] at hpos ⊢
    omega

/-- The same of the members of an object. -/
theorem Members.nesting_le {d N : ℕ} (ms : Members) (hpos : 0 < ms.nesting)
    (h : Within N (ms.marks d)) : d + ms.nesting ≤ N := by
  cases ms with
  | one name colon v =>
    rw [Members.marks, within_append] at h
    exact v.nesting_le hpos h.2
  | cons name colon v comma rest =>
    rw [Members.marks, within_append, within_append, within_append] at h
    have hv : 0 < v.nesting → d + v.nesting ≤ N := fun hv => v.nesting_le hv h.1.1.2
    have hrest : 0 < rest.nesting → d + rest.nesting ≤ N := fun hr => rest.nesting_le hr h.2
    rw [Members.nesting] at hpos ⊢
    omega

end

theorem Within.opened_after_le {N : ℕ} {ms : List Mark} (h : Within N ms) {c : Cursor}
    (hc : c.opened ≤ N) : (c.after ms).opened ≤ N := by
  induction ms generalizing c with
  | nil => exact hc
  | cons m ms ih =>
    obtain ⟨hm, hms⟩ := within_cons.mp h
    exact ih hms hm

/-- The positions in the first `n` bytes of a text are the positions at its prefixes. -/
theorem Text.within_take {t : Text} {N n : ℕ}
    (h : ∀ k ≤ n, (t.cursorAt k).opened ≤ N) : Within N (t.marks.take n) := by
  intro m hm
  -- the position of `m` is the position after the bytes up to it
  obtain ⟨xs, ys, hsplit⟩ := List.append_of_mem hm
  have hmarks : t.marks = (xs ++ [m]) ++ (ys ++ t.marks.drop n) := by
    calc t.marks = t.marks.take n ++ t.marks.drop n := (List.take_append_drop n _).symm
      _ = _ := by rw [hsplit]; simp
  have hle : (xs ++ [m]).length ≤ n := by
    have hlen := congrArg List.length hsplit
    simp only [List.length_take, List.length_append, List.length_cons, List.length_nil] at hlen ⊢
    omega
  have hcursor : t.cursorAt (xs ++ [m]).length = m.cursor := by
    rw [Text.cursorAt, hmarks, List.take_left, Cursor.after_append]
    rfl
  exact hcursor ▸ h _ hle

/-- **Nesting is the largest number of open containers.** -/
theorem Text.within_iff (t : Text) (N : ℕ) : Within N t.marks ↔ t.nesting ≤ N := by
  rw [Text.marks, within_append, within_append, Text.nesting]
  constructor
  · rintro ⟨⟨-, hvalue⟩, -⟩
    -- a value that nests nothing opens nothing, so there is no byte to look at
    rcases Nat.eq_zero_or_pos t.value.nesting with hzero | hpos
    · omega
    · have := t.value.nesting_le hpos hvalue
      omega
  · intro hle
    exact ⟨⟨(within_plain 0 _).mono (Nat.zero_le N), (t.value.within 0).mono (by omega)⟩,
      (within_plain 0 _).mono (Nat.zero_le N)⟩

/-! ### What the bytes of a token can be -/

/-- The bytes that open or close a string, an object or an array. -/
def IsDelimiter (b : UInt8) : Prop :=
  b = 0x22 ∨ b = 0x5B ∨ b = 0x5D ∨ b = 0x7B ∨ b = 0x7D

instance : DecidablePred IsDelimiter := fun b => by unfold IsDelimiter; infer_instance

/-- White space is no delimiter. -/
theorem Space.not_isDelimiter (s : Space) : ¬IsDelimiter s.byte := by
  cases s <;> decide

/-- A digit is no delimiter. -/
private theorem digit_not_isDelimiter : ∀ k, ¬IsDelimiter (digit k) := by
  decide

/-- There is no delimiter among digits. -/
private theorem Digits.not_isDelimiter (ds : Digits) : ∀ b ∈ ds.bytes, ¬IsDelimiter b := by
  simp [Digits.bytes, digit_not_isDelimiter]

/-- The check of a literal, byte by byte. -/
theorem not_isDelimiter_of_all {bs : List UInt8} (h : bs.all fun b => !decide (IsDelimiter b)) :
    ∀ b ∈ bs, ¬IsDelimiter b := by
  simpa using h

/-- There is no delimiter in an integer part. -/
private theorem IntPart.not_isDelimiter (k : IntPart) : ∀ b ∈ k.bytes, ¬IsDelimiter b := by
  cases k with
  | zero => exact not_isDelimiter_of_all (by decide)
  | nonzero first rest => simp [IntPart.bytes, digit_not_isDelimiter]

/-- There is no delimiter in an exponent. -/
private theorem Exponent.not_isDelimiter (e : Exponent) : ∀ b ∈ e.bytes, ¬IsDelimiter b := by
  obtain ⟨upper, sign, digits⟩ := e
  intro b hb
  have hhead : ∀ u : Bool, ¬IsDelimiter (if u then 0x45 else 0x65) := by decide
  have hsign : ∀ u : Bool, ¬IsDelimiter (if u then 0x2D else 0x2B) := by decide
  simp only [Exponent.bytes, List.cons_append, List.mem_cons, List.mem_append,
    List.mem_map] at hb
  rcases hb with rfl | ⟨negative, -, rfl⟩ | hb
  · exact hhead upper
  · exact hsign negative
  · exact digits.not_isDelimiter b hb

/-- There is no delimiter in a number. -/
theorem Number.not_isDelimiter (n : Number) : ∀ b ∈ n.bytes, ¬IsDelimiter b := by
  intro b hb
  simp only [Number.bytes, List.mem_append, List.mem_flatMap, List.mem_cons] at hb
  rcases hb with ((hb | hb) | ⟨ds, -, rfl | hb⟩) | ⟨e, -, hb⟩
  · cases hm : n.minus <;> simp_all
    decide
  · exact n.int.not_isDelimiter b hb
  · decide
  · exact ds.not_isDelimiter b hb
  · exact e.not_isDelimiter b hb

/-- A byte of a string that neither ends it nor begins an escape. -/
def IsStringByte (b : UInt8) : Prop := b ≠ 0x22 ∧ b ≠ 0x5C

instance : DecidablePred IsStringByte := fun b => by unfold IsStringByte; infer_instance

private theorem isStringByte_ofNat {n : ℕ} (hlt : n < 256) (hquote : n ≠ 0x22)
    (hbackslash : n ≠ 0x5C) :
    IsStringByte (UInt8.ofNat n) := by
  have hn : (UInt8.ofNat n).toNat = n := UInt8.toNat_ofNat_of_lt' hlt
  refine ⟨fun h => hquote ?_, fun h => hbackslash ?_⟩
  · rw [← hn, h]
    rfl
  · rw [← hn, h]
    rfl

/-- In UTF-8 only the quotation mark and the reverse solidus themselves use their bytes. -/
theorem Unescaped.isStringByte (c : Unescaped) :
    ∀ b ∈ String.utf8EncodeChar c.val, IsStringByte b := by
  obtain ⟨c, -, hquote, hbackslash⟩ := c
  -- a lead or continuation byte of a longer encoding is at least `0x80`
  have hlarge : ∀ k, 0x80 ≤ k → k < 256 → IsStringByte (UInt8.ofNat k) :=
    fun k hk hlt => isStringByte_ofNat hlt (by omega) (by omega)
  intro b hb
  unfold String.utf8EncodeChar at hb
  dsimp only at hb
  split_ifs at hb with h1 h2 h3
  · obtain rfl := List.mem_singleton.mp hb
    exact isStringByte_ofNat (by omega) hquote hbackslash
  all_goals
    simp only [List.mem_cons, List.not_mem_nil, or_false] at hb
  · rcases hb with rfl | rfl <;> exact hlarge _ (by omega) (by omega)
  · rcases hb with rfl | rfl | rfl <;> exact hlarge _ (by omega) (by omega)
  · rcases hb with rfl | rfl | rfl | rfl <;> exact hlarge _ (by omega) (by omega)

/-- A hexadecimal digit may stand in a literal as it is. -/
private theorem HexDigit.isStringByte (h : HexDigit) : IsStringByte h.byte := by
  obtain ⟨value, upper⟩ := h
  have hall : ∀ (v : Fin 16) (u : Bool), IsStringByte (HexDigit.byte ⟨v, u⟩) := by decide
  exact hall value upper

/-- Whatever follows the backslash, only its first byte can look like the end of the string
or the beginning of an escape. -/
theorem Escape.isStringByte (e : Escape) :
    ∃ b rest, e.bytes = b :: rest ∧ ∀ b' ∈ rest, IsStringByte b' := by
  cases e with
  | unicode a b c d =>
    refine ⟨0x75, [a.byte, b.byte, c.byte, d.byte], rfl, ?_⟩
    simp [HexDigit.isStringByte]
  | _ => exact ⟨_, [], rfl, by simp⟩

end Json
