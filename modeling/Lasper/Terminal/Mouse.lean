import Lasper.Lib.Checked
import Lasper.Lib.Numbers

/-! The mouse reports of the terminal panel. Three encodings share one button code; a report is
read back by the rules of its encoding, and these say less of a release than SGR could. -/

namespace Lasper.Terminal.Mouse

open Lib

section Events

inductive MouseButton
  | left | right | middle
  deriving DecidableEq

inductive MouseEventKind
  | down (button : MouseButton)
  | up (button : MouseButton)
  | drag (button : MouseButton)
  | moved | scrollDown | scrollUp | scrollLeft | scrollRight
  deriving DecidableEq

structure KeyModifiers where
  shift : Bool
  control : Bool
  alt : Bool
  super : Bool
  hyper : Bool
  «meta» : Bool
  deriving DecidableEq

/-- Columns and rows are counted from zero. -/
structure MouseEvent where
  kind : MouseEventKind
  column : UInt16
  row : UInt16
  modifiers : KeyModifiers
  deriving DecidableEq

inductive MouseProtocolMode
  | none | press | pressRelease | buttonMotion | anyMotion
  deriving DecidableEq

inductive MouseProtocolEncoding
  | default | utf8 | sgr
  deriving DecidableEq

end Events

section Encoder

def mouseKindAllowed (kind : MouseEventKind) : MouseProtocolMode → Bool
  | .none => false
  | .press =>
    match kind with
    | .down _ | .scrollUp | .scrollDown | .scrollLeft | .scrollRight => true
    | _ => false
  | .pressRelease =>
    match kind with
    | .down _ | .up _ | .scrollUp | .scrollDown | .scrollLeft | .scrollRight => true
    | _ => false
  | .buttonMotion =>
    match kind with
    | .down _ | .up _ | .drag _ | .scrollUp | .scrollDown | .scrollLeft | .scrollRight => true
    | _ => false
  | .anyMotion => true

def kindCode : MouseEventKind → ℕ
  | .down .left => 0
  | .down .middle => 1
  | .down .right => 2
  | .up _ => 3
  | .drag .left => 32
  | .drag .middle => 1 ||| 32
  | .drag .right => 2 ||| 32
  | .moved => 3 ||| 32
  | .scrollUp => 64
  | .scrollDown => 65
  | .scrollLeft => 66
  | .scrollRight => 67

/-- The button code with its modifier bits. -/
def buttonCode (kind : MouseEventKind) (modifiers : KeyModifiers) : ℕ :=
  let code := kindCode kind
  let code := if modifiers.shift then code ||| 4 else code
  let code := if modifiers.alt then code ||| 8 else code
  if modifiers.control then code ||| 16 else code

def asciiBytes (text : Text) : List UInt8 := text.map Char.toUInt8

/-- A value that is no code point appends nothing. -/
def appendUtf8MouseValue (sequence : List UInt8) (value : ℕ) : List UInt8 :=
  if value.isValidChar then sequence ++ String.utf8EncodeChar (Char.ofNat value) else sequence

def isUp : MouseEventKind → Bool
  | .up _ => true
  | _ => false

def encodeMouseForProtocol (mouse : MouseEvent) (mode : MouseProtocolMode)
    (encoding : MouseProtocolEncoding) : Option (List UInt8) :=
  if mode = .none || !mouseKindAllowed mouse.kind mode then none
  else
    let cb := buttonCode mouse.kind mouse.modifiers
    match encoding with
    | .sgr =>
      let col := saturatingAdd u16Max mouse.column.toNat 1
      let row := saturatingAdd u16Max mouse.row.toNat 1
      let suffix := if isUp mouse.kind then 'm' else 'M'
      some (asciiBytes ('\x1b' :: '[' :: '<' :: (Nat.toDigits 10 cb ++ ';' :: (Nat.toDigits 10 col ++
        ';' :: (Nat.toDigits 10 row ++ [suffix])))))
    | .default =>
      let col := saturatingAdd u16Max mouse.column.toNat 33
      let row := saturatingAdd u16Max mouse.row.toNat 33
      if 255 < col || 255 < row then none
      else some [0x1b, 0x5b, 0x4d, UInt8.ofNat (min (cb + 32) 65535), UInt8.ofNat col, UInt8.ofNat row]
    | .utf8 =>
      let col := saturatingAdd u16Max mouse.column.toNat 33
      let row := saturatingAdd u16Max mouse.row.toNat 33
      some (appendUtf8MouseValue (appendUtf8MouseValue (appendUtf8MouseValue [0x1b, 0x5b, 0x4d]
        (min (cb + 32) 65535)) col) row)

end Encoder

section Decoder

/-- What a report says was done; a release may leave its button out. -/
inductive ReportKind
  | press (button : MouseButton)
  | release (button : Option MouseButton)
  | drag (button : MouseButton)
  | moved | scrollUp | scrollDown | scrollLeft | scrollRight
  deriving DecidableEq

structure Report where
  kind : ReportKind
  modifiers : KeyModifiers
  column : ℕ
  row : ℕ
  deriving DecidableEq

def buttonOf : ℕ → Option MouseButton
  | 0 => some .left
  | 1 => some .middle
  | 2 => some .right
  | _ => none

def modifiersOf (code : ℕ) : KeyModifiers :=
  ⟨code.testBit 2, code.testBit 4, code.testBit 3, false, false, false⟩

/-- The kind that a button code stands for, in a report that is not marked as a release. -/
def kindOf (code : ℕ) : Option ReportKind :=
  if 128 ≤ code then none
  else if code.testBit 6 then
    if code.testBit 5 then none
    else match code % 4 with
      | 0 => some .scrollUp
      | 1 => some .scrollDown
      | 2 => some .scrollLeft
      | _ => some .scrollRight
  else if code.testBit 5 then
    match buttonOf (code % 4) with
    | some button => some (.drag button)
    | none => some .moved
  else match buttonOf (code % 4) with
    | some button => some (.press button)
    | none => some (.release none)

/-- A value stands 32 above its code, or a coordinate 33 above its cell. -/
def reportOf (code column row : ℕ) : Option Report :=
  if 32 ≤ code ∧ 33 ≤ column ∧ 33 ≤ row then
    (kindOf (code - 32)).map fun kind => ⟨kind, modifiersOf (code - 32), column - 33, row - 33⟩
  else none

def decodeDefault : List UInt8 → Option Report
  | [0x1b, 0x5b, 0x4d, code, column, row] => reportOf code.toNat column.toNat row.toNat
  | _ => none

/-- A value may take any number of bytes here; xterm itself sends no position beyond 2015. -/
def decodeUtf8 : List UInt8 → Option Report
  | 0x1b :: 0x5b :: 0x4d :: rest =>
    match String.fromUTF8? rest.toByteArray with
    | some text =>
      match text.toList with
      | [code, column, row] => reportOf code.toNat column.toNat row.toNat
      | _ => none
    | none => none
  | _ => none

def decimal (digits : Text) : Option ℕ :=
  if digits ≠ [] ∧ digits.all Char.isDigit then some (Text.decimalValue digits) else none

/-- The fields of an SGR report; the last character tells a release. -/
def sgrReport (fields : List Text) (released : Bool) : Option Report :=
  match fields with
  | [code, column, row] => do
    let code ← decimal code
    let column ← decimal column
    let row ← decimal row
    if column = 0 ∨ row = 0 then none
    else if released then some ⟨.release (buttonOf (code % 4)), modifiersOf code, column - 1, row - 1⟩
    else (kindOf code).map fun kind => ⟨kind, modifiersOf code, column - 1, row - 1⟩
  | _ => none

def decodeSgr (bytes : List UInt8) : Option Report :=
  match bytes.map fun byte => Char.ofNat byte.toNat with
  | '\x1b' :: '[' :: '<' :: rest =>
    match rest.getLast? with
    | some 'M' => sgrReport (rest.dropLast.splitOn ';') false
    | some 'm' => sgrReport (rest.dropLast.splitOn ';') true
    | _ => none
  | _ => none

def decodeMouse : MouseProtocolEncoding → List UInt8 → Option Report
  | .default => decodeDefault
  | .utf8 => decodeUtf8
  | .sgr => decodeSgr

end Decoder

section Codes

/-- What a report without the button of a release can say of a kind. -/
def legacyKind : MouseEventKind → ReportKind
  | .down button => .press button
  | .up _ => .release none
  | .drag button => .drag button
  | .moved => .moved
  | .scrollUp => .scrollUp
  | .scrollDown => .scrollDown
  | .scrollLeft => .scrollLeft
  | .scrollRight => .scrollRight

/-- The modifiers that a button code has bits for. -/
def carriedModifiers (modifiers : KeyModifiers) : KeyModifiers :=
  ⟨modifiers.shift, modifiers.control, modifiers.alt, false, false, false⟩

theorem buttonCode_cases (kind : MouseEventKind) : ∀ shift control alt : Bool,
    buttonCode kind ⟨shift, control, alt, false, false, false⟩ ≤ 95 ∧
    kindOf (buttonCode kind ⟨shift, control, alt, false, false, false⟩) = some (legacyKind kind) ∧
    modifiersOf (buttonCode kind ⟨shift, control, alt, false, false, false⟩) =
      ⟨shift, control, alt, false, false, false⟩ ∧
    (isUp kind = true → buttonOf (buttonCode kind ⟨shift, control, alt, false, false, false⟩ % 4) = none) := by
  cases kind with
  | down button | up button | drag button => cases button <;> decide
  | moved | scrollDown | scrollUp | scrollLeft | scrollRight => decide

/-- A button code says the kind and the modifiers that it has bits for, but of a release no button. -/
structure CodeSpec (kind : MouseEventKind) (modifiers : KeyModifiers) (code : ℕ) : Prop where
  small : code ≤ 95
  kind_eq : kindOf code = some (legacyKind kind)
  modifiers_eq : modifiersOf code = carriedModifiers modifiers
  button_eq : isUp kind = true → buttonOf (code % 4) = none

theorem buttonCode_spec (kind : MouseEventKind) (modifiers : KeyModifiers) :
    CodeSpec kind modifiers (buttonCode kind modifiers) := by
  obtain ⟨hsmall, hkind, hmodifiers, hbutton⟩ :=
    buttonCode_cases kind modifiers.shift modifiers.control modifiers.alt
  exact ⟨hsmall, hkind, hmodifiers, hbutton⟩

end Codes

section Utf8

/-- The character with a value, if there is one. -/
def charOf (value : ℕ) : List Char := if value.isValidChar then [Char.ofNat value] else []

theorem appendUtf8MouseValue_eq (sequence : List UInt8) (value : ℕ) :
    appendUtf8MouseValue sequence value = sequence ++ (charOf value).flatMap String.utf8EncodeChar := by
  unfold appendUtf8MouseValue charOf
  split_ifs <;> simp

theorem fromUTF8?_encoded (chars : List Char) :
    String.fromUTF8? (chars.flatMap String.utf8EncodeChar).toByteArray = some (String.ofList chars) := by
  have hvalid : (chars.flatMap String.utf8EncodeChar).toByteArray.IsValidUTF8 := ⟨chars, rfl⟩
  rw [String.fromUTF8?, dif_pos hvalid]
  rfl

theorem decodeUtf8_encoded (chars : List Char) :
    decodeUtf8 ([0x1b, 0x5b, 0x4d] ++ chars.flatMap String.utf8EncodeChar) =
      match chars with
      | [code, column, row] => reportOf code.toNat column.toNat row.toNat
      | _ => none := by
  show (match String.fromUTF8? (chars.flatMap String.utf8EncodeChar).toByteArray with
    | some text =>
      match text.toList with
      | [code, column, row] => reportOf code.toNat column.toNat row.toNat
      | _ => none
    | none => none) = _
  rw [fromUTF8?_encoded]
  simp only [String.toList_ofList]

theorem toNat_ofNat {value : ℕ} (h : value.isValidChar) : (Char.ofNat value).toNat = value := by
  rw [Char.ofNat, dif_pos h]
  rfl

end Utf8

section Sgr

theorem toChar_toUInt8 {c : Char} (h : c.toNat < 128) : Char.ofNat c.toUInt8.toNat = c := by
  have hbyte : c.toUInt8.toNat = c.toNat := by
    show c.val.toNat % 256 = c.val.toNat
    exact Nat.mod_eq_of_lt (Nat.lt_trans h (by decide))
  rw [hbyte, Char.ofNat_toNat]

theorem asciiBytes_chars {text : Text} (h : ∀ c ∈ text, c.toNat < 128) :
    (asciiBytes text).map (fun byte => Char.ofNat byte.toNat) = text := by
  rw [asciiBytes, List.map_map]
  exact (List.map_congr_left fun c hc => toChar_toUInt8 (h c hc)).trans (List.map_id text)

theorem decimal_toDigits (n : ℕ) : decimal (Nat.toDigits 10 n) = some n := by
  have hne : Nat.toDigits 10 n ≠ [] := Nat.toDigits_ne_nil
  have hdigits : (Nat.toDigits 10 n).all Char.isDigit = true := by
    rw [List.all_eq_true]
    intro c hc
    exact Nat.isDigit_of_mem_toDigits (by decide) (by decide) hc
  rw [decimal, if_pos ⟨hne, hdigits⟩]
  exact congrArg some Nat.ofDigitChars_ten_toDigits

/-- The text of an SGR report. -/
def sgrText (code column row : ℕ) (suffix : Char) : Text :=
  '\x1b' :: '[' :: '<' :: (Nat.toDigits 10 code ++ ';' :: (Nat.toDigits 10 column ++
    ';' :: (Nat.toDigits 10 row ++ [suffix])))

theorem digit_lt {c : Char} {n : ℕ} (h : c ∈ Nat.toDigits 10 n) : c.toNat < 128 ∧ c ≠ ';' := by
  have hdigit := Nat.isDigit_of_mem_toDigits (by decide) (by decide) h
  unfold Char.isDigit at hdigit
  simp only [Bool.and_eq_true, decide_eq_true_eq, ge_iff_le, UInt32.le_iff_toNat_le] at hdigit
  have hval : c.val.toNat = c.toNat := rfl
  have hle : c.toNat ≤ 57 := hdigit.2
  refine ⟨by omega, ?_⟩
  rintro rfl
  exact absurd hle (by decide)

theorem decodeSgr_text (code column row : ℕ) (released : Bool) :
    decodeSgr (asciiBytes (sgrText code column row (if released then 'm' else 'M'))) =
      sgrReport [Nat.toDigits 10 code, Nat.toDigits 10 column, Nat.toDigits 10 row] released := by
  have hascii : ∀ c ∈ sgrText code column row (if released then 'm' else 'M'), c.toNat < 128 := by
    intro c hc
    simp only [sgrText, List.mem_cons, List.mem_append, List.not_mem_nil, or_false] at hc
    rcases hc with rfl | rfl | rfl | hc | rfl | hc | rfl | hc | rfl
    any_goals decide
    any_goals exact (digit_lt hc).1
    cases released <;> decide
  have hbody : Nat.toDigits 10 code ++ ';' :: (Nat.toDigits 10 column ++ ';' :: Nat.toDigits 10 row) =
      [';'].intercalate [Nat.toDigits 10 code, Nat.toDigits 10 column, Nat.toDigits 10 row] := by
    simp [List.intercalate]
  have hfields : (Nat.toDigits 10 code ++
      ';' :: (Nat.toDigits 10 column ++ ';' :: Nat.toDigits 10 row)).splitOn ';' =
      [Nat.toDigits 10 code, Nat.toDigits 10 column, Nat.toDigits 10 row] := by
    rw [hbody]
    refine List.splitOn_intercalate ';' (fun digits hdigits hmem => ?_) (List.cons_ne_nil _ _)
    simp only [List.mem_cons, List.not_mem_nil, or_false] at hdigits
    rcases hdigits with rfl | rfl | rfl
    all_goals exact (digit_lt hmem).2 rfl
  have hrest : Nat.toDigits 10 code ++ ';' :: (Nat.toDigits 10 column ++
      ';' :: (Nat.toDigits 10 row ++ [if released then 'm' else 'M'])) =
      (Nat.toDigits 10 code ++ ';' :: (Nat.toDigits 10 column ++ ';' :: Nat.toDigits 10 row)) ++
        [if released then 'm' else 'M'] := by
    simp
  rw [decodeSgr, asciiBytes_chars hascii, sgrText, hrest]
  simp only [List.getLast?_concat, List.dropLast_concat, hfields]
  cases released <;> rfl

end Sgr

section Claim

/-- What an event asks its report to say: a release has a button in an SGR report. -/
def expectedKind : MouseProtocolEncoding → MouseEventKind → ReportKind
  | .sgr, .up button => .release (some button)
  | _, kind => legacyKind kind

def expectedReport (encoding : MouseProtocolEncoding) (mouse : MouseEvent) : Report :=
  ⟨expectedKind encoding mouse.kind, mouse.modifiers, mouse.column.toNat, mouse.row.toNat⟩

/-- Tracking modes ask for more and more kinds of events. -/
def modeLevel : MouseProtocolMode → ℕ
  | .none => 0
  | .press => 1
  | .pressRelease => 2
  | .buttonMotion => 3
  | .anyMotion => 4

def kindLevel : MouseEventKind → ℕ
  | .down _ | .scrollUp | .scrollDown | .scrollLeft | .scrollRight => 1
  | .up _ => 2
  | .drag _ => 3
  | .moved => 4

def Allowed (mode : MouseProtocolMode) (kind : MouseEventKind) : Prop := kindLevel kind ≤ modeLevel mode

theorem mouseKindAllowed_iff (mode : MouseProtocolMode) (kind : MouseEventKind) :
    mouseKindAllowed kind mode = true ↔ Allowed mode kind := by
  unfold Allowed
  cases mode <;> cases kind <;> simp [mouseKindAllowed, kindLevel, modeLevel]

/-- No modifier is held that a report has no bit for. -/
def PlainModifiers (modifiers : KeyModifiers) : Prop :=
  modifiers.super = false ∧ modifiers.hyper = false ∧ modifiers.«meta» = false

theorem carriedModifiers_eq (modifiers : KeyModifiers) :
    carriedModifiers modifiers = modifiers ↔ PlainModifiers modifiers := by
  obtain ⟨shift, control, alt, super, hyper, «meta»⟩ := modifiers
  simp [carriedModifiers, PlainModifiers, eq_comm]

/-- A cell whose value in UTF-8 is within a word and no surrogate. -/
def Utf8Cell (cell : UInt16) : Prop :=
  cell.toNat ≤ 65502 ∧ ¬ (55263 ≤ cell.toNat ∧ cell.toNat ≤ 57310)

/-- The reports that can be read back. -/
def Faithful (mouse : MouseEvent) (mode : MouseProtocolMode) : MouseProtocolEncoding → Prop
  | .default => Allowed mode mouse.kind → mouse.column.toNat < 223 → mouse.row.toNat < 223 →
      PlainModifiers mouse.modifiers
  | .utf8 => Allowed mode mouse.kind →
      PlainModifiers mouse.modifiers ∧ Utf8Cell mouse.column ∧ Utf8Cell mouse.row
  | .sgr => Allowed mode mouse.kind → PlainModifiers mouse.modifiers ∧ isUp mouse.kind = false ∧
      mouse.column.toNat < 65535 ∧ mouse.row.toNat < 65535

/-- Bytes that are returned say what the event was. -/
def Decodable (mouse : MouseEvent) (mode : MouseProtocolMode) (encoding : MouseProtocolEncoding) : Prop :=
  ∀ bytes, encodeMouseForProtocol mouse mode encoding = some bytes →
    decodeMouse encoding bytes = some (expectedReport encoding mouse)

/-- Bytes are returned for what is asked for, if it is in reach of the encoding. -/
def Answered (mouse : MouseEvent) (mode : MouseProtocolMode) (encoding : MouseProtocolEncoding) : Prop :=
  Allowed mode mouse.kind → (encoding = .default → mouse.column.toNat < 223 ∧ mouse.row.toNat < 223) →
    (encodeMouseForProtocol mouse mode encoding).isSome = true

variable {mouse : MouseEvent} {mode : MouseProtocolMode} {encoding : MouseProtocolEncoding}

def utf8Bytes (mouse : MouseEvent) : List UInt8 :=
  [0x1b, 0x5b, 0x4d] ++ (charOf (buttonCode mouse.kind mouse.modifiers + 32) ++
    (charOf (saturatingAdd u16Max mouse.column.toNat 33) ++ charOf (saturatingAdd u16Max mouse.row.toNat 33))).flatMap
      String.utf8EncodeChar

/-- The bytes of an event that is asked for. -/
def encoded (mouse : MouseEvent) : MouseProtocolEncoding → Option (List UInt8)
  | .sgr => some (asciiBytes (sgrText (buttonCode mouse.kind mouse.modifiers) (saturatingAdd u16Max mouse.column.toNat 1)
      (saturatingAdd u16Max mouse.row.toNat 1) (if isUp mouse.kind then 'm' else 'M')))
  | .default =>
    if 255 < saturatingAdd u16Max mouse.column.toNat 33 || 255 < saturatingAdd u16Max mouse.row.toNat 33 then none
    else some [0x1b, 0x5b, 0x4d, UInt8.ofNat (buttonCode mouse.kind mouse.modifiers + 32),
      UInt8.ofNat (saturatingAdd u16Max mouse.column.toNat 33), UInt8.ofNat (saturatingAdd u16Max mouse.row.toNat 33)]
  | .utf8 => some (utf8Bytes mouse)

theorem encode_of_allowed (h : Allowed mode mouse.kind) :
    encodeMouseForProtocol mouse mode encoding = encoded mouse encoding := by
  have hspec := buttonCode_spec mouse.kind mouse.modifiers
  have hcode : min (buttonCode mouse.kind mouse.modifiers + 32) 65535 =
      buttonCode mouse.kind mouse.modifiers + 32 := by
    have := hspec.small
    omega
  have hallowed := (mouseKindAllowed_iff mode mouse.kind).mpr h
  have hmode : mode ≠ .none := by
    rintro rfl
    cases hallowed
  rw [encodeMouseForProtocol, if_neg (by simp [hmode, hallowed])]
  cases encoding with
  | sgr => rfl
  | default => simp only [encoded, hcode]
  | utf8 =>
    simp only [encoded, utf8Bytes, hcode, appendUtf8MouseValue_eq, List.flatMap_append, List.append_assoc]

theorem encode_of_not_allowed (h : ¬ Allowed mode mouse.kind) :
    encodeMouseForProtocol mouse mode encoding = none := by
  rw [← mouseKindAllowed_iff, Bool.not_eq_true] at h
  rw [encodeMouseForProtocol, if_pos (by simp [h])]

theorem answered (mouse : MouseEvent) (mode : MouseProtocolMode) (encoding : MouseProtocolEncoding) :
    Answered mouse mode encoding := by
  intro hallowed hcells
  rw [encode_of_allowed hallowed]
  cases encoding with
  | sgr | utf8 => rfl
  | default =>
    obtain ⟨hcolumn, hrow⟩ := hcells rfl
    rw [encoded, if_neg]
    · rfl
    · simp [saturatingAdd, u16Max]
      omega

/-- A value of a cell, as a report gives it back. -/
theorem reportOf_code (mouse : MouseEvent) (column row : ℕ) :
    reportOf (buttonCode mouse.kind mouse.modifiers + 32) (column + 33) (row + 33) =
      some ⟨legacyKind mouse.kind, carriedModifiers mouse.modifiers, column, row⟩ := by
  have hspec := buttonCode_spec mouse.kind mouse.modifiers
  rw [reportOf, if_pos ⟨by omega, by omega, by omega⟩, Nat.add_sub_cancel, Nat.add_sub_cancel,
    Nat.add_sub_cancel, hspec.kind_eq, hspec.modifiers_eq, Option.map_some]

theorem decodable_default (h : Allowed mode mouse.kind) : Decodable mouse mode .default ↔
    (mouse.column.toNat < 223 → mouse.row.toNat < 223 → PlainModifiers mouse.modifiers) := by
  have hspec := buttonCode_spec mouse.kind mouse.modifiers
  unfold Decodable
  rw [encode_of_allowed h]
  by_cases hcells : mouse.column.toNat < 223 ∧ mouse.row.toNat < 223
  · obtain ⟨hcolumn, hrow⟩ := hcells
    have hsome : encoded mouse .default = some [0x1b, 0x5b, 0x4d,
        UInt8.ofNat (buttonCode mouse.kind mouse.modifiers + 32), UInt8.ofNat (mouse.column.toNat + 33),
        UInt8.ofNat (mouse.row.toNat + 33)] := by
      rw [encoded, saturatingAdd, saturatingAdd, u16Max, Nat.min_eq_left (by omega), Nat.min_eq_left (by omega),
        if_neg]
      simp
      omega
    have hbyte : ∀ value < 256, (UInt8.ofNat value).toNat = value := fun value hvalue =>
      Nat.mod_eq_of_lt hvalue
    have hsmall := hspec.small
    have hdecode : decodeMouse .default [0x1b, 0x5b, 0x4d,
        UInt8.ofNat (buttonCode mouse.kind mouse.modifiers + 32), UInt8.ofNat (mouse.column.toNat + 33),
        UInt8.ofNat (mouse.row.toNat + 33)] =
        some ⟨legacyKind mouse.kind, carriedModifiers mouse.modifiers, mouse.column.toNat,
          mouse.row.toNat⟩ := by
      show reportOf (UInt8.ofNat (buttonCode mouse.kind mouse.modifiers + 32)).toNat
        (UInt8.ofNat (mouse.column.toNat + 33)).toNat (UInt8.ofNat (mouse.row.toNat + 33)).toNat = _
      rw [hbyte _ (by omega), hbyte _ (by omega), hbyte _ (by omega), reportOf_code]
    rw [hsome]
    constructor
    · intro hall _ _
      have hreport := (hdecode.symm.trans (hall _ rfl))
      rw [← carriedModifiers_eq]
      exact congrArg Report.modifiers (Option.some.inj hreport)
    · rintro hplain _ ⟨⟩
      rw [hdecode, (carriedModifiers_eq _).mpr (hplain hcolumn hrow)]
      rfl
  · have hnone : encoded mouse .default = none := by
      rw [encoded, if_pos]
      simp [saturatingAdd, u16Max]
      omega
    rw [hnone]
    constructor
    · intro _ hcolumn hrow
      exact absurd ⟨hcolumn, hrow⟩ hcells
    · intro _ bytes hbytes
      cases hbytes

theorem decodable_sgr (h : Allowed mode mouse.kind) : Decodable mouse mode .sgr ↔
    PlainModifiers mouse.modifiers ∧ isUp mouse.kind = false ∧ mouse.column.toNat < 65535 ∧
      mouse.row.toNat < 65535 := by
  have hspec := buttonCode_spec mouse.kind mouse.modifiers
  have hcell : ∀ cell : UInt16, saturatingAdd u16Max cell.toNat 1 ≠ 0 ∧
      (saturatingAdd u16Max cell.toNat 1 - 1 = cell.toNat ↔ cell.toNat < 65535) := by
    intro cell
    have hlt := cell.toNat_lt
    simp only [saturatingAdd, u16Max]
    omega
  have hdecode : decodeMouse .sgr (asciiBytes (sgrText (buttonCode mouse.kind mouse.modifiers)
      (saturatingAdd u16Max mouse.column.toNat 1) (saturatingAdd u16Max mouse.row.toNat 1) (if isUp mouse.kind then 'm' else 'M'))) =
      some ⟨legacyKind mouse.kind, carriedModifiers mouse.modifiers, saturatingAdd u16Max mouse.column.toNat 1 - 1,
        saturatingAdd u16Max mouse.row.toNat 1 - 1⟩ := by
    rw [decodeMouse, decodeSgr_text, sgrReport]
    simp only [decimal_toDigits, Option.bind_eq_bind, Option.bind_some]
    rw [if_neg (by simp [(hcell mouse.column).1, (hcell mouse.row).1]), hspec.kind_eq, hspec.modifiers_eq]
    cases hup : isUp mouse.kind with
    | false => rfl
    | true =>
      rw [hspec.button_eq hup]
      cases hkind : mouse.kind with
      | up button => rfl
      | _ => rw [hkind] at hup; cases hup
  have hkind : legacyKind mouse.kind = expectedKind .sgr mouse.kind ↔ isUp mouse.kind = false := by
    cases mouse.kind <;> simp [legacyKind, expectedKind, isUp]
  unfold Decodable
  rw [encode_of_allowed h, encoded, ← carriedModifiers_eq, ← hkind, ← (hcell mouse.column).2,
    ← (hcell mouse.row).2]
  constructor
  · intro hall
    have hreport := Option.some.inj (hdecode.symm.trans (hall _ rfl))
    exact ⟨congrArg Report.modifiers hreport, congrArg Report.kind hreport, congrArg Report.column hreport,
      congrArg Report.row hreport⟩
  · rintro ⟨hmodifiers, hkind, hcolumn, hrow⟩ bytes hbytes
    cases hbytes
    rw [hdecode, hmodifiers, hkind, hcolumn, hrow]
    rfl

theorem utf8Cell_iff (cell : UInt16) : Utf8Cell cell ↔
    (saturatingAdd u16Max cell.toNat 33).isValidChar ∧ saturatingAdd u16Max cell.toNat 33 - 33 = cell.toNat := by
  have hlt := cell.toNat_lt
  simp only [Utf8Cell, saturatingAdd, u16Max, Nat.isValidChar]
  omega

theorem charOf_valid {value : ℕ} (h : value.isValidChar) : charOf value = [Char.ofNat value] := if_pos h

theorem charOf_invalid {value : ℕ} (h : ¬ value.isValidChar) : charOf value = [] := if_neg h

theorem decodable_utf8 (h : Allowed mode mouse.kind) : Decodable mouse mode .utf8 ↔
    PlainModifiers mouse.modifiers ∧ Utf8Cell mouse.column ∧ Utf8Cell mouse.row := by
  have hspec := buttonCode_spec mouse.kind mouse.modifiers
  have hcode : (buttonCode mouse.kind mouse.modifiers + 32).isValidChar := by
    have := hspec.small
    simp only [Nat.isValidChar]
    omega
  unfold Decodable
  rw [encode_of_allowed h, encoded, utf8Cell_iff, utf8Cell_iff, ← carriedModifiers_eq]
  by_cases hcells : (saturatingAdd u16Max mouse.column.toNat 33).isValidChar ∧ (saturatingAdd u16Max mouse.row.toNat 33).isValidChar
  · obtain ⟨hcolumn, hrow⟩ := hcells
    have hshift : ∀ cell : UInt16, saturatingAdd u16Max cell.toNat 33 = saturatingAdd u16Max cell.toNat 33 - 33 + 33 := by
      intro cell
      simp only [saturatingAdd, u16Max]
      omega
    have hdecode : decodeMouse .utf8 (utf8Bytes mouse) =
        some ⟨legacyKind mouse.kind, carriedModifiers mouse.modifiers, saturatingAdd u16Max mouse.column.toNat 33 - 33,
          saturatingAdd u16Max mouse.row.toNat 33 - 33⟩ := by
      rw [decodeMouse, utf8Bytes, decodeUtf8_encoded, charOf_valid hcode, charOf_valid hcolumn,
        charOf_valid hrow]
      show reportOf (Char.ofNat _).toNat (Char.ofNat _).toNat (Char.ofNat _).toNat = _
      rw [toNat_ofNat hcode, toNat_ofNat hcolumn, toNat_ofNat hrow, ← reportOf_code, ← hshift, ← hshift]
    constructor
    · intro hall
      have hreport := Option.some.inj (hdecode.symm.trans (hall _ rfl))
      exact ⟨congrArg Report.modifiers hreport, ⟨hcolumn, congrArg Report.column hreport⟩, hrow,
        congrArg Report.row hreport⟩
    · rintro ⟨hmodifiers, ⟨-, hcolumn⟩, -, hrow⟩ bytes hbytes
      cases hbytes
      rw [hdecode, hmodifiers, hcolumn, hrow]
      rfl
  · have hnone : decodeMouse .utf8 (utf8Bytes mouse) = none := by
      rw [decodeMouse, utf8Bytes, decodeUtf8_encoded, charOf_valid hcode]
      by_cases hcolumn : (saturatingAdd u16Max mouse.column.toNat 33).isValidChar
      · rw [charOf_valid hcolumn, charOf_invalid fun hrow => hcells ⟨hcolumn, hrow⟩]
        rfl
      · rw [charOf_invalid hcolumn]
        by_cases hrow : (saturatingAdd u16Max mouse.row.toNat 33).isValidChar
        · rw [charOf_valid hrow]
          rfl
        · rw [charOf_invalid hrow]
          rfl
    constructor
    · intro hall
      cases hnone.symm.trans (hall _ rfl)
    · rintro ⟨-, ⟨hcolumn, -⟩, hrow, -⟩
      exact absurd ⟨hcolumn, hrow⟩ hcells

/-- A report can be read back in just these cases, and every event in reach has one. -/
theorem decodable_iff (mouse : MouseEvent) (mode : MouseProtocolMode) (encoding : MouseProtocolEncoding) :
    Decodable mouse mode encoding ∧ Answered mouse mode encoding ↔ Faithful mouse mode encoding := by
  rw [and_iff_left (answered mouse mode encoding)]
  by_cases h : Allowed mode mouse.kind
  · cases encoding with
    | default => simp only [decodable_default h, Faithful, h, true_implies]
    | utf8 => simp only [decodable_utf8 h, Faithful, h, true_implies]
    | sgr => simp only [decodable_sgr h, Faithful, h, true_implies]
  · have hdecodable : Decodable mouse mode encoding := by
      intro bytes hbytes
      rw [encode_of_not_allowed h] at hbytes
      cases hbytes
    refine ⟨fun _ => ?_, fun _ => hdecodable⟩
    cases encoding with
    | default | utf8 | sgr => exact fun hallowed => absurd hallowed h

/-- The release of the left button, as an SGR report tells it. -/
def leftRelease : MouseEvent := ⟨.up .left, 4, 2, ⟨false, false, false, false, false, false⟩⟩

theorem release_without_button :
    ¬ (Decodable leftRelease .anyMotion .sgr ∧ Answered leftRelease .anyMotion .sgr) := by
  rintro ⟨hdecodable, -⟩
  have hallowed : Allowed .anyMotion leftRelease.kind := by
    show 2 ≤ 4
    decide
  cases ((decodable_sgr hallowed).mp hdecodable).2.1

end Claim

end Lasper.Terminal.Mouse
