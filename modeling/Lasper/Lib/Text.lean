import Mathlib.Algebra.Order.Ring.Int
import Mathlib.Data.List.DropRight
import Lasper.Lib.Pieces

/-! Text as a list of characters, with the operations a byte-addressed string
offers: trimming, lines, byte offsets and the replacement of a byte range. An
offset inside a character has no place in the text. -/

namespace Lasper.Lib

abbrev Text := List Char

instance : LawfulBEq Text := inferInstanceAs (LawfulBEq (List Char))

/-- The Unicode `White_Space` property. -/
def isWhitespace (c : Char) : Bool :=
  let n := c.toNat
  (9 ≤ n && n ≤ 13) || n = 32 || n = 0x85 || n = 0xA0 || n = 0x1680 || (0x2000 ≤ n && n ≤ 0x200A) ||
    n = 0x2028 || n = 0x2029 || n = 0x202F || n = 0x205F || n = 0x3000

def isAsciiHexdigit (c : Char) : Bool :=
  c.isDigit || ('a' ≤ c && c ≤ 'f') || ('A' ≤ c && c ≤ 'F')

/-- The general category `Cc`. -/
def isControl (c : Char) : Bool := c.toNat < 32 || (127 ≤ c.toNat && c.toNat < 160)

namespace Text

def trimStart (text : Text) : Text := text.dropWhile isWhitespace

def trimEnd (text : Text) : Text := text.rdropWhile isWhitespace

def trim (text : Text) : Text := text.trimStart.trimEnd

/-- The parts before and after the first occurrence of a character. -/
def splitOnce (c : Char) : Text → Option (Text × Text)
  | [] => none
  | d :: rest =>
    if d = c then some ([], rest) else (splitOnce c rest).map fun (before, after) => (d :: before, after)

def toAsciiLower (c : Char) : Char :=
  if 'A' ≤ c ∧ c ≤ 'Z' then Char.ofNat (c.toNat + 32) else c

def eqIgnoreAsciiCase (a b : Text) : Bool := a.map toAsciiLower = b.map toAsciiLower

def byteLen (text : Text) : ℕ := (text.map Char.utf8Size).sum

/-- Cut the text at a byte offset, if a character starts there. -/
def splitBytes : Text → ℕ → Option (Text × Text)
  | text, 0 => some ([], text)
  | [], _ + 1 => none
  | c :: rest, offset + 1 =>
    if c.utf8Size ≤ offset + 1 then
      (splitBytes rest (offset + 1 - c.utf8Size)).map fun (before, after) => (c :: before, after)
    else none

/-- Replace the bytes from `start` to `stop`. -/
def replaceRange (text : Text) (start stop : ℕ) (replacement : Text) : Option Text := do
  let (before, rest) ← splitBytes text start
  if start ≤ stop then
    let (_, after) ← splitBytes rest (stop - start)
    return before ++ replacement ++ after
  else none

def stripPrefix (start text : Text) : Option Text := if start <+: text then some (text.drop start.length) else none

/-- A line without its ending, and the ending: `\r\n`, `\n` or nothing. -/
def splitEnding (raw : Text) : Text × Text :=
  if raw.getLast? = some '\n' then
    if raw.dropLast.getLast? = some '\r' then (raw.dropLast.dropLast, ['\r', '\n'])
    else (raw.dropLast, ['\n'])
  else (raw, [])

/-- The lines of a text, without their endings. -/
def lines (text : Text) : List Text := (pieces '\n' text).map fun raw => (splitEnding raw).1

section Bytes

variable {a b : Text}

@[simp] theorem byteLen_nil : byteLen [] = 0 := rfl

@[simp] theorem byteLen_append : byteLen (a ++ b) = byteLen a + byteLen b := by
  simp [byteLen]

@[simp] theorem byteLen_cons (c : Char) : byteLen (c :: a) = c.utf8Size + byteLen a := by
  simp [byteLen]

theorem splitOnce_append {c : Char} (h : c ∉ a) (rest : Text) : splitOnce c (a ++ c :: rest) = some (a, rest) := by
  induction a with
  | nil => simp [splitOnce]
  | cons d a ih =>
    rw [List.mem_cons, not_or] at h
    rw [List.cons_append, splitOnce, if_neg (Ne.symm h.1), ih h.2]
    rfl

theorem splitOnce_some {c : Char} {text : Text} (h : splitOnce c text = some (a, b)) : text = a ++ c :: b ∧ c ∉ a := by
  induction text generalizing a with
  | nil => cases h
  | cons d rest ih =>
    unfold splitOnce at h
    split_ifs at h with hd
    · cases h
      exact ⟨by rw [hd, List.nil_append], List.not_mem_nil⟩
    · obtain ⟨⟨before, after⟩, hrest, hparts⟩ := Option.map_eq_some_iff.mp h
      cases hparts
      obtain ⟨hsplit, hfree⟩ := ih hrest
      exact ⟨by rw [hsplit, List.cons_append], by simp [Ne.symm hd, hfree]⟩

theorem splitOnce_none {c : Char} {text : Text} (h : splitOnce c text = none) : c ∉ text := by
  intro hmem
  obtain ⟨before, after, hsplit, hfree⟩ := List.eq_append_cons_of_mem hmem
  rw [hsplit, splitOnce_append hfree] at h
  cases h

theorem stripPrefix_append (start text : Text) : stripPrefix start (start ++ text) = some text := by
  rw [stripPrefix, if_pos (List.prefix_append start text), List.drop_left]

theorem stripPrefix_some {start text rest : Text} (h : stripPrefix start text = some rest) : text = start ++ rest := by
  unfold stripPrefix at h
  split_ifs at h with hstart
  obtain ⟨rest', rfl⟩ := hstart
  rw [List.drop_left] at h
  rw [Option.some.inj h]

theorem utf8ByteSize_ofList (text : Text) : (String.ofList text).utf8ByteSize = byteLen text := by
  induction text with
  | nil => rfl
  | cons c rest ih =>
    have hcons : String.ofList ([c] ++ rest) = String.ofList [c] ++ String.ofList rest := String.ofList_append
    rw [List.singleton_append] at hcons
    rw [hcons, String.utf8ByteSize_append, ih, byteLen_cons, ← String.singleton_eq_ofList, String.utf8ByteSize_singleton]

/-- A text of so many letters. -/
def letters (n : ℕ) : String := String.ofList (List.replicate n 'x')

theorem letters_bytes (n : ℕ) : (letters n).toUTF8.data.toList = List.replicate n 120 := by
  induction n with
  | zero => rfl
  | succ n ih =>
    have hone : (String.ofList ['x']).toUTF8.data.toList = [120] := by decide
    have hsplit : letters (n + 1) = String.ofList ['x'] ++ letters n := by
      rw [letters, letters, ← String.ofList_append, List.singleton_append, List.replicate_succ]
    have happend : ∀ a b : String, (a ++ b).toUTF8.data.toList = a.toUTF8.data.toList ++ b.toUTF8.data.toList := by
      intro a b
      simp [String.toByteArray_append]
    rw [hsplit, happend, hone, ih, List.replicate_succ, List.singleton_append]

theorem letters_size (n : ℕ) : (letters n).utf8ByteSize = n := by
  have hsize : (letters n).utf8ByteSize = (letters n).toUTF8.data.toList.length := rfl
  rw [hsize, letters_bytes, List.length_replicate]

theorem byteLen_pos (h : a ≠ []) : 0 < byteLen a := by
  cases a with
  | nil => exact absurd rfl h
  | cons c a =>
    have := Char.utf8Size_pos c
    rw [byteLen_cons]
    omega

theorem splitBytes_append : splitBytes (a ++ b) (byteLen a) = some (a, b) := by
  induction a with
  | nil => simp [splitBytes]
  | cons c a ih =>
    have hc : 0 < c.utf8Size := Char.utf8Size_pos c
    obtain ⟨n, hn⟩ : ∃ n, byteLen (c :: a) = n + 1 :=
      ⟨c.utf8Size + byteLen a - 1, by rw [byteLen_cons]; omega⟩
    rw [hn, List.cons_append, splitBytes]
    rw [byteLen_cons] at hn
    rw [if_pos (by omega), show n + 1 - c.utf8Size = byteLen a by omega, ih]
    rfl

theorem replaceRange_append {c r : Text} :
    replaceRange (a ++ b ++ c) (byteLen a) (byteLen a + byteLen b) r = some (a ++ r ++ c) := by
  have hstart : splitBytes (a ++ b ++ c) (byteLen a) = some (a, b ++ c) := by
    rw [List.append_assoc]
    exact splitBytes_append
  simp only [replaceRange, hstart, Option.bind_eq_bind, Option.bind_some]
  rw [if_pos (Nat.le_add_right _ _), Nat.add_sub_cancel_left, splitBytes_append]
  rfl

end Bytes

theorem splitEnding_append (raw : Text) : (splitEnding raw).1 ++ (splitEnding raw).2 = raw := by
  unfold splitEnding
  split_ifs with h h'
  · have hraw := List.dropLast_append_getLast? _ h
    have hrest := List.dropLast_append_getLast? _ h'
    show raw.dropLast.dropLast ++ (['\r'] ++ ['\n']) = raw
    rw [← List.append_assoc, hrest, hraw]
  · exact List.dropLast_append_getLast? _ h
  · exact List.append_nil raw

end Text

end Lasper.Lib
