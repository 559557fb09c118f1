import Lasper.Tar.Limits

/-! Well-formed archives. A header states a size in octal or in binary, a PAX
header carries records that may override it, and a sparse entry may go on in
extension headers. -/

namespace Lasper.Tar

open Lib Checked

section Sizes

/-- What a size field may hold: nothing, octal digits between padding, or a
binary number behind a marker bit. -/
inductive SizeField : Bytes → ℕ → Prop
  | blank {field : Bytes} (padding : ∀ byte ∈ field, isPadding byte = true) : SizeField field 0
  | octal {before digits after : Bytes} (hbefore : ∀ byte ∈ before, isPadding byte = true)
      (hafter : ∀ byte ∈ after, isPadding byte = true) (nonempty : digits ≠ [])
      (hdigits : ∀ byte ∈ digits, isDigit 8 byte = true)
      (fits : numeral 8 0 (digits.map digitValue) < wordBound) :
      SizeField (before ++ (digits ++ after)) (numeral 8 0 (digits.map digitValue))
  | binary {first : UInt8} {rest : Bytes} (marked : first &&& 0x80 ≠ 0) (positive : first &&& 0x40 = 0)
      (fits : numeral 256 (first &&& 0x7f).toNat (rest.map (·.toNat)) < wordBound) :
      SizeField (first :: rest) (numeral 256 (first &&& 0x7f).toNat (rest.map (·.toNat)))

theorem byte_cases {P : UInt8 → Prop} (h : ∀ n < 256, P (UInt8.ofNat n)) (byte : UInt8) : P byte := by
  have hbyte := h byte.toNat byte.toNat_lt
  rwa [UInt8.ofNat_toNat] at hbyte

theorem octal_unmarked (byte : UInt8) : isDigit 8 byte = true → byte &&& 0x80 = 0 :=
  byte_cases (P := fun byte => isDigit 8 byte = true → byte &&& 0x80 = 0) (by decide +kernel) byte

theorem octal_not_padding (byte : UInt8) : isDigit 8 byte = true → isPadding byte = false :=
  byte_cases (P := fun byte => isDigit 8 byte = true → isPadding byte = false) (by decide +kernel) byte

theorem padding_unmarked (byte : UInt8) : isPadding byte = true → byte &&& 0x80 = 0 :=
  byte_cases (P := fun byte => isPadding byte = true → byte &&& 0x80 = 0) (by decide +kernel) byte

theorem readOctal_eq {digits : Bytes} (hdigits : ∀ byte ∈ digits, isDigit 8 byte = true) (value : ℕ) :
    readOctal value digits = readNumeral 8 "Tar entry size overflowed" value (digits.map digitValue) := by
  induction digits generalizing value with
  | nil => rfl
  | cons byte rest ih =>
    have hbyte := hdigits byte List.mem_cons_self
    simp only [readOctal, hbyte, not_true_eq_false, if_false, List.map_cons, readNumeral]
    congr 1
    funext value
    exact ih (fun other hother => hdigits other (List.mem_cons_of_mem _ hother)) value

theorem position_append {p : UInt8 → Bool} {before : Bytes} (hbefore : ∀ byte ∈ before, p byte = false)
    {first : UInt8} (hfirst : p first = true) (rest : Bytes) :
    position p (before ++ first :: rest) = some before.length := by
  unfold position
  rw [List.findIdx?_eq_some_iff_getElem]
  refine ⟨by simp, by simpa using hfirst, fun j hj => ?_⟩
  rw [List.getElem_append_left hj]
  simpa using hbefore _ (List.getElem_mem hj)

theorem rposition_append {p : UInt8 → Bool} {after : Bytes} (hafter : ∀ byte ∈ after, p byte = false)
    {last : UInt8} (hlast : p last = true) (before : Bytes) :
    rposition p (before ++ last :: after) = some before.length := by
  have hreverse : (before ++ last :: after).reverse = after.reverse ++ last :: before.reverse := by simp
  have hback := position_append (fun byte hbyte => hafter byte (List.mem_reverse.mp hbyte)) hlast before.reverse
  unfold position at hback
  rw [rposition, hreverse, hback, Option.map_some, List.length_append, List.length_cons, List.length_reverse]
  congr 1
  omega

theorem unmarked_head {field : Bytes} (h : ∀ byte ∈ field, byte &&& 0x80 = 0) :
    ¬ (field.head?.any fun byte => byte &&& 0x80 ≠ 0) = true := by
  cases field with
  | nil => exact Bool.false_ne_true
  | cons first rest => simp [h first List.mem_cons_self]

theorem SizeField.parse {field : Bytes} {size : ℕ} (h : SizeField field size) (hfield : field.length < wordBound) :
    parseTarSize field = .ok size := by
  cases h with
  | blank padding =>
    have hnone : position (! isPadding ·) field = none := by
      rw [position, List.findIdx?_eq_none_iff]
      intro byte hbyte
      rw [padding byte hbyte]
      rfl
    rw [parseTarSize, if_neg (unmarked_head fun byte hbyte => padding_unmarked byte (padding byte hbyte)), hnone]
  | @octal before digits after hbefore hafter nonempty hdigits fits =>
    have hunmarked : ∀ byte ∈ before ++ (digits ++ after), byte &&& 0x80 = 0 := by
      intro byte hbyte
      simp only [List.mem_append] at hbyte
      rcases hbyte with hbyte | hbyte | hbyte
      · exact padding_unmarked byte (hbefore byte hbyte)
      · exact octal_unmarked byte (hdigits byte hbyte)
      · exact padding_unmarked byte (hafter byte hbyte)
    have hpadding : ∀ part : Bytes, (∀ byte ∈ part, isPadding byte = true) →
        ∀ byte ∈ part, (! isPadding byte) = false := by
      intro part hpart byte hbyte
      rw [hpart byte hbyte]
      rfl
    have hdigit : ∀ byte ∈ digits, (! isPadding byte) = true := by
      intro byte hbyte
      rw [octal_not_padding byte (hdigits byte hbyte)]
      rfl
    have hstart : position (! isPadding ·) (before ++ (digits ++ after)) = some before.length := by
      cases digits with
      | nil => exact absurd rfl nonempty
      | cons first rest => exact position_append (hpadding before hbefore) (hdigit first List.mem_cons_self) _
    have hlast : rposition (! isPadding ·) (before ++ (digits ++ after)) =
        some (before.length + digits.length - 1) := by
      have hshape : before ++ (digits ++ after) =
          (before ++ digits.dropLast) ++ digits.getLast nonempty :: after := by
        nth_rewrite 1 [← List.dropLast_append_getLast nonempty]
        simp only [List.append_assoc, List.singleton_append]
      rw [hshape, rposition_append (hpadding after hafter) (hdigit _ (List.getLast_mem nonempty)),
        List.length_append, List.length_dropLast]
      have hpos : 0 < digits.length := List.length_pos_iff.mpr nonempty
      congr 1
      omega
    have hlength : 0 < digits.length := List.length_pos_iff.mpr nonempty
    have htotal : before.length + digits.length ≤ (before ++ (digits ++ after)).length := by
      simp only [List.length_append]
      omega
    have hslice : ((before ++ (digits ++ after)).take (before.length + digits.length)).drop before.length = digits := by
      rw [← List.append_assoc, ← List.length_append, List.take_left, List.drop_left]
    have hstop : before.length + digits.length - 1 + 1 = before.length + digits.length := by omega
    rw [parseTarSize, if_neg (unmarked_head hunmarked), hstart]
    simp only [hlast]
    have hplus : (plus (before.length + digits.length - 1) 1 : Scan ℕ) = .ok (before.length + digits.length) := by
      rw [plus_of_lt (by omega), hstop]
    have hcut : (slice (before ++ (digits ++ after)) before.length (before.length + digits.length) : Scan Bytes) =
        .ok digits := by
      rw [slice_of_le (by omega) htotal, hslice]
    show (Except.ok (before.length + digits.length - 1) >>= fun last => plus last 1 >>= fun stop =>
      slice (before ++ (digits ++ after)) before.length stop >>= fun digits => readOctal 0 digits) = _
    have hread : readOctal 0 digits = .ok (numeral 8 0 (digits.map digitValue)) := by
      rw [readOctal_eq hdigits, readNumeral_eq (by decide) _ _ (by decide), if_pos fits]
    simp only [bind, Except.bind, hplus, hcut, hread]
  | @binary first rest marked positive fits =>
    have hmarked : ((first :: rest).head?.any fun byte => byte &&& 0x80 ≠ 0) = true := by simpa using marked
    have hsmall : (first &&& 0x7f).toNat < wordBound := Nat.lt_of_lt_of_le (first &&& 0x7f).toNat_lt (by decide)
    have hnumeral : numeral 256 0 (base256Digits (first :: rest)) =
        numeral 256 (first &&& 0x7f).toNat (rest.map (·.toNat)) := by
      simp [numeral, base256Digits]
    rw [parseTarSize, if_pos hmarked]
    show (if first &&& 0x40 ≠ 0 then _ else readNumeral 256 _ 0 (base256Digits (first :: rest))) = _
    rw [if_neg (not_not.mpr positive), readNumeral_eq (by decide) _ _ (by decide), hnumeral, if_pos fits]

end Sizes

section Records

/-- Digits of a number that fits a word. -/
structure DecimalField (value : Bytes) : Prop where
  nonempty : value ≠ []
  digits : ∀ byte ∈ value, isDigit 10 byte = true
  fits : numeral 10 0 (value.map digitValue) < wordBound

theorem DecimalField.parse {value : Bytes} (h : DecimalField value) :
    parseDecimalSize value = .ok (numeral 10 0 (value.map digitValue)) := by
  have hdigits : value.all (isDigit 10) = true := List.all_eq_true.mpr h.digits
  rw [parseDecimalSize, if_neg (by simp [h.nonempty, hdigits]), readNumeral_eq (by decide) _ _ (by decide),
    if_pos h.fits]

def isSparseSizeKey (key : Bytes) : Bool := key = ascii "GNU.sparse.realsize" || key = ascii "GNU.sparse.size"

/-- A record `length key=value`, whose length counts itself, with any value. -/
structure FramedRecord where
  digits : Bytes
  key : Bytes
  value : Bytes
  length_digits : DecimalField digits
  length_eq : numeral 10 0 (digits.map digitValue) = digits.length + key.length + value.length + 3
  key_plain : 61 ∉ key

namespace FramedRecord

def encode (record : FramedRecord) : Bytes :=
  record.digits ++ 32 :: (record.key ++ 61 :: (record.value ++ [10]))

theorem encode_length (record : FramedRecord) :
    record.encode.length = record.digits.length + record.key.length + record.value.length + 3 := by
  simp only [encode, List.length_append, List.length_cons, List.length_nil]
  omega

end FramedRecord

theorem digit_not_space (byte : UInt8) : isDigit 10 byte = true → byte ≠ 32 :=
  byte_cases (P := fun byte => isDigit 10 byte = true → byte ≠ 32) (by decide +kernel) byte

theorem position_first {byte : UInt8} {before : Bytes} (hbefore : byte ∉ before) (rest : Bytes) :
    position (· = byte) (before ++ byte :: rest) = some before.length := by
  refine position_append (fun other hother => ?_) (decide_eq_true rfl) rest
  exact decide_eq_false fun heq => hbefore (heq ▸ hother)

/-- The part of a text between two others. -/
theorem slice_middle {α : Type} (before middle after : List α) {stop : ℕ}
    (hstop : stop = before.length + middle.length) :
    (slice (before ++ (middle ++ after)) before.length stop : Scan (List α)) = .ok middle := by
  subst hstop
  rw [slice_of_le (by omega) (by simp only [List.length_append]; omega), ← List.append_assoc,
    ← List.length_append, List.take_left, List.drop_left]

/-- A framed record is taken apart; only its hint may be refused. -/
theorem parsePaxRecord_framed (before after : Bytes) (record : FramedRecord) (hints : PaxSizeHints)
    (hpayload : (before ++ (record.encode ++ after)).length < wordBound) :
    parsePaxRecord (before ++ (record.encode ++ after)) before.length hints =
      recordHint hints record.key record.value >>= fun hints =>
        .ok (hints, before.length + record.encode.length) := by
  have hlength := record.encode_length
  have htotal : (before ++ (record.encode ++ after)).length =
      before.length + record.encode.length + after.length := by
    simp only [List.length_append]
    omega
  have hbytes : before ++ (record.encode ++ after) =
      before ++ (record.digits ++ (32 :: (record.key ++ 61 :: (record.value ++ 10 :: after)))) := by
    simp [FramedRecord.encode]
  have hrest : (slice (before ++ (record.encode ++ after)) before.length
      (before ++ (record.encode ++ after)).length : Scan Bytes) = .ok (record.encode ++ after) := by
    have hslice : (slice (before ++ ((record.encode ++ after) ++ [])) before.length
        (before ++ (record.encode ++ after)).length : Scan Bytes) = .ok (record.encode ++ after) :=
      slice_middle before _ [] (by simp only [List.length_append])
    rwa [List.append_nil] at hslice
  have hspace : position (· = 32) (record.encode ++ after) = some record.digits.length := by
    have hshape : record.encode ++ after =
        record.digits ++ 32 :: (record.key ++ 61 :: (record.value ++ [10]) ++ after) := by
      simp [FramedRecord.encode]
    rw [hshape]
    refine position_first (fun hmem => ?_) _
    exact digit_not_space 32 (record.length_digits.digits 32 hmem) rfl
  have hdigits : (slice (before ++ (record.encode ++ after)) before.length
      (before.length + record.digits.length) : Scan Bytes) = .ok record.digits := by
    rw [hbytes]
    exact slice_middle before record.digits _ rfl
  have hdecimal : parseDecimalSize record.digits = .ok record.encode.length := by
    rw [record.length_digits.parse, record.length_eq, hlength]
  have hend : (add? before.length record.encode.length).filter
      (· ≤ (before ++ (record.encode ++ after)).length) = some (before.length + record.encode.length) := by
    rw [add?, if_pos (by omega)]
    simp only [Option.filter_some, decide_eq_true_eq, ite_eq_left_iff]
    omega
  have hending : (index (before ++ (record.encode ++ after)) (before.length + record.encode.length - 1) :
      Scan UInt8) = .ok 10 := by
    have hshape : before ++ (record.encode ++ after) =
        (before ++ (record.digits ++ 32 :: (record.key ++ 61 :: record.value))) ++ 10 :: after := by
      simp [FramedRecord.encode]
    have hlast : before.length + record.encode.length - 1 =
        (before ++ (record.digits ++ 32 :: (record.key ++ 61 :: record.value))).length := by
      rw [hlength]
      simp only [List.length_append, List.length_cons]
      omega
    rw [hlast, hshape, index, List.getElem?_append_right (Nat.le_refl _), Nat.sub_self]
    rfl
  have hrecord : (slice (before ++ (record.encode ++ after)) (before.length + record.digits.length + 1)
      (before.length + record.encode.length - 1) : Scan Bytes) = .ok (record.key ++ 61 :: record.value) := by
    have hshape : before ++ (record.encode ++ after) =
        (before ++ record.digits ++ [32]) ++ ((record.key ++ 61 :: record.value) ++ 10 :: after) := by
      simp [FramedRecord.encode]
    have hstart : before.length + record.digits.length + 1 = (before ++ record.digits ++ [32]).length := by
      simp only [List.length_append, List.length_singleton]
    rw [hshape, hstart]
    refine slice_middle _ _ _ ?_
    rw [hlength]
    simp only [List.length_append, List.length_cons, List.length_nil]
    omega
  have hseparator : position (· = 61) (record.key ++ 61 :: record.value) = some record.key.length :=
    position_first record.key_plain _
  have hvalue : (slice (record.key ++ 61 :: record.value) (record.key.length + 1)
      (record.key ++ 61 :: record.value).length : Scan Bytes) = .ok record.value := by
    have hshape : record.key ++ 61 :: record.value = (record.key ++ [61]) ++ (record.value ++ []) := by simp
    have hstart : record.key.length + 1 = (record.key ++ [61]).length := by simp
    rw [hshape, hstart]
    refine slice_middle _ _ _ ?_
    simp only [List.length_append, List.length_nil]
    omega
  have hkey : (slice (record.key ++ 61 :: record.value) 0 record.key.length : Scan Bytes) = .ok record.key :=
    slice_middle [] record.key (61 :: record.value) (Nat.zero_add _).symm
  have hshort : ¬ before.length + record.encode.length ≤ before.length + record.digits.length + 1 := by omega
  have hkeyLength : (record.key ++ 61 :: record.value).length = record.key.length + 1 + record.value.length := by
    simp only [List.length_append, List.length_cons]
    omega
  unfold parsePaxRecord
  rw [bind_of_ok hrest, bind_of_ok (orReport_of_some hspace _), bind_of_ok (plus_of_lt (by omega)),
    bind_of_ok hdigits, bind_of_ok hdecimal, bind_of_ok (orReport_of_some hend _),
    bind_of_ok (plus_of_lt (by omega)), if_neg hshort, bind_of_ok (minus_of_le (by omega)), bind_of_ok hending,
    if_neg (by decide), bind_of_ok hrecord, bind_of_ok (orReport_of_some hseparator _),
    bind_of_ok (plus_of_lt (by omega)), bind_of_ok hvalue, bind_of_ok hkey]
  rfl

/-- A record whose value is a number where its key names a size. -/
structure PaxRecord extends FramedRecord where
  sizes : key = ascii "size" ∨ isSparseSizeKey key = true → DecimalField value

namespace PaxRecord

/-- The size that the record's value states. -/
def stated (record : PaxRecord) : ℕ := numeral 10 0 (record.value.map digitValue)

def hint (hints : PaxSizeHints) (record : PaxRecord) : PaxSizeHints :=
  if record.key = ascii "size" then { hints with streamSize := some record.stated }
  else if isSparseSizeKey record.key then { hints with logicalSize := some record.stated }
  else hints

theorem recordHint_eq (record : PaxRecord) (hints : PaxSizeHints) :
    recordHint hints record.key record.value = .ok (record.hint hints) := by
  unfold recordHint hint
  split_ifs with hsize hother hsparse hsparse
  · rw [(record.sizes (.inl hsize)).parse]
    rfl
  · rw [(record.sizes (.inr hsparse)).parse]
    rfl
  · exact absurd (by simpa [isSparseSizeKey] using hother) hsparse
  · exact absurd (by simpa [isSparseSizeKey] using hsparse) hother
  · rfl

end PaxRecord

theorem parsePaxRecord_eq (before after : Bytes) (record : PaxRecord) (hints : PaxSizeHints)
    (hpayload : (before ++ (record.encode ++ after)).length < wordBound) :
    parsePaxRecord (before ++ (record.encode ++ after)) before.length hints =
      .ok (record.hint hints, before.length + record.encode.length) := by
  rw [parsePaxRecord_framed before after record.toFramedRecord hints hpayload]
  exact bind_of_ok (record.recordHint_eq hints)

def encodeRecords (records : List PaxRecord) : Bytes := records.flatMap fun record => record.encode

/-- Later records win. -/
def hintsOf (records : List PaxRecord) : PaxSizeHints := records.foldl PaxRecord.hint .default

theorem length_le_encodeRecords (records : List PaxRecord) : records.length ≤ (encodeRecords records).length := by
  induction records with
  | nil => exact Nat.le_refl 0
  | cons record records ih =>
    have hlength := record.encode_length
    have hcons : (encodeRecords (record :: records)).length = record.encode.length + (encodeRecords records).length := by
      simp only [encodeRecords, List.flatMap_cons, List.length_append]
    rw [List.length_cons]
    omega

theorem parsePaxRecords_eq (records : List PaxRecord) (before : Bytes) (hints : PaxSizeHints) (fuel : ℕ)
    (hfuel : records.length < fuel) (hpayload : (before ++ encodeRecords records).length < wordBound) :
    parsePaxRecords (before ++ encodeRecords records) fuel before.length hints =
      .ok (records.foldl PaxRecord.hint hints) := by
  induction records generalizing before hints fuel with
  | nil =>
    obtain ⟨fuel, rfl⟩ := Nat.exists_eq_add_one.mpr (Nat.zero_lt_of_lt hfuel)
    rw [parsePaxRecords, if_neg (by simp [encodeRecords])]
    rfl
  | cons record records ih =>
    obtain ⟨fuel, rfl⟩ := Nat.exists_eq_add_one.mpr (Nat.zero_lt_of_lt hfuel)
    have hlength := record.encode_length
    have hcons : before ++ encodeRecords (record :: records) =
        before ++ (record.encode ++ encodeRecords records) := by
      simp only [encodeRecords, List.flatMap_cons]
    rw [hcons] at hpayload ⊢
    have hmore : before.length < (before ++ (record.encode ++ encodeRecords records)).length := by
      simp only [List.length_append]
      omega
    rw [parsePaxRecords, if_pos hmore, bind_of_ok (parsePaxRecord_eq before _ record hints hpayload)]
    have hnext := ih (before ++ record.encode) (record.hint hints) fuel
      (by rw [List.length_cons] at hfuel; omega) (by rwa [List.append_assoc])
    rw [List.append_assoc, List.length_append] at hnext
    exact hnext

theorem parsePaxSizeHints_eq {records : List PaxRecord} (hpayload : (encodeRecords records).length < wordBound) :
    parsePaxSizeHints (encodeRecords records) = .ok (hintsOf records) := by
  have hcount := length_le_encodeRecords records
  exact parsePaxRecords_eq records [] .default _ (by omega) hpayload

end Records

section Entries

/-- A header block with the size that it states. -/
structure Header where
  bytes : Bytes
  size : ℕ
  length_eq : bytes.length = 512
  size_field : SizeField ((bytes.take 136).drop 124) size
  nonzero : ¬ bytes.all (· = 0) = true

def Header.entryType (header : Header) : UInt8 := header.bytes.getD 156 0

/-- The header of a sparse entry states its real size too. -/
structure SparseHeader extends Header where
  realSize : ℕ
  real_field : SizeField ((bytes.take 495).drop 483) realSize

structure Block where
  bytes : Bytes
  length_eq : bytes.length = 512

inductive Entry
  | pax (isGlobal : Bool) (header : Header) (records : List PaxRecord) (padding : Bytes)
  | longName (header : Header) (data : Bytes)
  | file (header : Header) (data : Bytes)
  | sparse (header : SparseHeader) (extensions : List Block) (data : Bytes)

/-- Sizes are rounded up to whole blocks. -/
def padded (size : ℕ) : ℕ := (size + 511) / 512 * 512

/-- The extension headers go on as long as each says so. -/
def Chained : Bool → List Block → Prop
  | extended, [] => extended = false
  | extended, block :: rest => extended = true ∧ Chained (block.bytes.getD 504 0 ≠ 0) rest

instance decidableChained : (extended : Bool) → (blocks : List Block) → Decidable (Chained extended blocks)
  | extended, [] => inferInstanceAs (Decidable (extended = false))
  | extended, block :: rest =>
    have := decidableChained (block.bytes.getD 504 0 ≠ 0) rest
    inferInstanceAs (Decidable (extended = true ∧ Chained (block.bytes.getD 504 0 ≠ 0) rest))

namespace Entry

def header : Entry → Header
  | .pax _ header _ _ | .longName header _ | .file header _ => header
  | .sparse header _ _ => header.toHeader

/-- What follows the header. -/
def body : Entry → Bytes
  | .pax _ _ records padding => encodeRecords records ++ padding
  | .longName _ data | .file _ data => data
  | .sparse _ extensions data => extensions.flatMap Block.bytes ++ data

def encode (entry : Entry) : Bytes := entry.header.bytes ++ entry.body

def globalPax (hints : PaxSizeHints) : Entry → PaxSizeHints
  | .pax true _ records _ => hints.overlay (hintsOf records)
  | _ => hints

/-- Local hints are for the next entry with content. -/
def localPax (hints : PaxSizeHints) : Entry → PaxSizeHints
  | .pax false _ records _ => hints.overlay (hintsOf records)
  | .pax true _ _ _ | .longName _ _ => hints
  | .file _ _ | .sparse _ _ _ => .default

/-- The bytes that an entry has in the archive. -/
def streamSize (hints : PaxSizeHints) (entry : Entry) : ℕ := hints.streamSize.getD entry.header.size

/-- The bytes that an entry would take on disk. -/
def logicalSize (hints : PaxSizeHints) : Entry → ℕ
  | .pax _ _ _ _ | .longName _ _ => 0
  | .file header data =>
    let stream := (Entry.file header data).streamSize hints
    max (hints.logicalSize.getD stream) stream
  | .sparse header extensions data =>
    let stream := (Entry.sparse header extensions data).streamSize hints
    max (max (hints.logicalSize.getD stream) stream) header.realSize

/-- Its type says what it is, and its body is what its header and the hints say. -/
def Fits (hints : PaxSizeHints) : Entry → Prop
  | .pax isGlobal header records padding =>
    header.entryType = (if isGlobal then 103 else 120) ∧ header.size = (encodeRecords records).length ∧
      (encodeRecords records ++ padding).length = padded header.size
  | .longName header data => (header.entryType = 76 ∨ header.entryType = 75) ∧ data.length = padded header.size
  | .file header data =>
    header.entryType ∉ ([120, 103, 76, 75, 83] : List UInt8) ∧
      data.length = padded ((Entry.file header data).streamSize hints)
  | .sparse header extensions data =>
    header.entryType = 83 ∧ Chained (header.bytes.getD 482 0 ≠ 0) extensions ∧
      data.length = padded ((Entry.sparse header extensions data).streamSize hints)

/-- The limits on metadata: a megabyte for a header's payload, and as many
extension headers as there may be entries. -/
def Bounded (maxEntries : ℕ) : Entry → Prop
  | .pax _ header _ _ | .longName header _ => header.size ≤ maxMetadataBytes
  | .file _ _ => True
  | .sparse _ extensions _ => extensions.length ≤ maxEntries

end Entry

/-- Every entry fits the hints in force where it stands. -/
def WellFormed (globalPax localPax : PaxSizeHints) : List Entry → Prop
  | [] => True
  | entry :: rest => entry.Fits (globalPax.overlay localPax) ∧
    WellFormed (entry.globalPax globalPax) (entry.localPax localPax) rest

def logicalTotal (globalPax localPax : PaxSizeHints) : List Entry → ℕ
  | [] => 0
  | entry :: rest => entry.logicalSize (globalPax.overlay localPax) +
    logicalTotal (entry.globalPax globalPax) (entry.localPax localPax) rest

/-- The entries, and two zero blocks. -/
def archive (entries : List Entry) : Bytes := entries.flatMap Entry.encode ++ List.replicate 1024 0

end Entries

end Lasper.Tar
