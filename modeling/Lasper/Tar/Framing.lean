import Lasper.Tar.Hints

/-! What the field readers take and refuse: a size field is read exactly when it states a size
that fits a word, and a PAX block exactly as the framed records that it is built of. -/

namespace Lasper.Tar

open Lib Checked

section Sizes

variable {field digits : Bytes} {value size : ℕ}

theorem readOctal_ok (hvalue : value < wordBound) (h : readOctal value digits = .ok size) :
    (∀ byte ∈ digits, isDigit 8 byte = true) ∧ size = numeral 8 value (digits.map digitValue) ∧
      numeral 8 value (digits.map digitValue) < wordBound := by
  have hdigits : ∀ byte ∈ digits, isDigit 8 byte = true := by
    clear hvalue
    induction digits generalizing value with
    | nil => exact fun byte hbyte => absurd hbyte List.not_mem_nil
    | cons first rest ih =>
      unfold readOctal at h
      split_ifs at h with hfirst
      · obtain ⟨next, -, h⟩ := bind_ok h
        intro byte hbyte
        rcases List.mem_cons.mp hbyte with rfl | hbyte
        · exact hfirst
        · exact ih h byte hbyte
      · cases h
  rw [readOctal_eq hdigits, readNumeral_eq (by decide) _ _ hvalue] at h
  split_ifs at h with hfits
  · cases h
    exact ⟨hdigits, rfl, hfits⟩
  · cases h

theorem position_before {p : UInt8 → Bool} {i : ℕ} (h : position p field = some i) :
    ∀ byte ∈ field.take i, p byte = false := by
  obtain ⟨hi, hp, hfirst⟩ := List.findIdx?_eq_some_iff_getElem.mp h
  intro byte hbyte
  obtain ⟨j, hj, rfl⟩ := List.mem_take_iff_getElem.mp hbyte
  exact Bool.eq_false_of_not_eq_true (hfirst j (by omega))

/-- Behind the last byte of a kind there is none. -/
theorem rposition_after {p : UInt8 → Bool} {last : ℕ} (h : rposition p field = some last) :
    ∀ byte ∈ field.drop (last + 1), p byte = false := by
  obtain ⟨fromEnd, hback, rfl⟩ := Option.map_eq_some_iff.mp h
  have hlt : fromEnd < field.reverse.length := position_lt hback
  rw [List.length_reverse] at hlt
  have hdrop : field.drop (field.length - 1 - fromEnd + 1) = (field.reverse.take fromEnd).reverse := by
    rw [List.reverse_take, List.reverse_reverse, List.length_reverse]
    congr 1
    omega
  intro byte hbyte
  rw [hdrop, List.mem_reverse] at hbyte
  exact position_before hback byte hbyte

/-- What is read as a size is a size field that states it. -/
theorem parseTarSize_ok (h : parseTarSize field = .ok size) : SizeField field size := by
  unfold parseTarSize at h
  split_ifs at h with hmarked
  · cases field with
    | nil => cases hmarked
    | cons first rest =>
      obtain ⟨byte, hbyte, h⟩ := bind_ok h
      have hfirst : byte = first := by
        cases hbyte
        rfl
      subst hfirst
      split_ifs at h with hnegative
      · cases h
      · rw [readNumeral_eq (by decide) _ _ (by decide)] at h
        split_ifs at h with hfits
        · cases h
          have hnumeral : numeral 256 0 (base256Digits (byte :: rest)) =
              numeral 256 (byte &&& 0x7f).toNat (rest.map (·.toNat)) := by
            simp [numeral, base256Digits]
          rw [hnumeral] at hfits ⊢
          exact .binary (by simpa using hmarked) (not_not.mp hnegative) hfits
        · cases h
  · cases hstart : position (! isPadding ·) field with
    | none =>
      rw [hstart] at h
      cases h
      rw [position, List.findIdx?_eq_none_iff] at hstart
      exact .blank fun byte hbyte => by simpa using hstart byte hbyte
    | some start =>
      obtain ⟨last, hlast, hle, hlt⟩ := position_rposition hstart
      rw [hstart] at h
      simp only [hlast] at h
      obtain ⟨found, hfound, h⟩ := bind_ok h
      cases hfound
      obtain ⟨stop, hstop, h⟩ := bind_ok h
      obtain ⟨digits, hdigits, h⟩ := bind_ok h
      have hstop := plus_ok hstop
      have hdigits := (slice_ok hdigits).2.2
      obtain ⟨hoctal, hsize, hfits⟩ := readOctal_ok (by decide) h
      have hfield : field = field.take start ++ (digits ++ field.drop stop) := by
        have hrest : digits ++ field.drop stop = field.drop start := by
          rw [hdigits, show field.drop stop = (field.drop start).drop (stop - start) by
            rw [List.drop_drop]; congr 1; omega]
          exact List.take_append_drop _ _
        rw [hrest, List.take_append_drop]
      have hne : digits ≠ [] := by
        rw [hdigits, ← List.length_pos_iff, List.length_take, List.length_drop]
        omega
      rw [hfield, hsize]
      refine .octal (fun byte hbyte => ?_) (fun byte hbyte => ?_) hne hoctal hfits
      · simpa using position_before hstart byte hbyte
      · subst hstop
        simpa using rposition_after hlast byte hbyte

end Sizes

section Frames

def encodeFrames (records : List FramedRecord) : Bytes := records.flatMap FramedRecord.encode

/-- What a list of records says of the sizes: each is taken in turn, or refused. -/
def hintFrames (hints : PaxSizeHints) (records : List FramedRecord) : Scan PaxSizeHints :=
  records.foldlM (fun hints record => recordHint hints record.key record.value) hints

variable {record : FramedRecord} {records : List FramedRecord}

theorem encodeFrames_cons (record : FramedRecord) (records : List FramedRecord) :
    encodeFrames (record :: records) = record.encode ++ encodeFrames records := List.flatMap_cons

theorem length_le_encodeFrames (records : List FramedRecord) :
    records.length ≤ (encodeFrames records).length := by
  induction records with
  | nil => exact Nat.le_refl 0
  | cons record records ih =>
    have hlength := record.encode_length
    rw [encodeFrames_cons, List.length_cons, List.length_append]
    omega

theorem parsePaxRecords_frames (records : List FramedRecord) (before : Bytes) (hints : PaxSizeHints) (fuel : ℕ)
    (hfuel : records.length < fuel) (hpayload : (before ++ encodeFrames records).length < wordBound) :
    parsePaxRecords (before ++ encodeFrames records) fuel before.length hints = hintFrames hints records := by
  induction records generalizing before hints fuel with
  | nil =>
    obtain ⟨fuel, rfl⟩ := Nat.exists_eq_add_one.mpr (Nat.zero_lt_of_lt hfuel)
    rw [parsePaxRecords, if_neg (by simp [encodeFrames])]
    rfl
  | cons record records ih =>
    obtain ⟨fuel, rfl⟩ := Nat.exists_eq_add_one.mpr (Nat.zero_lt_of_lt hfuel)
    have hlength := record.encode_length
    rw [encodeFrames_cons] at hpayload ⊢
    have hmore : before.length < (before ++ (record.encode ++ encodeFrames records)).length := by
      simp only [List.length_append]
      omega
    rw [parsePaxRecords, if_pos hmore, parsePaxRecord_framed before _ record hints hpayload, hintFrames,
      List.foldlM_cons]
    cases hhint : recordHint hints record.key record.value with
    | error error => rfl
    | ok changed =>
      have hnext := ih (before ++ record.encode) changed fuel
        (by rw [List.length_cons] at hfuel; omega) (by rwa [List.append_assoc])
      rw [List.append_assoc, List.length_append] at hnext
      exact hnext

/-- The first byte with a value tells two parts of a list apart. -/
theorem split_first {byte : UInt8} {before before' rest rest' : Bytes} (h : byte ∉ before)
    (h' : byte ∉ before') (heq : before ++ byte :: rest = before' ++ byte :: rest') : before = before' ∧ rest = rest' := by
  have hlength : before.length = before'.length := by
    have hposition := congrArg (position (· = byte)) heq
    rw [position_first h, position_first h'] at hposition
    exact Option.some.inj hposition
  obtain ⟨hbefore, hrest⟩ := List.append_inj heq hlength
  exact ⟨hbefore, (List.cons.inj hrest).2⟩

theorem FramedRecord.space_notMem (record : FramedRecord) : 32 ∉ record.digits := fun hmem =>
  digit_not_space 32 (record.length_digits.digits 32 hmem) rfl

/-- A framed record tells where it ends. -/
theorem FramedRecord.encode_append_inj {other : FramedRecord} {rest rest' : Bytes}
    (h : record.encode ++ rest = other.encode ++ rest') : record = other ∧ rest = rest' := by
  have hshape : ∀ (record : FramedRecord) (rest : Bytes), record.encode ++ rest =
      record.digits ++ 32 :: (record.key ++ 61 :: (record.value ++ 10 :: rest)) := by
    intro record rest
    simp [FramedRecord.encode]
  rw [hshape, hshape] at h
  obtain ⟨hdigits, h⟩ := split_first record.space_notMem other.space_notMem h
  obtain ⟨hkey, h⟩ := split_first record.key_plain other.key_plain h
  have hlength : record.value.length = other.value.length := by
    have hlengths := record.length_eq
    rw [hdigits, other.length_eq, hkey] at hlengths
    omega
  obtain ⟨hvalue, hrest⟩ := List.append_inj h hlength
  refine ⟨?_, (List.cons.inj hrest).2⟩
  cases record
  cases other
  simp only at hdigits hkey hvalue
  subst hdigits hkey hvalue
  rfl

theorem FramedRecord.encode_ne_nil (record : FramedRecord) : record.encode ≠ [] := by
  simp [FramedRecord.encode]

theorem encodeFrames_injective : Function.Injective encodeFrames := by
  intro records
  induction records with
  | nil =>
    intro others h
    cases others with
    | nil => rfl
    | cons other others =>
      rw [encodeFrames_cons] at h
      exact absurd (List.append_eq_nil_iff.mp h.symm).1 other.encode_ne_nil
  | cons record records ih =>
    intro others h
    rw [encodeFrames_cons] at h
    cases others with
    | nil => exact absurd (List.append_eq_nil_iff.mp h).1 record.encode_ne_nil
    | cons other others =>
      rw [encodeFrames_cons] at h
      obtain ⟨rfl, hrest⟩ := FramedRecord.encode_append_inj h
      rw [ih hrest]

theorem parsePaxSizeHints_frames (h : (encodeFrames records).length < wordBound) :
    parsePaxSizeHints (encodeFrames records) = hintFrames .default records := by
  have hcount := length_le_encodeFrames records
  exact parsePaxRecords_frames records [] .default _ (by omega) h

theorem encodeRecords_framed (records : List PaxRecord) :
    encodeRecords records = encodeFrames (records.map PaxRecord.toFramedRecord) := by
  rw [encodeRecords, encodeFrames, List.flatMap_map]

theorem InMemory.lt_wordBound (bytes : InMemory) : bytes.1.length < wordBound :=
  Nat.lt_trans bytes.2 (by decide)

/-- Size fields and PAX blocks are read as what they state, and nothing else is read. -/
theorem size_fields_and_pax_blocks :
    (∀ field : InMemory, Yields (parseTarSize field.1) (SizeField field.1) ∧
      ∀ size, SizeField field.1 size → parseTarSize field.1 = .ok size) ∧
    ∀ block : InMemory,
      (∀ offset ≤ block.1.length, ∀ hints,
        Yields (parsePaxRecord block.1 offset hints) fun read => offset < read.2 ∧ read.2 ≤ block.1.length) ∧
      Yields (parsePaxSizeHints block.1) (fun _ => ∃ records, encodeFrames records = block.1) ∧
      ∀ records, encodeFrames records = block.1 →
        parsePaxSizeHints block.1 = hintFrames .default records ∧
          ∀ others, encodeFrames others = block.1 → others = records := by
  constructor
  · intro field
    have hfield := InMemory.lt_wordBound field
    refine ⟨⟨fun size h => parseTarSize_ok h, (parseTarSize_yields hfield).failed⟩, fun size h => ?_⟩
    exact h.parse hfield
  · intro block
    have hblock := InMemory.lt_wordBound block
    refine ⟨fun offset hoffset hints => parsePaxRecord_yields hoffset hblock hints, ⟨fun hints h => ?_, ?_⟩,
      fun records h => ?_⟩
    · obtain ⟨records, hrecords⟩ := parsePaxSizeHints_ok h
      exact ⟨records.map PaxRecord.toFramedRecord, by rw [← encodeRecords_framed, hrecords]⟩
    · exact (parsePaxRecords_yields hblock _ .default (Nat.zero_le _) (by omega)).failed
    · rw [← h] at hblock ⊢
      exact ⟨parsePaxSizeHints_frames hblock, fun others hothers => encodeFrames_injective hothers⟩

theorem ten_digits : DecimalField (ascii "10") :=
  ⟨by decide, List.forall_mem_cons.mpr ⟨rfl, List.forall_mem_singleton.mpr rfl⟩, by decide⟩

theorem seven_length : numeral 10 0 ((ascii "10").map digitValue) =
    (ascii "10").length + (ascii "size").length + (ascii "7").length + 3 := by decide

theorem size_key_plain : 61 ∉ ascii "size" := by decide

def seven : FramedRecord := ⟨ascii "10", ascii "size", ascii "7", ten_digits, seven_length, size_key_plain⟩

theorem seven_fits : (encodeFrames [seven, seven]).length < 2 ^ 63 := by decide

theorem pax_block_seven :
    parsePaxSizeHints (encodeFrames [seven, seven]) = hintFrames .default [seven, seven] :=
  ((size_fields_and_pax_blocks.2 ⟨encodeFrames [seven, seven], seven_fits⟩).2.2 [seven, seven] rfl).1

end Frames

end Lasper.Tar
