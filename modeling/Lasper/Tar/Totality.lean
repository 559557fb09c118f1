import Lasper.Tar.Limits

/-! On every byte string the walk ends with a verdict. No access is out of range,
no unchecked sum leaves its word, and every round moves on in the archive. -/

namespace Lasper.Tar

open Lib Checked

section Fields

theorem readBlock_yields (source : Bytes) (offset length : ℕ) :
    Yields (readBlock source offset length) fun block =>
      block.length = length ∧ (0 < length → offset + length ≤ source.length) := by
  simp only [readBlock]
  split_ifs with hlength
  · refine yields_ok ⟨hlength, fun hpos => ?_⟩
    rw [List.length_take, List.length_drop] at hlength
    omega
  · exact yields_report _

theorem checkedOffset_yields (offset addition : ℕ) :
    Yields (checkedOffset offset addition) (· = offset + addition) := by
  refine (yields_orReport _ _).mono fun result h => ?_
  unfold add? at h
  split_ifs at h
  exact (Option.some.inj h).symm

theorem parseDecimalSize_yields (value : Bytes) : Yields (parseDecimalSize value) fun _ => True := by
  unfold parseDecimalSize
  split_ifs
  · exact yields_report _
  · exact yields_readNumeral _ _ _

theorem readOctal_yields (bytes : Bytes) (value : ℕ) : Yields (readOctal value bytes) fun _ => True := by
  induction bytes generalizing value with
  | nil => exact yields_ok trivial
  | cons byte rest ih =>
    unfold readOctal
    split_ifs
    · exact yields_bind (yields_orReport _ _) fun value _ => ih value
    · exact yields_report _

theorem position_lt {p : UInt8 → Bool} {bytes : Bytes} {i : ℕ} (h : position p bytes = some i) :
    i < bytes.length := by
  obtain ⟨hi, -⟩ := List.findIdx?_eq_some_iff_getElem.mp h
  exact hi

/-- From the first to the last byte of a kind there is a range. -/
theorem position_rposition {p : UInt8 → Bool} {bytes : Bytes} {start : ℕ} (h : position p bytes = some start) :
    ∃ last, rposition p bytes = some last ∧ start ≤ last ∧ last < bytes.length := by
  obtain ⟨hstart, hp, hfirst⟩ := List.findIdx?_eq_some_iff_getElem.mp h
  cases hback : bytes.reverse.findIdx? p with
  | none =>
    rw [List.findIdx?_eq_none_iff] at hback
    rw [hback _ (List.mem_reverse.mpr (List.getElem_mem hstart))] at hp
    cases hp
  | some fromEnd =>
    obtain ⟨hlt, hlast, -⟩ := List.findIdx?_eq_some_iff_getElem.mp hback
    rw [List.length_reverse] at hlt
    refine ⟨bytes.length - 1 - fromEnd, by rw [rposition, hback]; rfl, ?_, by omega⟩
    rw [List.getElem_reverse] at hlast
    by_contra hbefore
    exact hfirst (bytes.length - 1 - fromEnd) (by omega) hlast

theorem parseTarSize_yields {field : Bytes} (hfield : field.length < wordBound) :
    Yields (parseTarSize field) fun _ => True := by
  unfold parseTarSize
  split_ifs with hbase
  · cases field with
    | nil => cases hbase
    | cons first rest =>
      refine yields_pass (x := index (first :: rest) 0) rfl ?_
      split_ifs
      · exact yields_report _
      · exact yields_readNumeral _ _ _
  · cases hstart : position (! isPadding ·) field with
    | none => exact yields_ok trivial
    | some start =>
      obtain ⟨last, hlast, hle, hlt⟩ := position_rposition hstart
      simp only [hlast]
      refine yields_pass rfl ?_
      refine yields_pass (plus_of_lt (by omega)) ?_
      refine yields_pass (slice_of_le (by omega) (by omega)) ?_
      exact readOctal_yields _ 0

end Fields

section Pax

variable {payload : Bytes} {offset : ℕ}

theorem recordHint_yields (hints : PaxSizeHints) (key value : Bytes) :
    Yields (recordHint hints key value) fun _ => True := by
  unfold recordHint
  split_ifs
  · exact yields_bind (parseDecimalSize_yields value) fun size _ => yields_pure trivial
  · exact yields_bind (parseDecimalSize_yields value) fun size _ => yields_pure trivial
  · exact yields_pure trivial

/-- A record that is accepted ends later, and inside the payload. -/
theorem parsePaxRecord_yields (hoffset : offset ≤ payload.length) (hpayload : payload.length < wordBound)
    (hints : PaxSizeHints) :
    Yields (parsePaxRecord payload offset hints) fun read => offset < read.2 ∧ read.2 ≤ payload.length := by
  unfold parsePaxRecord
  refine yields_pass (slice_of_le hoffset le_rfl) ?_
  refine yields_bind (yields_orReport _ _) fun lengthOffset hspace => ?_
  have hlt : offset + lengthOffset < payload.length := by
    have hrest := position_lt hspace
    rw [List.length_drop, List.length_take] at hrest
    omega
  refine yields_pass (plus_of_lt (by omega)) ?_
  refine yields_pass (slice_of_le (by omega) (by omega)) ?_
  refine yields_bind (parseDecimalSize_yields _) fun length _ => ?_
  refine yields_bind (yields_orReport _ _) fun recordEnd hrecord => ?_
  have hrecordEnd : recordEnd ≤ payload.length := by
    simpa using (Option.filter_eq_some_iff.mp hrecord).2
  refine yields_pass (plus_of_lt (by omega)) ?_
  split_ifs with hshort
  · exact yields_report _
  · refine yields_pass (minus_of_le (by omega)) ?_
    have hlast : recordEnd - 1 < payload.length := by omega
    refine yields_pass (index_of_lt hlast) ?_
    split_ifs
    · exact yields_report _
    · refine yields_pass (slice_of_le (by omega) (by omega)) ?_
      refine yields_bind (yields_orReport _ _) fun separator hseparator => ?_
      have hsep := position_lt hseparator
      have hlength : ((payload.take (recordEnd - 1)).drop (offset + lengthOffset + 1)).length < wordBound := by
        rw [List.length_drop, List.length_take]
        omega
      refine yields_pass (plus_of_lt (by omega)) ?_
      refine yields_pass (slice_of_le (by omega) le_rfl) ?_
      refine yields_pass (slice_of_le (by omega) (by omega)) ?_
      refine yields_bind (recordHint_yields hints _ _) fun hints _ => ?_
      exact yields_pure ⟨by omega, hrecordEnd⟩

theorem parsePaxRecords_yields (hpayload : payload.length < wordBound) (fuel : ℕ) (hints : PaxSizeHints)
    (hoffset : offset ≤ payload.length) (hfuel : payload.length - offset < fuel) :
    Yields (parsePaxRecords payload fuel offset hints) fun _ => True := by
  induction fuel generalizing offset hints with
  | zero => omega
  | succ fuel ih =>
    unfold parsePaxRecords
    split_ifs with hmore
    · refine yields_bind (parsePaxRecord_yields hoffset hpayload hints) ?_
      rintro ⟨hints, recordEnd⟩ ⟨hlater, hinside⟩
      exact ih hints hinside (by omega)
    · exact yields_pure trivial

end Pax

section Walk

variable {source : Bytes} {limit maxEntries : ℕ} {s : ScanState}

theorem paddedSize_yields (size : ℕ) : Yields (paddedSize size) fun _ => True := by
  exact (yields_orReport _ _).mono fun _ _ => True.intro

theorem rejectLargeMetadata_yields (size : ℕ) (kind : String) :
    Yields (rejectLargeMetadata size kind) fun _ => size ≤ maxMetadataBytes := by
  unfold rejectLargeMetadata
  split_ifs with hlarge
  · exact yields_report _
  · exact yields_ok (Nat.le_of_not_lt hlarge)

theorem addPayload_yields (total size : ℕ) : Yields (addPayload total size limit) fun _ => True := by
  refine yields_bind (yields_orReport _ _) fun total _ => ?_
  split_ifs
  · exact yields_report _
  · exact yields_pure trivial

theorem skipOldgnuSparseHeaders_yields (fuel count offset : ℕ) (extended : Bool)
    (hfuel : source.length - offset < fuel) :
    Yields (skipOldgnuSparseHeaders source limit fuel count offset extended) fun stop => offset ≤ stop := by
  induction fuel generalizing count offset extended with
  | zero => omega
  | succ fuel ih =>
    cases extended with
    | false => exact yields_ok (Nat.le_refl offset)
    | true =>
      unfold skipOldgnuSparseHeaders
      refine yields_bind (yields_orReport _ _) fun count _ => ?_
      split_ifs
      · exact yields_report _
      · refine yields_bind (readBlock_yields source offset 512) ?_
        rintro header ⟨hlength, hinside⟩
        refine yields_bind (checkedOffset_yields offset 512) ?_
        rintro _ rfl
        refine yields_pass (index_of_lt (by omega)) ?_
        have hbound := hinside (by decide)
        exact (ih count _ _ (by omega)).mono fun stop hstop => by omega

theorem scanPax_yields (size : ℕ) (isGlobal : Bool) :
    Yields (scanPax source s size isGlobal) fun t => s.offset ≤ t.offset ∧ t.zeroBlocks = s.zeroBlocks := by
  unfold scanPax
  refine yields_bind (rejectLargeMetadata_yields size "PAX") fun _ hsize => ?_
  refine yields_bind (readBlock_yields source s.offset size) ?_
  rintro metadata ⟨hlength, -⟩
  have hsmall : metadata.length < wordBound := by
    rw [hlength]
    exact Nat.lt_of_le_of_lt hsize (by decide)
  refine yields_bind (parsePaxRecords_yields hsmall _ _ (Nat.zero_le _) (by omega)) fun hints _ => ?_
  refine yields_bind (paddedSize_yields size) fun padded _ => ?_
  refine yields_bind (checkedOffset_yields _ padded) ?_
  rintro _ rfl
  split_ifs
  · exact yields_pure ⟨Nat.le_add_right _ _, rfl⟩
  · exact yields_pure ⟨Nat.le_add_right _ _, rfl⟩

theorem scanLongName_yields (size : ℕ) :
    Yields (scanLongName s size) fun t => s.offset ≤ t.offset ∧ t.zeroBlocks = s.zeroBlocks := by
  unfold scanLongName
  refine yields_bind (rejectLargeMetadata_yields size "long-name") fun _ _ => ?_
  refine yields_bind (paddedSize_yields size) fun padded _ => ?_
  refine yields_bind (checkedOffset_yields _ padded) ?_
  rintro _ rfl
  exact yields_pure ⟨Nat.le_add_right _ _, rfl⟩

theorem contentExtent_yields {header : Bytes} (hheader : header.length = 512) (logicalSize : ℕ)
    (entryType : UInt8) :
    Yields (contentExtent source header maxEntries s logicalSize entryType) fun extent => s.offset ≤ extent.2 := by
  unfold contentExtent
  split_ifs
  · refine yields_pass (slice_of_le (by decide) (by omega)) ?_
    have hfield : ((header.take 495).drop 483).length < wordBound := by
      rw [List.length_drop, List.length_take, hheader]
      decide
    refine yields_bind (parseTarSize_yields hfield) fun realSize _ => ?_
    refine yields_pass (index_of_lt (by omega)) ?_
    refine yields_bind (skipOldgnuSparseHeaders_yields _ _ _ _ (by omega)) fun offset hoffset => ?_
    exact yields_pure hoffset
  · exact yields_pure (Nat.le_refl s.offset)

theorem scanContent_yields {header : Bytes} (hheader : header.length = 512) (headerSize : ℕ) (entryType : UInt8) :
    Yields (scanContent source header limit maxEntries s headerSize entryType) fun t =>
      s.offset ≤ t.offset ∧ t.zeroBlocks = s.zeroBlocks := by
  refine yields_bind (contentExtent_yields hheader _ entryType) ?_
  rintro ⟨logicalSize, offset⟩ hoffset
  refine yields_bind (addPayload_yields _ _) fun payloadBytes _ => ?_
  refine yields_bind (paddedSize_yields _) fun padded _ => ?_
  refine yields_bind (checkedOffset_yields offset padded) ?_
  rintro _ rfl
  exact yields_pure ⟨Nat.le_trans hoffset (Nat.le_add_right _ _), rfl⟩

theorem scanEntry_yields {header : Bytes} (hheader : header.length = 512) :
    Yields (scanEntry source header limit maxEntries s) fun t => s.offset ≤ t.offset ∧ t.zeroBlocks = 0 := by
  refine yields_bind (yields_orReport _ _) fun entries _ => ?_
  split_ifs
  · exact yields_report _
  · refine yields_pass (slice_of_le (by decide) (by omega)) ?_
    have hfield : ((header.take 136).drop 124).length < wordBound := by
      rw [List.length_drop, List.length_take, hheader]
      decide
    refine yields_bind (parseTarSize_yields hfield) fun headerSize _ => ?_
    refine yields_pass (index_of_lt (by omega)) ?_
    split_ifs
    · exact scanPax_yields headerSize _
    · exact scanLongName_yields headerSize
    · exact scanContent_yields hheader headerSize _

/-- A round that goes on has moved on by a block at least, inside the archive. -/
theorem scanStep_yields (hzero : s.zeroBlocks < 2) :
    Yields (scanStep source limit maxEntries s) fun next => ∀ t, next = some t →
      s.offset + 512 ≤ source.length ∧ s.offset + 512 ≤ t.offset ∧ t.zeroBlocks < 2 := by
  refine yields_bind (readBlock_yields source s.offset 512) ?_
  rintro header ⟨hheader, hinside⟩
  have hbound := hinside (by decide)
  refine yields_bind (checkedOffset_yields s.offset 512) ?_
  rintro _ rfl
  split_ifs
  · have hbyte : (plusByte s.zeroBlocks 1 : Scan ℕ) = .ok (s.zeroBlocks + 1) := if_pos (by omega)
    refine yields_pass hbyte ?_
    split_ifs with hsecond
    · exact yields_pure nofun
    · refine yields_pure fun t ht => ?_
      cases ht
      exact ⟨hbound, Nat.le_refl _, by show s.zeroBlocks + 1 < 2; omega⟩
  · refine yields_bind (scanEntry_yields hheader) ?_
    rintro t ⟨hoffset, hblocks⟩
    refine yields_pure fun u hu => ?_
    cases hu
    exact ⟨hbound, hoffset, by omega⟩

theorem scan_yields (fuel : ℕ) (s : ScanState) (hzero : s.zeroBlocks < 2)
    (hfuel : source.length - s.offset < fuel) : Yields (scan source limit maxEntries fuel s) fun _ => True := by
  induction fuel generalizing s with
  | zero => omega
  | succ fuel ih =>
    refine yields_bind (scanStep_yields hzero) fun next hnext => ?_
    cases next with
    | none => exact yields_pure trivial
    | some t =>
      obtain ⟨hbound, hoffset, hblocks⟩ := hnext t rfl
      exact ih t hblocks (by omega)

theorem validateWithLimit_yields (source : Bytes) (limit maxEntries : UInt64) :
    Yields (validateWithLimit source limit maxEntries) fun _ => True :=
  scan_yields _ .start (by decide) (Nat.lt_succ_of_le (Nat.sub_le _ _))

end Walk

end Lasper.Tar
