import Lasper.Tar.Archive
import Lasper.Tar.Totality

/-! A well-formed archive is accepted if and only if it keeps to the limits. -/

namespace Lasper.Tar

open Lib Checked

section Steps

variable {source : Bytes} {limit maxEntries : ℕ} {s : ScanState}

theorem readBlock_middle (before block after : Bytes) {length : ℕ} (hlength : block.length = length) :
    readBlock (before ++ (block ++ after)) before.length length = .ok block := by
  subst hlength
  simp only [readBlock, List.drop_left, List.take_left, if_true]

theorem checkedOffset_eq {offset addition : ℕ} (h : offset + addition < wordBound) :
    checkedOffset offset addition = .ok (offset + addition) :=
  orReport_of_some (if_pos h) _

theorem le_padded (size : ℕ) : size ≤ padded size := by
  unfold padded
  omega

theorem paddedSize_eq {size : ℕ} (h : size + 511 < wordBound) : paddedSize size = .ok (padded size) := by
  refine orReport_of_some ?_ _
  rw [add?, if_pos h]
  rfl

theorem rejectLargeMetadata_decides (size : ℕ) (kind : String) :
    Decides (rejectLargeMetadata size kind) (size ≤ maxMetadataBytes) () := by
  have hcheck : Decides (rejectLargeMetadata size kind) (¬ maxMetadataBytes < size ∧ True) () :=
    decides_check fun _ => decides_ok trivial
  exact hcheck.congr (by rw [and_true, Nat.not_lt])

theorem addPayload_decides {total size : ℕ} (hlimit : limit < wordBound) :
    Decides (addPayload total size limit) (total + size ≤ limit) (total + size) := by
  have hadd : Decides (addPayload total size limit)
      (total + size < wordBound ∧ (¬ limit < total + size ∧ True)) (total + size) :=
    decides_bind (decides_add total size _) fun _ => decides_check fun _ => decides_ok trivial
  refine hadd.congr ?_
  rw [and_true]
  omega

/-- The extension headers are skipped, if they are not too many. -/
theorem skipOldgnuSparseHeaders_decides (extensions : List Block) (before after : Bytes) (extended : Bool)
    (fuel count : ℕ) (hchained : Chained extended extensions) (hfuel : extensions.length ≤ fuel)
    (hmax : maxEntries < wordBound)
    (hsource : (before ++ (extensions.flatMap Block.bytes ++ after)).length < wordBound) :
    Decides (skipOldgnuSparseHeaders (before ++ (extensions.flatMap Block.bytes ++ after)) maxEntries fuel count
      before.length extended) (extensions = [] ∨ count + extensions.length ≤ maxEntries)
      (before.length + (extensions.flatMap Block.bytes).length) := by
  induction extensions generalizing before extended fuel count with
  | nil =>
    have hstop : extended = false := hchained
    subst hstop
    rw [skipOldgnuSparseHeaders]
    exact decides_ok (.inl rfl)
  | cons block rest ih =>
    obtain ⟨hextended, hrest⟩ := hchained
    subst hextended
    obtain ⟨fuel, rfl⟩ := Nat.exists_eq_add_one.mpr (Nat.lt_of_lt_of_le (Nat.succ_pos _) hfuel)
    have hblock := block.length_eq
    have hcons : before ++ ((block :: rest).flatMap Block.bytes ++ after) =
        before ++ (block.bytes ++ (rest.flatMap Block.bytes ++ after)) := by
      rw [List.flatMap_cons, List.append_assoc]
    rw [hcons] at hsource ⊢
    have hlength : before.length + 512 ≤
        (before ++ (block.bytes ++ (rest.flatMap Block.bytes ++ after))).length := by
      simp only [List.length_append]
      omega
    have hindex : (index block.bytes 504 : Scan UInt8) = .ok (block.bytes.getD 504 0) :=
      index_getD (by omega) 0
    have hnext := ih (before ++ block.bytes) (block.bytes.getD 504 0 ≠ 0) fuel (count + 1) hrest
      (Nat.le_of_succ_le_succ hfuel) (by rwa [List.append_assoc])
    rw [List.append_assoc, List.length_append, hblock] at hnext
    have hrun : Decides (skipOldgnuSparseHeaders
        (before ++ (block.bytes ++ (rest.flatMap Block.bytes ++ after))) maxEntries (fuel + 1) count
        before.length true)
        (count + 1 < wordBound ∧ (¬ maxEntries < count + 1 ∧ (rest = [] ∨ count + 1 + rest.length ≤ maxEntries)))
        (before.length + 512 + (rest.flatMap Block.bytes).length) := by
      rw [skipOldgnuSparseHeaders]
      refine decides_bind (decides_add count 1 _) fun _ => decides_check fun _ => ?_
      refine decides_pass (readBlock_middle before block.bytes _ hblock) ?_
      refine decides_pass (checkedOffset_eq (by omega)) ?_
      exact decides_pass hindex hnext
    have htotal : before.length + ((block :: rest).flatMap Block.bytes).length =
        before.length + 512 + (rest.flatMap Block.bytes).length := by
      rw [List.flatMap_cons, List.length_append]
      omega
    rw [htotal]
    refine hrun.congr ?_
    rw [List.length_cons]
    constructor
    · rintro ⟨-, hle, hempty | hmore⟩
      · rw [hempty, List.length_nil]
        omega
      · omega
    · rintro (hempty | hle)
      · cases hempty
      · exact ⟨by omega, by omega, .inr (by omega)⟩

end Steps

section Entries

variable {limit maxEntries : ℕ} {s : ScanState} {before after : Bytes}

/-- The state after an entry that was accepted. -/
def ScanState.accept (s : ScanState) (entry : Entry) (offset : ℕ) : ScanState where
  offset := offset
  zeroBlocks := 0
  entries := s.entries + 1
  payloadBytes := s.payloadBytes + entry.logicalSize (s.globalPax.overlay s.localPax)
  globalPax := entry.globalPax s.globalPax
  localPax := entry.localPax s.localPax

/-- The state in which the body of an entry is read. -/
def ScanState.enter (s : ScanState) (offset : ℕ) : ScanState :=
  { s with offset, zeroBlocks := 0, entries := s.entries + 1 }

theorem Header.size_parse (header : Header) :
    parseTarSize ((header.bytes.take 136).drop 124) = .ok header.size := by
  refine header.size_field.parse ?_
  rw [List.length_drop, List.length_take, header.length_eq]
  decide

theorem SparseHeader.real_parse (header : SparseHeader) :
    parseTarSize ((header.bytes.take 495).drop 483) = .ok header.realSize := by
  refine header.real_field.parse ?_
  rw [List.length_drop, List.length_take, header.length_eq]
  decide

theorem scanPax_decides {isGlobal : Bool} {header : Header} {records : List PaxRecord} {padding : Bytes}
    (hfits : (Entry.pax isGlobal header records padding).Fits (s.globalPax.overlay s.localPax))
    (hbefore : 512 ≤ before.length)
    (hsource : (before ++ ((encodeRecords records ++ padding) ++ after)).length < wordBound) :
    Decides (scanPax (before ++ ((encodeRecords records ++ padding) ++ after)) (s.enter before.length) header.size
      isGlobal) (header.size ≤ maxMetadataBytes)
      (s.accept (.pax isGlobal header records padding) (before.length + (encodeRecords records ++ padding).length)) := by
  obtain ⟨-, hsize, hbody⟩ := hfits
  have hle := le_padded header.size
  have htotal : before.length + padded header.size ≤
      (before ++ ((encodeRecords records ++ padding) ++ after)).length := by
    rw [← hbody]
    simp only [List.length_append]
    omega
  have hread : readBlock (before ++ ((encodeRecords records ++ padding) ++ after)) before.length header.size =
      .ok (encodeRecords records) := by
    rw [List.append_assoc (encodeRecords records)]
    exact readBlock_middle before _ _ hsize.symm
  have hrun : Decides (scanPax (before ++ ((encodeRecords records ++ padding) ++ after)) (s.enter before.length)
      header.size isGlobal) (header.size ≤ maxMetadataBytes ∧ True)
      (s.accept (.pax isGlobal header records padding) (before.length + padded header.size)) := by
    unfold scanPax
    refine decides_bind (rejectLargeMetadata_decides _ _) fun _ => ?_
    refine decides_pass hread ?_
    refine decides_pass (parsePaxSizeHints_eq (by omega)) ?_
    refine decides_pass (paddedSize_eq (by omega)) ?_
    refine decides_pass (checkedOffset_eq (show before.length + padded header.size < wordBound by omega)) ?_
    cases isGlobal with
    | true => exact decides_ok trivial
    | false => exact decides_ok trivial
  rw [hbody]
  exact hrun.congr (by rw [and_true])

theorem scanLongName_decides {header : Header} {data : Bytes}
    (hfits : (Entry.longName header data).Fits (s.globalPax.overlay s.localPax))
    (hbefore : 512 ≤ before.length) (hsource : (before ++ (data ++ after)).length < wordBound) :
    Decides (scanLongName (s.enter before.length) header.size) (header.size ≤ maxMetadataBytes)
      (s.accept (.longName header data) (before.length + data.length)) := by
  have hbody := hfits.2
  have hle := le_padded header.size
  have htotal : before.length + padded header.size ≤ (before ++ (data ++ after)).length := by
    rw [← hbody]
    simp only [List.length_append]
    omega
  have hrun : Decides (scanLongName (s.enter before.length) header.size) (header.size ≤ maxMetadataBytes ∧ True)
      (s.accept (.longName header data) (before.length + padded header.size)) := by
    unfold scanLongName
    refine decides_bind (rejectLargeMetadata_decides _ _) fun _ => ?_
    refine decides_pass (paddedSize_eq (by omega)) ?_
    refine decides_pass (checkedOffset_eq (show before.length + padded header.size < wordBound by omega)) ?_
    exact decides_ok trivial
  rw [hbody]
  exact hrun.congr (by rw [and_true])

/-- An entry with content is accepted if its sparse headers and its logical size
keep to the limits. -/
theorem scanContent_decides {source header : Bytes} {headerSize offset : ℕ} {entryType : UInt8} {Q : Prop}
    {logicalSize extent : ℕ} (hlimit : limit < wordBound)
    (hextent : Decides (contentExtent source header maxEntries (s.enter offset)
        (max ((s.globalPax.overlay s.localPax).logicalSize.getD
            ((s.globalPax.overlay s.localPax).streamSize.getD headerSize))
          ((s.globalPax.overlay s.localPax).streamSize.getD headerSize)) entryType) Q (logicalSize, extent))
    (hbound : extent + padded ((s.globalPax.overlay s.localPax).streamSize.getD headerSize) < wordBound)
    (hstream : (s.globalPax.overlay s.localPax).streamSize.getD headerSize + 511 < wordBound) :
    Decides (scanContent source header limit maxEntries (s.enter offset) headerSize entryType)
      (Q ∧ s.payloadBytes + logicalSize ≤ limit)
      { s with
        offset := extent + padded ((s.globalPax.overlay s.localPax).streamSize.getD headerSize)
        zeroBlocks := 0
        entries := s.entries + 1
        payloadBytes := s.payloadBytes + logicalSize
        localPax := .default } := by
  have hrun : Decides (scanContent source header limit maxEntries (s.enter offset) headerSize entryType)
      (Q ∧ (s.payloadBytes + logicalSize ≤ limit ∧ True))
      { s with
        offset := extent + padded ((s.globalPax.overlay s.localPax).streamSize.getD headerSize)
        zeroBlocks := 0
        entries := s.entries + 1
        payloadBytes := s.payloadBytes + logicalSize
        localPax := .default } := by
    refine decides_bind hextent fun _ => ?_
    refine decides_bind (addPayload_decides hlimit) fun _ => ?_
    refine decides_pass (paddedSize_eq hstream) ?_
    refine decides_pass (checkedOffset_eq hbound) ?_
    exact decides_ok trivial
  exact hrun.congr (by rw [and_true])

theorem scanFile_decides {header : Header} {data : Bytes} (hlimit : limit < wordBound)
    (hfits : (Entry.file header data).Fits (s.globalPax.overlay s.localPax)) (hbefore : 512 ≤ before.length)
    (hsource : (before ++ (data ++ after)).length < wordBound) :
    Decides (scanContent (before ++ (data ++ after)) header.bytes limit maxEntries (s.enter before.length) header.size
        header.entryType)
      (s.payloadBytes + (Entry.file header data).logicalSize (s.globalPax.overlay s.localPax) ≤ limit)
      (s.accept (.file header data) (before.length + data.length)) := by
  obtain ⟨htype, hbody⟩ := hfits
  have hle := le_padded ((Entry.file header data).streamSize (s.globalPax.overlay s.localPax))
  have htotal : before.length + data.length ≤ (before ++ (data ++ after)).length := by
    simp only [List.length_append]
    omega
  rw [hbody] at htotal ⊢
  have hplain : header.entryType ≠ 83 := fun heq => htype (by rw [heq]; decide)
  have hextent : ∀ logicalSize, Decides (contentExtent (before ++ (data ++ after)) header.bytes maxEntries
      (s.enter before.length) logicalSize header.entryType) True (logicalSize, before.length) := by
    intro logicalSize
    rw [contentExtent, if_neg hplain]
    exact decides_ok trivial
  exact (scanContent_decides hlimit (hextent _) (Nat.lt_of_le_of_lt htotal hsource)
    (show (Entry.file header data).streamSize (s.globalPax.overlay s.localPax) + 511 < wordBound by omega)).congr
    ⟨fun h => h.2, fun h => ⟨trivial, h⟩⟩

theorem scanSparse_decides {header : SparseHeader} {extensions : List Block} {data : Bytes}
    (hlimit : limit < wordBound) (hmax : maxEntries < wordBound)
    (hfits : (Entry.sparse header extensions data).Fits (s.globalPax.overlay s.localPax))
    (hbefore : 512 ≤ before.length)
    (hsource : (before ++ ((extensions.flatMap Block.bytes ++ data) ++ after)).length < wordBound) :
    Decides (scanContent (before ++ ((extensions.flatMap Block.bytes ++ data) ++ after)) header.bytes limit maxEntries
        (s.enter before.length) header.size header.entryType)
      (extensions.length ≤ maxEntries ∧ s.payloadBytes +
        (Entry.sparse header extensions data).logicalSize (s.globalPax.overlay s.localPax) ≤ limit)
      (s.accept (.sparse header extensions data) (before.length + (extensions.flatMap Block.bytes ++ data).length)) := by
  obtain ⟨htype, hchained, hbody⟩ := hfits
  have hle := le_padded ((Entry.sparse header extensions data).streamSize (s.globalPax.overlay s.localPax))
  have hcount : extensions.length ≤ (extensions.flatMap Block.bytes).length := by
    have hlength : (extensions.flatMap Block.bytes).length = extensions.length * 512 := by
      rw [List.length_flatMap, List.map_congr_left fun block _ => block.length_eq]
      simp
    omega
  have htotal : before.length + (extensions.flatMap Block.bytes).length + data.length ≤
      (before ++ ((extensions.flatMap Block.bytes ++ data) ++ after)).length := by
    simp only [List.length_append]
    omega
  have hskip := skipOldgnuSparseHeaders_decides extensions before (data ++ after)
    (header.bytes.getD 482 0 ≠ 0)
    ((before ++ ((extensions.flatMap Block.bytes ++ data) ++ after)).length + 1) 0 hchained (by omega) hmax
    (by rwa [← List.append_assoc (extensions.flatMap Block.bytes)])
  rw [← List.append_assoc (extensions.flatMap Block.bytes)] at hskip
  have hextent : ∀ logicalSize, Decides (contentExtent (before ++ ((extensions.flatMap Block.bytes ++ data) ++ after))
      header.bytes maxEntries (s.enter before.length) logicalSize header.entryType)
      (extensions.length ≤ maxEntries)
      (max logicalSize header.realSize, before.length + (extensions.flatMap Block.bytes).length) := by
    intro logicalSize
    have hrun : Decides (contentExtent (before ++ ((extensions.flatMap Block.bytes ++ data) ++ after))
        header.bytes maxEntries (s.enter before.length) logicalSize header.entryType)
        ((extensions = [] ∨ 0 + extensions.length ≤ maxEntries) ∧ True)
        (max logicalSize header.realSize, before.length + (extensions.flatMap Block.bytes).length) := by
      rw [contentExtent, if_pos htype]
      refine decides_pass (slice_of_le (by decide) (by rw [header.length_eq]; decide)) ?_
      refine decides_pass header.real_parse ?_
      refine decides_pass (index_getD (by rw [header.length_eq]; decide) 0) ?_
      exact decides_bind hskip fun _ => decides_ok trivial
    refine hrun.congr ?_
    rw [and_true, Nat.zero_add]
    constructor
    · rintro (hempty | hle)
      · rw [hempty]
        exact Nat.zero_le _
      · exact hle
    · exact .inr
  rw [List.length_append, ← Nat.add_assoc]
  rw [hbody] at htotal ⊢
  exact scanContent_decides hlimit (hextent _) (Nat.lt_of_le_of_lt htotal hsource)
    (show (Entry.sparse header extensions data).streamSize (s.globalPax.overlay s.localPax) + 511 < wordBound by omega)

/-- The body of an entry, after its header was read. -/
theorem scanEntry_decides {entry : Entry} (hlimit : limit < wordBound) (hmax : maxEntries < wordBound)
    (hpayload : s.payloadBytes ≤ limit) (hfits : entry.Fits (s.globalPax.overlay s.localPax))
    (hbefore : 512 ≤ before.length) (hsource : (before ++ (entry.body ++ after)).length < wordBound) :
    Decides (scanEntry (before ++ (entry.body ++ after)) entry.header.bytes limit maxEntries
        { s with offset := before.length })
      (s.entries + 1 ≤ maxEntries ∧ entry.Bounded maxEntries ∧
        s.payloadBytes + entry.logicalSize (s.globalPax.overlay s.localPax) ≤ limit)
      (s.accept entry (before.length + entry.body.length)) := by
  have hlength := entry.header.length_eq
  have hbody : Decides
      (if entry.header.entryType = 120 ∨ entry.header.entryType = 103 then
        scanPax (before ++ (entry.body ++ after)) (s.enter before.length) entry.header.size
          (entry.header.entryType = 103)
      else if entry.header.entryType = 76 ∨ entry.header.entryType = 75 then
        scanLongName (s.enter before.length) entry.header.size
      else scanContent (before ++ (entry.body ++ after)) entry.header.bytes limit maxEntries (s.enter before.length)
        entry.header.size entry.header.entryType)
      (entry.Bounded maxEntries ∧ s.payloadBytes + entry.logicalSize (s.globalPax.overlay s.localPax) ≤ limit)
      (s.accept entry (before.length + entry.body.length)) := by
    cases entry with
    | pax isGlobal header records padding =>
      have htype : (Entry.pax isGlobal header records padding).header.entryType =
          if isGlobal then 103 else 120 := hfits.1
      have hkind : (Entry.pax isGlobal header records padding).header.entryType = 120 ∨
          (Entry.pax isGlobal header records padding).header.entryType = 103 := by
        cases isGlobal with
        | true => exact .inr htype
        | false => exact .inl htype
      have hglobal : decide ((Entry.pax isGlobal header records padding).header.entryType = 103) = isGlobal := by
        rw [htype]
        cases isGlobal <;> rfl
      rw [if_pos hkind, hglobal]
      refine (scanPax_decides hfits hbefore hsource).congr ?_
      exact ⟨fun hsize => ⟨hsize, hpayload⟩, fun h => h.1⟩
    | longName header data =>
      have hkind : (Entry.longName header data).header.entryType = 76 ∨
          (Entry.longName header data).header.entryType = 75 := hfits.1
      have hother : ¬ ((Entry.longName header data).header.entryType = 120 ∨
          (Entry.longName header data).header.entryType = 103) := by
        rcases hkind with h | h
        · rw [h]; decide
        · rw [h]; decide
      rw [if_neg hother, if_pos hkind]
      refine (scanLongName_decides hfits hbefore hsource).congr ?_
      exact ⟨fun hsize => ⟨hsize, hpayload⟩, fun h => h.1⟩
    | file header data =>
      have htype : (Entry.file header data).header.entryType ∉ ([120, 103, 76, 75, 83] : List UInt8) := hfits.1
      simp only [List.mem_cons, List.not_mem_nil, or_false, not_or] at htype
      rw [if_neg (by tauto), if_neg (by tauto)]
      refine (scanFile_decides hlimit hfits hbefore hsource).congr ?_
      exact ⟨fun h => ⟨trivial, h⟩, fun h => h.2⟩
    | sparse header extensions data =>
      have htype : (Entry.sparse header extensions data).header.entryType = 83 := hfits.1
      rw [if_neg (by rw [htype]; decide), if_neg (by rw [htype]; decide)]
      exact scanSparse_decides hlimit hmax hfits hbefore hsource
  have hrun : Decides (scanEntry (before ++ (entry.body ++ after)) entry.header.bytes limit maxEntries
      { s with offset := before.length })
      (s.entries + 1 < wordBound ∧ (¬ maxEntries < s.entries + 1 ∧ (entry.Bounded maxEntries ∧
        s.payloadBytes + entry.logicalSize (s.globalPax.overlay s.localPax) ≤ limit)))
      (s.accept entry (before.length + entry.body.length)) := by
    refine decides_bind (decides_add s.entries 1 _) fun _ => decides_check fun _ => ?_
    refine decides_pass (slice_of_le (by decide) (by omega)) ?_
    refine decides_pass entry.header.size_parse ?_
    exact decides_pass (index_getD (by omega) 0) hbody
  refine hrun.congr ?_
  rw [Nat.not_lt]
  constructor
  · exact fun h => ⟨h.2.1, h.2.2⟩
  · exact fun h => ⟨by omega, h.1, h.2⟩

end Entries

section Archive

variable {limit maxEntries : ℕ}

theorem scanStep_decides {s : ScanState} {before after : Bytes} {entry : Entry} (hlimit : limit < wordBound)
    (hmax : maxEntries < wordBound) (hpayload : s.payloadBytes ≤ limit) (hoffset : s.offset = before.length)
    (hfits : entry.Fits (s.globalPax.overlay s.localPax))
    (hsource : (before ++ (entry.encode ++ after)).length < wordBound) :
    Decides (scanStep (before ++ (entry.encode ++ after)) limit maxEntries s)
      (s.entries + 1 ≤ maxEntries ∧ entry.Bounded maxEntries ∧
        s.payloadBytes + entry.logicalSize (s.globalPax.overlay s.localPax) ≤ limit)
      (some (s.accept entry (before.length + entry.encode.length))) := by
  have hheader := entry.header.length_eq
  have hread : readBlock (before ++ (entry.encode ++ after)) s.offset 512 = .ok entry.header.bytes := by
    rw [hoffset, Entry.encode, List.append_assoc]
    exact readBlock_middle before _ _ hheader
  have hencode : entry.encode.length = 512 + entry.body.length := by
    rw [Entry.encode, List.length_append, hheader]
  have htotal : before.length + entry.encode.length ≤ (before ++ (entry.encode ++ after)).length := by
    simp only [List.length_append]
    omega
  have hsplit : before ++ (entry.encode ++ after) = (before ++ entry.header.bytes) ++ (entry.body ++ after) := by
    simp only [Entry.encode, List.append_assoc]
  have hinside : (before ++ entry.header.bytes).length = before.length + 512 := by
    rw [List.length_append, hheader]
  have hrest : ((before ++ entry.header.bytes) ++ (entry.body ++ after)).length < wordBound := by rwa [← hsplit]
  have hentry := scanEntry_decides hlimit hmax hpayload hfits
    (show 512 ≤ (before ++ entry.header.bytes).length by omega) hrest
  rw [← hsplit, hinside] at hentry
  have hrun : Decides (scanStep (before ++ (entry.encode ++ after)) limit maxEntries s)
      ((s.entries + 1 ≤ maxEntries ∧ entry.Bounded maxEntries ∧
        s.payloadBytes + entry.logicalSize (s.globalPax.overlay s.localPax) ≤ limit) ∧ True)
      (some (s.accept entry (before.length + 512 + entry.body.length))) := by
    refine decides_pass hread ?_
    refine decides_pass (checkedOffset_eq (by rw [hoffset]; omega)) ?_
    rw [if_neg entry.header.nonzero, hoffset]
    exact decides_bind hentry fun _ => decides_ok trivial
  rw [hencode, ← Nat.add_assoc]
  exact hrun.congr (by rw [and_true])

def zeroBlock : Bytes := List.replicate 512 0

theorem scanStep_zero (limit maxEntries : ℕ) {s : ScanState} {before after : Bytes} (hoffset : s.offset = before.length)
    (hsource : (before ++ (zeroBlock ++ after)).length < wordBound) (hzero : s.zeroBlocks < 2) :
    scanStep (before ++ (zeroBlock ++ after)) limit maxEntries s =
      .ok (if s.zeroBlocks + 1 = 2 then none
        else some { s with offset := before.length + 512, zeroBlocks := s.zeroBlocks + 1 }) := by
  have hblock : zeroBlock.length = 512 := List.length_replicate
  have hall : zeroBlock.all (· = 0) = true := by
    rw [List.all_eq_true]
    intro byte hbyte
    exact decide_eq_true (List.eq_of_mem_replicate hbyte)
  have htotal : before.length + 512 ≤ (before ++ (zeroBlock ++ after)).length := by
    simp only [List.length_append]
    omega
  have hbyte : (plusByte s.zeroBlocks 1 : Scan ℕ) = .ok (s.zeroBlocks + 1) := if_pos (by omega)
  rw [scanStep, hoffset, bind_of_ok (readBlock_middle before zeroBlock after hblock),
    bind_of_ok (checkedOffset_eq (by omega)), if_pos hall, bind_of_ok hbyte]
  split_ifs <;> rfl

/-- The two zero blocks end the walk. -/
theorem scan_end (limit maxEntries fuel : ℕ) {s : ScanState} {before : Bytes} (hoffset : s.offset = before.length)
    (hzero : s.zeroBlocks = 0) (hsource : (before ++ List.replicate 1024 0).length < wordBound) :
    scan (before ++ List.replicate 1024 0) limit maxEntries (fuel + 2) s = .ok () := by
  have hblocks : List.replicate 1024 (0 : UInt8) = zeroBlock ++ (zeroBlock ++ []) := by
    rw [List.append_nil, zeroBlock, List.replicate_append_replicate]
  have hlength : (before ++ zeroBlock).length = before.length + 512 := by
    rw [List.length_append, zeroBlock, List.length_replicate]
  rw [hblocks] at hsource ⊢
  have hfirst := scanStep_zero limit maxEntries hoffset hsource (by omega)
  rw [if_neg (by omega)] at hfirst
  rw [← List.append_assoc] at hsource hfirst ⊢
  have hsecond : scanStep ((before ++ zeroBlock) ++ (zeroBlock ++ [])) limit maxEntries
      { s with offset := before.length + 512, zeroBlocks := s.zeroBlocks + 1 } = .ok none := by
    have hstep := scanStep_zero limit maxEntries
      (s := { s with offset := before.length + 512, zeroBlocks := s.zeroBlocks + 1 }) hlength.symm hsource
      (show s.zeroBlocks + 1 < 2 by omega)
    rwa [if_pos (show s.zeroBlocks + 1 + 1 = 2 by omega)] at hstep
  rw [scan, bind_of_ok hfirst]
  show scan _ limit maxEntries (fuel + 1) _ = _
  rw [scan, bind_of_ok hsecond]
  rfl

/-- From any point between two entries, the rest is accepted if it keeps to what
the limits leave. -/
theorem scan_decides (entries : List Entry) (before : Bytes) (s : ScanState) (fuel : ℕ) (hlimit : limit < wordBound)
    (hmax : maxEntries < wordBound) (hpayload : s.payloadBytes ≤ limit) (hcount : s.entries ≤ maxEntries)
    (hoffset : s.offset = before.length) (hzero : s.zeroBlocks = 0)
    (hformed : WellFormed s.globalPax s.localPax entries) (hfuel : entries.length + 2 ≤ fuel)
    (hsource : (before ++ archive entries).length < wordBound) :
    Decides (scan (before ++ archive entries) limit maxEntries fuel s)
      (s.entries + entries.length ≤ maxEntries ∧
        s.payloadBytes + logicalTotal s.globalPax s.localPax entries ≤ limit ∧
        ∀ entry ∈ entries, entry.Bounded maxEntries) () := by
  induction entries generalizing before s fuel with
  | nil =>
    obtain ⟨fuel, rfl⟩ := Nat.exists_eq_add_of_le' hfuel
    have hend := scan_end limit maxEntries fuel hoffset hzero hsource
    exact ⟨fun _ => hend, fun hn => absurd ⟨hcount, hpayload, nofun⟩ hn⟩
  | cons entry entries ih =>
    obtain ⟨fuel, rfl⟩ := Nat.exists_eq_add_one.mpr (Nat.lt_of_lt_of_le (Nat.succ_pos _) hfuel)
    obtain ⟨hfits, hrest⟩ := hformed
    have hcons : before ++ archive (entry :: entries) = before ++ (entry.encode ++ archive entries) := by
      simp only [archive, List.flatMap_cons, List.append_assoc]
    have hmoved : (before ++ entry.encode).length = before.length + entry.encode.length := List.length_append
    rw [hcons] at hsource ⊢
    have hrun : Decides (scan (before ++ (entry.encode ++ archive entries)) limit maxEntries (fuel + 1) s)
        ((s.entries + 1 ≤ maxEntries ∧ entry.Bounded maxEntries ∧
          s.payloadBytes + entry.logicalSize (s.globalPax.overlay s.localPax) ≤ limit) ∧
        (s.entries + 1 + entries.length ≤ maxEntries ∧
          s.payloadBytes + entry.logicalSize (s.globalPax.overlay s.localPax) +
            logicalTotal (entry.globalPax s.globalPax) (entry.localPax s.localPax) entries ≤ limit ∧
          ∀ other ∈ entries, other.Bounded maxEntries)) () := by
      refine decides_bind (scanStep_decides hlimit hmax hpayload hoffset hfits hsource) ?_
      rintro ⟨hmore, -, hfit⟩
      have hnext := ih (before ++ entry.encode) (s.accept entry (before.length + entry.encode.length)) fuel hfit hmore
        hmoved.symm rfl hrest (by rw [List.length_cons] at hfuel; omega) (by rwa [List.append_assoc])
      rw [List.append_assoc] at hnext
      exact hnext
    refine hrun.congr ?_
    rw [List.length_cons, List.forall_mem_cons, logicalTotal]
    constructor
    · rintro ⟨⟨-, hbounded, -⟩, hmany, hsum, hothers⟩
      exact ⟨by omega, by omega, hbounded, hothers⟩
    · rintro ⟨hmany, hsum, hbounded, hothers⟩
      exact ⟨⟨by omega, hbounded, by omega⟩, by omega, by omega, hothers⟩

theorem length_le_archive (entries : List Entry) : entries.length + 1024 ≤ (archive entries).length := by
  induction entries with
  | nil => rw [archive, List.flatMap_nil, List.nil_append, List.length_replicate, List.length_nil]
  | cons entry entries ih =>
    have hheader := entry.header.length_eq
    have hcons : (archive (entry :: entries)).length = entry.encode.length + (archive entries).length := by
      simp only [archive, List.flatMap_cons, List.length_append]
      omega
    have hencode : entry.encode.length = 512 + entry.body.length := by
      rw [Entry.encode, List.length_append, hheader]
    rw [List.length_cons]
    omega

/-- The check ends with a verdict on every byte string. A well-formed archive is
accepted if and only if its entries and their logical sizes keep to the limits,
and no metadata is too large. -/
theorem tar_budget_exact (limit maxEntries : UInt64) :
    (∀ source : Bytes, validateWithLimit source limit maxEntries ≠ .error .panicked ∧
      validateWithLimit source limit maxEntries ≠ .error .exhausted) ∧
    ∀ entries : List Entry, WellFormed .default .default entries → (archive entries).length < wordBound →
      (validateWithLimit (archive entries) limit maxEntries = .ok () ↔
        entries.length ≤ maxEntries.toNat ∧ logicalTotal .default .default entries ≤ limit.toNat ∧
        ∀ entry ∈ entries, entry.Bounded maxEntries.toNat) := by
  constructor
  · exact fun source => (validateWithLimit_yields source limit maxEntries).faultless
  · intro entries hformed hsource
    have hlength := length_le_archive entries
    have hdecides := scan_decides entries [] .start ((archive entries).length + 1) limit.toNat_lt maxEntries.toNat_lt
      (Nat.zero_le _) (Nat.zero_le _) rfl rfl hformed (by omega) hsource
    refine hdecides.iff.trans ?_
    rw [show ScanState.start.entries = 0 from rfl, show ScanState.start.payloadBytes = 0 from rfl, Nat.zero_add,
      Nat.zero_add]
    rfl

def sparseHeader : SparseHeader where
  bytes := List.replicate 156 0 ++ 83 :: (List.replicate 325 0 ++ 1 :: List.replicate 29 0)
  size := 0
  length_eq := by decide +kernel
  size_field := .blank (by decide +kernel)
  nonzero := by decide +kernel
  realSize := 0
  real_field := .blank (by decide +kernel)

/-- One sparse entry with two extension headers. -/
def chainedEntry : Entry :=
  .sparse sparseHeader [⟨List.replicate 504 0 ++ 1 :: List.replicate 7 0, by decide +kernel⟩,
    ⟨List.replicate 512 0, by decide +kernel⟩] []

/-- Extension headers count against the limit on entries. -/
theorem sparse_chain_rejected :
    ¬ ∀ (limit maxEntries : UInt64) (entries : List Entry), WellFormed .default .default entries →
      (archive entries).length < wordBound →
      (validateWithLimit (archive entries) limit maxEntries = .ok () ↔
        entries.length ≤ maxEntries.toNat ∧ logicalTotal .default .default entries ≤ limit.toNat) := by
  intro hall
  have hformed : WellFormed .default .default [chainedEntry] := by
    exact ⟨⟨by decide +kernel, by decide +kernel, by decide +kernel⟩, trivial⟩
  have hiff := hall 0 1 [chainedEntry] hformed (by decide +kernel)
  have haccepted := hiff.mpr (by decide +kernel)
  have hrejected : (validateWithLimit (archive [chainedEntry]) 0 1).toOption = none := by decide +kernel
  rw [haccepted] at hrejected
  exact Option.some_ne_none _ hrejected

end Archive

end Lasper.Tar
