import Lasper.Tar.Budget
import Mathlib.Data.List.Induction
import Mathlib.Logic.Relation

/-! Which of the sizes stated for an entry its charge covers. Every PAX payload
that is accepted is a list of records, so at any point of the walk there are the
global records read so far and those read for the next entry. -/

namespace Lasper.Tar

open Lib Checked

section Decode

theorem slice_ok {α : Type} {xs ys : List α} {start stop : ℕ} (h : (slice xs start stop : Scan (List α)) = .ok ys) :
    start ≤ stop ∧ stop ≤ xs.length ∧ ys = (xs.drop start).take (stop - start) := by
  unfold slice at h
  split_ifs at h with hbounds
  cases h
  exact ⟨hbounds.1, hbounds.2, List.drop_take⟩

theorem index_ok {α : Type} {xs : List α} {i : ℕ} {x : α} (h : (index xs i : Scan α) = .ok x) : xs[i]? = some x := by
  unfold index at h
  cases hx : xs[i]? with
  | none => rw [hx] at h; cases h
  | some y => rw [hx] at h; cases h; rfl

theorem plus_ok {a b c : ℕ} (h : (plus a b : Scan ℕ) = .ok c) : c = a + b := by
  unfold plus add? at h
  split_ifs at h
  cases h
  rfl

theorem minus_ok {a b c : ℕ} (h : (minus a b : Scan ℕ) = .ok c) : b ≤ a ∧ c = a - b := by
  unfold minus at h
  split_ifs at h with hle
  cases h
  exact ⟨hle, rfl⟩

theorem orReport_ok {α : Type} {x : Option α} {error : String} {a : α} (h : (orReport x error : Scan α) = .ok a) :
    x = some a := by
  cases x with
  | none => cases h
  | some b => cases h; rfl

/-- A list at the first of its bytes with this value. -/
theorem position_split {byte : UInt8} {bytes : Bytes} {i : ℕ} (h : position (· = byte) bytes = some i) :
    bytes = bytes.take i ++ byte :: bytes.drop (i + 1) ∧ byte ∉ bytes.take i ∧ i < bytes.length := by
  unfold position at h
  rw [List.findIdx?_eq_some_iff_getElem] at h
  obtain ⟨hi, hbyte, hfirst⟩ := h
  have hget : bytes[i] = byte := of_decide_eq_true hbyte
  refine ⟨?_, ?_, hi⟩
  · rw [← hget, List.getElem_cons_drop, List.take_append_drop]
  · intro hmem
    obtain ⟨j, hj, hat⟩ := List.mem_take_iff_getElem.mp hmem
    have hless : j < i := by omega
    have := hfirst j hless
    rw [hat] at this
    simp at this

theorem parseDecimalSize_ok {value : Bytes} {size : ℕ} (h : parseDecimalSize value = .ok size) :
    DecimalField value ∧ size = numeral 10 0 (value.map digitValue) := by
  unfold parseDecimalSize at h
  split_ifs at h with hbad
  · cases h
  · rw [readNumeral_eq (by decide) _ _ (by decide)] at h
    split_ifs at h with hfits
    · cases h
      simp only [not_or, not_not] at hbad
      exact ⟨⟨hbad.1, List.all_eq_true.mp hbad.2, hfits⟩, rfl⟩
    · cases h

theorem recordHint_ok {hints hints' : PaxSizeHints} {key value : Bytes} (h : recordHint hints key value = .ok hints') :
    key = ascii "size" ∨ isSparseSizeKey key = true → DecimalField value := by
  intro hkey
  unfold recordHint at h
  split_ifs at h with hsize hsparse
  · obtain ⟨size, hparse, -⟩ := bind_ok h
    exact (parseDecimalSize_ok hparse).1
  · obtain ⟨size, hparse, -⟩ := bind_ok h
    exact (parseDecimalSize_ok hparse).1
  · apply absurd hkey
    simpa [isSparseSizeKey, hsize] using hsparse

/-- The parts of a record of so many bytes, whose length ends at a space. -/
theorem record_parts {rest : Bytes} {space length : ℕ} (hspace : position (· = 32) rest = some space)
    (hlong : space + 1 < length) (hending : rest[length - 1]? = some 10) :
    rest = rest.take space ++ 32 :: ((rest.drop (space + 1)).take (length - 1 - (space + 1)) ++
      10 :: rest.drop length) := by
  have hsplit := (position_split hspace).1
  have hlast : rest.drop (length - 1) = 10 :: rest.drop length := by
    obtain ⟨hlt, hget⟩ := List.getElem?_eq_some_iff.mp hending
    rw [List.drop_eq_getElem_cons hlt, hget, show length - 1 + 1 = length by omega]
  have hmiddle := (List.take_append_drop (length - 1 - (space + 1)) (rest.drop (space + 1))).symm
  rw [List.drop_drop, show space + 1 + (length - 1 - (space + 1)) = length - 1 by omega, hlast] at hmiddle
  rw [← hmiddle]
  exact hsplit

theorem parsePaxRecord_ok {payload : Bytes} {offset recordEnd : ℕ} {hints hints' : PaxSizeHints}
    (h : parsePaxRecord payload offset hints = .ok (hints', recordEnd)) :
    ∃ record : PaxRecord, payload.drop offset = record.encode ++ payload.drop recordEnd ∧
      hints' = record.hint hints := by
  unfold parsePaxRecord at h
  obtain ⟨rest, hrest, h⟩ := bind_ok h
  obtain ⟨space, hspace, h⟩ := bind_ok h
  obtain ⟨lengthEnd, hlengthEnd, h⟩ := bind_ok h
  obtain ⟨digits, hdigits, h⟩ := bind_ok h
  obtain ⟨length, hlength, h⟩ := bind_ok h
  obtain ⟨stop, hstop, h⟩ := bind_ok h
  obtain ⟨start, hstart, h⟩ := bind_ok h
  split_ifs at h with hshort
  · cases h
  obtain ⟨last, hlast, h⟩ := bind_ok h
  obtain ⟨ending, hending, h⟩ := bind_ok h
  split_ifs at h with hnewline
  · cases h
  obtain ⟨body, hbody, h⟩ := bind_ok h
  obtain ⟨separator, hseparator, h⟩ := bind_ok h
  obtain ⟨valueStart, hvalueStart, h⟩ := bind_ok h
  obtain ⟨value, hvalue, h⟩ := bind_ok h
  obtain ⟨key, hkey, h⟩ := bind_ok h
  obtain ⟨changed, hchanged, h⟩ := bind_ok h
  cases h
  obtain ⟨-, hoffset, hrestEq⟩ := slice_ok hrest
  rw [List.take_of_length_le (by rw [List.length_drop])] at hrestEq
  have hfirst := orReport_ok hspace
  obtain ⟨hspaceFree, hspaceLt⟩ := (position_split hfirst).2
  have hend := plus_ok hlengthEnd
  have hdigitsEq := (slice_ok hdigits).2.2
  rw [← hrestEq, show lengthEnd - offset = space by omega] at hdigitsEq
  obtain ⟨hdecimal, hnumber⟩ := parseDecimalSize_ok hlength
  have hfilter := Option.filter_eq_some_iff.mp (orReport_ok hstop)
  have hstopLe : recordEnd ≤ payload.length := of_decide_eq_true hfilter.2
  have hstopEq : recordEnd = offset + length := by
    have hadd := hfilter.1
    unfold add? at hadd
    split_ifs at hadd
    exact (Option.some.inj hadd).symm
  have hstartEq := plus_ok hstart
  have hlastEq := (minus_ok hlast).2
  have hrestLength : rest.length = payload.length - offset := by rw [hrestEq, List.length_drop]
  have hnewlineAt : rest[length - 1]? = some 10 := by
    have hat := index_ok hending
    rw [not_not.mp hnewline] at hat
    rw [hrestEq, List.getElem?_drop, show offset + (length - 1) = last by omega]
    exact hat
  have hparts := record_parts hfirst (by omega) hnewlineAt
  have hbodyEq : body = (rest.drop (space + 1)).take (length - 1 - (space + 1)) := by
    have hcut := (slice_ok hbody).2.2
    rw [hcut, hrestEq, List.drop_drop, show offset + (space + 1) = start by omega,
      show length - 1 - (space + 1) = last - start by omega]
  have hfields := position_split (orReport_ok hseparator)
  have hvalueEq : value = body.drop (separator + 1) := by
    have hcut := (slice_ok hvalue).2.2
    rw [hcut, plus_ok hvalueStart, List.take_of_length_le (by rw [List.length_drop])]
  have hkeyEq : key = body.take separator := by
    have hcut := (slice_ok hkey).2.2
    rw [hcut, List.drop_zero, Nat.sub_zero]
  rw [← hvalueEq, ← hkeyEq] at hfields
  have hbytes : rest = digits ++ 32 :: (key ++ 61 :: (value ++ 10 :: payload.drop recordEnd)) := by
    have htail : rest.drop length = payload.drop recordEnd := by
      rw [hrestEq, List.drop_drop, hstopEq]
    rw [hparts, ← hbodyEq, ← hdigitsEq, htail]
    congr 2
    rw [hfields.1]
    simp
  have hlengths : numeral 10 0 (digits.map digitValue) = digits.length + key.length + value.length + 3 := by
    have hcount := congrArg List.length hbytes
    simp only [List.length_append, List.length_cons, List.length_drop] at hcount
    omega
  let record : PaxRecord := ⟨⟨digits, key, value, hdecimal, hlengths, hfields.2.1⟩, recordHint_ok hchanged⟩
  refine ⟨record, ?_, ?_⟩
  · rw [← hrestEq, hbytes]
    simp [record, FramedRecord.encode]
  · have hhint := record.recordHint_eq hints
    exact Except.ok.inj (hchanged.symm.trans hhint)

theorem parsePaxRecords_ok {payload : Bytes} {fuel offset : ℕ} {hints hints' : PaxSizeHints}
    (h : parsePaxRecords payload fuel offset hints = .ok hints') :
    ∃ records : List PaxRecord, payload.drop offset = encodeRecords records := by
  induction fuel generalizing offset hints with
  | zero => cases h
  | succ fuel ih =>
    unfold parsePaxRecords at h
    split_ifs at h with hmore
    · obtain ⟨⟨between, recordEnd⟩, hrecord, h⟩ := bind_ok h
      obtain ⟨record, hencode, -⟩ := parsePaxRecord_ok hrecord
      obtain ⟨records, hrecords⟩ := ih h
      refine ⟨record :: records, ?_⟩
      rw [hencode, hrecords]
      rfl
    · exact ⟨[], List.drop_eq_nil_of_le (by omega)⟩

/-- What is accepted as a PAX payload is a list of records. -/
theorem parsePaxSizeHints_ok {payload : Bytes} {hints : PaxSizeHints} (h : parsePaxSizeHints payload = .ok hints) :
    ∃ records : List PaxRecord, payload = encodeRecords records := by
  obtain ⟨records, hrecords⟩ := parsePaxRecords_ok h
  exact ⟨records, hrecords⟩

end Decode

section Effect

/-- The size that the last record with such a key states. -/
def lastStated (isKey : Bytes → Bool) (records : List PaxRecord) : Option ℕ :=
  ((records.filter fun record => isKey record.key).getLast?).map (·.stated)

/-- Records for the entry itself come before the global ones. -/
def inEffect (isKey : Bytes → Bool) (globals locals : List PaxRecord) : Option ℕ :=
  (lastStated isKey locals).or (lastStated isKey globals)

def isSizeKey (key : Bytes) : Bool := key = ascii "size"

theorem lastStated_concat (isKey : Bytes → Bool) (records : List PaxRecord) (record : PaxRecord) :
    lastStated isKey (records ++ [record]) =
      if isKey record.key then some record.stated else lastStated isKey records := by
  unfold lastStated
  rw [List.filter_append]
  split_ifs with hkey
  · simp [hkey]
  · simp [hkey]

theorem hintsOf_concat (records : List PaxRecord) (record : PaxRecord) :
    hintsOf (records ++ [record]) = record.hint (hintsOf records) := List.foldl_concat ..

/-- Hints hold the last size, and the last sparse size under either name. -/
theorem hintsOf_eq (records : List PaxRecord) :
    hintsOf records = ⟨lastStated isSizeKey records, lastStated isSparseSizeKey records⟩ := by
  induction records using List.reverseRecOn with
  | nil => rfl
  | append_singleton records record ih =>
    rw [hintsOf_concat, ih, lastStated_concat, lastStated_concat, PaxRecord.hint]
    by_cases hsize : record.key = ascii "size"
    · have hother : isSparseSizeKey record.key = false := by
        rw [hsize]
        decide
      simp [hsize, isSizeKey, hsize ▸ hother]
    · simp only [hsize, isSizeKey, if_false, decide_false, Bool.false_eq_true]
      split_ifs <;> rfl

theorem lastStated_append (isKey : Bytes → Bool) (records more : List PaxRecord) :
    lastStated isKey (records ++ more) = (lastStated isKey more).or (lastStated isKey records) := by
  unfold lastStated
  rw [List.filter_append, List.getLast?_append]
  cases (more.filter fun record => isKey record.key).getLast? <;> rfl

theorem hintsOf_append (records more : List PaxRecord) :
    hintsOf (records ++ more) = (hintsOf records).overlay (hintsOf more) := by
  simp only [hintsOf_eq, PaxSizeHints.overlay, lastStated_append]

theorem overlay_hintsOf (globals locals : List PaxRecord) :
    (hintsOf globals).overlay (hintsOf locals) =
      ⟨inEffect isSizeKey globals locals, inEffect isSparseSizeKey globals locals⟩ := by
  simp only [hintsOf_eq, PaxSizeHints.overlay, inEffect]

end Effect

section Walk

variable {source : Bytes} {limit maxEntries : ℕ} {s s' : ScanState}

def headerAt (source : Bytes) (s : ScanState) : Bytes := (source.drop s.offset).take 512

def sizeField (header : Bytes) : Bytes := (header.take 136).drop 124

def realSizeField (header : Bytes) : Bytes := (header.take 495).drop 483

inductive HeaderKind
  | zero
  | pax (isGlobal : Bool)
  | longName
  | content
  deriving DecidableEq

def headerKind (header : Bytes) : HeaderKind :=
  if header.all (· = 0) then .zero
  else if header.getD 156 0 = 120 ∨ header.getD 156 0 = 103 then .pax (header.getD 156 0 = 103)
  else if header.getD 156 0 = 76 ∨ header.getD 156 0 = 75 then .longName
  else .content

/-- The payload behind a PAX header is these records. -/
def PaxPayload (source : Bytes) (s : ScanState) (records : List PaxRecord) : Prop :=
  ∃ size, parseTarSize (sizeField (headerAt source s)) = .ok size ∧
    (source.drop (s.offset + 512)).take size = encodeRecords records

/-- The global records, and those for the next entry, when the walk has come to a state. -/
inductive Walked (source : Bytes) (limit maxEntries : ℕ) : List PaxRecord → List PaxRecord → ScanState → Prop
  | start : Walked source limit maxEntries [] [] .start
  | globals {globals locals records : List PaxRecord} {s s' : ScanState}
      (h : Walked source limit maxEntries globals locals s)
      (step : scanStep source limit maxEntries s = .ok (some s'))
      (kind : headerKind (headerAt source s) = .pax true) (payload : PaxPayload source s records) :
      Walked source limit maxEntries (globals ++ records) locals s'
  | locals {globals locals records : List PaxRecord} {s s' : ScanState}
      (h : Walked source limit maxEntries globals locals s)
      (step : scanStep source limit maxEntries s = .ok (some s'))
      (kind : headerKind (headerAt source s) = .pax false) (payload : PaxPayload source s records) :
      Walked source limit maxEntries globals (locals ++ records) s'
  | content {globals locals : List PaxRecord} {s s' : ScanState}
      (h : Walked source limit maxEntries globals locals s)
      (step : scanStep source limit maxEntries s = .ok (some s'))
      (kind : headerKind (headerAt source s) = .content) : Walked source limit maxEntries globals [] s'
  | other {globals locals : List PaxRecord} {s s' : ScanState}
      (h : Walked source limit maxEntries globals locals s)
      (step : scanStep source limit maxEntries s = .ok (some s'))
      (kind : headerKind (headerAt source s) = .zero ∨ headerKind (headerAt source s) = .longName) :
      Walked source limit maxEntries globals locals s'

/-- What one round does with the hints and the total. -/
def RoundEffect (source : Bytes) (s s' : ScanState) : HeaderKind → Prop
  | .zero | .longName => s'.globalPax = s.globalPax ∧ s'.localPax = s.localPax
  | .pax isGlobal => ∃ size hints, parseTarSize (sizeField (headerAt source s)) = .ok size ∧
      size ≤ maxMetadataBytes ∧ parsePaxSizeHints ((source.drop (s.offset + 512)).take size) = .ok hints ∧
      s'.globalPax = (if isGlobal then s.globalPax.overlay hints else s.globalPax) ∧
      s'.localPax = if isGlobal then s.localPax else s.localPax.overlay hints
  | .content => s'.globalPax = s.globalPax ∧ s'.localPax = .default ∧
      ∃ stated charged, parseTarSize (sizeField (headerAt source s)) = .ok stated ∧
        s'.payloadBytes = s.payloadBytes + charged ∧
        (s.globalPax.overlay s.localPax).streamSize.getD stated ≤ charged ∧
        (∀ size, (s.globalPax.overlay s.localPax).logicalSize = some size → size ≤ charged) ∧
        ((headerAt source s).getD 156 0 = 83 →
          ∀ size, parseTarSize (realSizeField (headerAt source s)) = .ok size → size ≤ charged)

theorem PaxPayload.hints {records : List PaxRecord} {size : ℕ} {hints : PaxSizeHints}
    (h : PaxPayload source s records) (hsize : parseTarSize (sizeField (headerAt source s)) = .ok size)
    (hsmall : size ≤ maxMetadataBytes)
    (hparsed : parsePaxSizeHints ((source.drop (s.offset + 512)).take size) = .ok hints) :
    hints = hintsOf records := by
  obtain ⟨other, hother, hbytes⟩ := h
  cases hsize.symm.trans hother
  have hlength : (encodeRecords records).length < wordBound := by
    rw [← hbytes, List.length_take]
    exact lt_of_le_of_lt (le_trans (Nat.min_le_left _ _) hsmall) (by decide)
  rw [hbytes, parsePaxSizeHints_eq hlength] at hparsed
  exact (Except.ok.inj hparsed).symm

theorem readBlock_ok {offset length : ℕ} {block : Bytes} (h : readBlock source offset length = .ok block) :
    block = (source.drop offset).take length ∧ block.length = length := by
  simp only [readBlock] at h
  split_ifs at h with hlength
  · cases h
    exact ⟨rfl, hlength⟩
  · cases h

theorem checkedOffset_ok {offset addition moved : ℕ} (h : checkedOffset offset addition = .ok moved) :
    moved = offset + addition := by
  have hadd := orReport_ok h
  unfold add? at hadd
  split_ifs at hadd
  exact (Option.some.inj hadd).symm

theorem rejectLargeMetadata_ok {size : ℕ} {kind : String} (h : rejectLargeMetadata size kind = .ok ()) :
    size ≤ maxMetadataBytes := by
  unfold rejectLargeMetadata at h
  split_ifs at h with hlarge
  · cases h
  · omega

theorem addPayload_ok {total size sum : ℕ} (h : addPayload total size limit = .ok sum) : sum = total + size := by
  unfold addPayload at h
  obtain ⟨added, hadded, h⟩ := bind_ok h
  have hadd := orReport_ok hadded
  unfold add? at hadd
  split_ifs at hadd
  cases hadd
  split_ifs at h
  · cases h
  · cases h
    rfl

theorem scanPax_ok {size : ℕ} {isGlobal : Bool} (h : scanPax source s size isGlobal = .ok s') :
    size ≤ maxMetadataBytes ∧ ∃ hints, parsePaxSizeHints ((source.drop s.offset).take size) = .ok hints ∧
      s'.globalPax = (if isGlobal then s.globalPax.overlay hints else s.globalPax) ∧
      s'.localPax = if isGlobal then s.localPax else s.localPax.overlay hints := by
  unfold scanPax at h
  obtain ⟨_, hsmall, h⟩ := bind_ok h
  obtain ⟨metadata, hmetadata, h⟩ := bind_ok h
  obtain ⟨hints, hparsed, h⟩ := bind_ok h
  obtain ⟨padded, hpadded, h⟩ := bind_ok h
  obtain ⟨offset, hoffset, h⟩ := bind_ok h
  rw [(readBlock_ok hmetadata).1] at hparsed
  refine ⟨rejectLargeMetadata_ok hsmall, hints, hparsed, ?_⟩
  cases isGlobal with
  | true => cases h; exact ⟨rfl, rfl⟩
  | false => cases h; exact ⟨rfl, rfl⟩

theorem scanLongName_ok {size : ℕ} (h : scanLongName s size = .ok s') :
    s'.globalPax = s.globalPax ∧ s'.localPax = s.localPax := by
  unfold scanLongName at h
  obtain ⟨_, hsmall, h⟩ := bind_ok h
  obtain ⟨padded, hpadded, h⟩ := bind_ok h
  obtain ⟨offset, hoffset, h⟩ := bind_ok h
  cases h
  exact ⟨rfl, rfl⟩

/-- The extent covers the declared size, and the real size of a sparse entry. -/
theorem contentExtent_ok {header : Bytes} {logicalSize charged offset : ℕ} {entryType : UInt8}
    (h : contentExtent source header maxEntries s logicalSize entryType = .ok (charged, offset)) :
    logicalSize ≤ charged ∧
      (entryType = 83 → ∀ size, parseTarSize (realSizeField header) = .ok size → size ≤ charged) := by
  unfold contentExtent at h
  split_ifs at h with hsparse
  · obtain ⟨field, hfield, h⟩ := bind_ok h
    obtain ⟨realSize, hreal, h⟩ := bind_ok h
    obtain ⟨extended, hextended, h⟩ := bind_ok h
    obtain ⟨moved, hmoved, h⟩ := bind_ok h
    cases h
    refine ⟨le_max_left _ _, fun _ size hsize => ?_⟩
    unfold slice at hfield
    split_ifs at hfield
    cases hfield
    cases hreal.symm.trans hsize
    exact le_max_right _ _
  · cases h
    exact ⟨le_rfl, fun h => absurd h hsparse⟩

theorem scanContent_ok {header : Bytes} {headerSize : ℕ} {entryType : UInt8}
    (h : scanContent source header limit maxEntries s headerSize entryType = .ok s') :
    s'.globalPax = s.globalPax ∧ s'.localPax = .default ∧ ∃ charged, s'.payloadBytes = s.payloadBytes + charged ∧
      (s.globalPax.overlay s.localPax).streamSize.getD headerSize ≤ charged ∧
      (∀ size, (s.globalPax.overlay s.localPax).logicalSize = some size → size ≤ charged) ∧
      (entryType = 83 → ∀ size, parseTarSize (realSizeField header) = .ok size → size ≤ charged) := by
  unfold scanContent at h
  obtain ⟨⟨charged, offset⟩, hextent, h⟩ := bind_ok h
  obtain ⟨payloadBytes, hpayload, h⟩ := bind_ok h
  obtain ⟨padded, hpadded, h⟩ := bind_ok h
  obtain ⟨moved, hmoved, h⟩ := bind_ok h
  cases h
  obtain ⟨hcovers, hreal⟩ := contentExtent_ok hextent
  refine ⟨rfl, rfl, charged, addPayload_ok hpayload, le_trans (le_max_right _ _) hcovers, ?_, hreal⟩
  intro size hsize
  rw [hsize] at hcovers
  exact le_trans (le_max_left _ _) hcovers

theorem scanStep_effect (h : scanStep source limit maxEntries s = .ok (some s')) :
    RoundEffect source s s' (headerKind (headerAt source s)) := by
  unfold scanStep at h
  obtain ⟨header, hheader, h⟩ := bind_ok h
  obtain ⟨offset, hoffset, h⟩ := bind_ok h
  obtain ⟨hbytes, hlength⟩ := readBlock_ok hheader
  have hat : headerAt source s = header := hbytes.symm
  have hmoved := checkedOffset_ok hoffset
  subst hmoved
  unfold headerKind
  rw [hat]
  split_ifs at h with hzero
  · rw [if_pos hzero]
    obtain ⟨zeroBlocks, hblocks, h⟩ := bind_ok h
    split_ifs at h
    · cases h
    · cases h
      exact ⟨rfl, rfl⟩
  · rw [if_neg hzero]
    obtain ⟨next, hentry, h⟩ := bind_ok h
    cases h
    unfold scanEntry at hentry
    obtain ⟨entries, hentries, hentry⟩ := bind_ok hentry
    split_ifs at hentry with hmany
    · cases hentry
    obtain ⟨field, hfield, hentry⟩ := bind_ok hentry
    obtain ⟨headerSize, hsize, hentry⟩ := bind_ok hentry
    obtain ⟨entryType, htype, hentry⟩ := bind_ok hentry
    have hfieldEq : field = sizeField header := by
      unfold slice at hfield
      split_ifs at hfield
      cases hfield
      rfl
    have htypeEq : header.getD 156 0 = entryType := by
      rw [List.getD_eq_getElem?_getD, index_ok htype]
      rfl
    rw [hfieldEq] at hsize
    rw [htypeEq]
    split_ifs at hentry ⊢ with hpax hname
    · obtain ⟨hsmall, hints, hparsed, hglobal, hlocal⟩ := scanPax_ok hentry
      exact ⟨headerSize, hints, by rw [hat]; exact hsize, hsmall, hparsed, hglobal, hlocal⟩
    · have hkept := scanLongName_ok hentry
      exact hkept
    · obtain ⟨hglobal, hlocal, charged, hcharged, hstream, hlogical, hreal⟩ := scanContent_ok hentry
      refine ⟨hglobal, hlocal, headerSize, charged, by rw [hat]; exact hsize, hcharged, hstream, hlogical, ?_⟩
      rw [hat, htypeEq]
      exact hreal

/-- The hints in force are those of the records. -/
theorem Walked.hints {globals locals : List PaxRecord} (h : Walked source limit maxEntries globals locals s) :
    s.globalPax = hintsOf globals ∧ s.localPax = hintsOf locals := by
  induction h with
  | start => exact ⟨rfl, rfl⟩
  | globals _ step kind payload ih =>
    have heffect := scanStep_effect step
    rw [kind] at heffect
    obtain ⟨size, hints, hsize, hsmall, hparsed, hglobal, hlocal⟩ := heffect
    rw [payload.hints hsize hsmall hparsed, ih.1, if_pos rfl, ← hintsOf_append] at hglobal
    exact ⟨hglobal, hlocal.trans ih.2⟩
  | locals _ step kind payload ih =>
    have heffect := scanStep_effect step
    rw [kind] at heffect
    obtain ⟨size, hints, hsize, hsmall, hparsed, hglobal, hlocal⟩ := heffect
    rw [payload.hints hsize hsmall hparsed, ih.2, if_neg Bool.false_ne_true, ← hintsOf_append] at hlocal
    exact ⟨hglobal.trans ih.1, hlocal⟩
  | content _ step kind ih =>
    have heffect := scanStep_effect step
    rw [kind] at heffect
    exact ⟨heffect.1.trans ih.1, heffect.2.1⟩
  | other _ step kind ih =>
    have heffect := scanStep_effect step
    obtain kind | kind := kind
    · rw [kind] at heffect
      exact ⟨heffect.1.trans ih.1, heffect.2.trans ih.2⟩
    · rw [kind] at heffect
      exact ⟨heffect.1.trans ih.1, heffect.2.trans ih.2⟩

/-- A round goes on from the records read so far, whatever the bytes are. -/
theorem Walked.step {globals locals : List PaxRecord} (h : Walked source limit maxEntries globals locals s)
    (step : scanStep source limit maxEntries s = .ok (some s')) :
    ∃ globals locals, Walked source limit maxEntries globals locals s' := by
  have heffect := scanStep_effect step
  cases hkind : headerKind (headerAt source s) with
  | zero => exact ⟨globals, locals, h.other step (.inl hkind)⟩
  | longName => exact ⟨globals, locals, h.other step (.inr hkind)⟩
  | content => exact ⟨globals, [], h.content step hkind⟩
  | pax isGlobal =>
    rw [hkind] at heffect
    obtain ⟨size, hints, hsize, -, hparsed, -, -⟩ := heffect
    obtain ⟨records, hrecords⟩ := parsePaxSizeHints_ok hparsed
    cases isGlobal with
    | true => exact ⟨globals ++ records, locals, h.globals step hkind ⟨size, hsize, hrecords⟩⟩
    | false => exact ⟨globals, locals ++ records, h.locals step hkind ⟨size, hsize, hrecords⟩⟩

/-- Every state of the walk comes after some records, and an entry with content
is charged at least its size in effect, the sparse size in effect, and the real
size in the header of a sparse entry. -/
theorem charge_covers_hints (source : Bytes) (limit maxEntries : ℕ) :
    (∀ s, Relation.ReflTransGen (fun s s' => scanStep source limit maxEntries s = .ok (some s')) .start s →
      ∃ globals locals, Walked source limit maxEntries globals locals s) ∧
    ∀ globals locals s s', Walked source limit maxEntries globals locals s →
      scanStep source limit maxEntries s = .ok (some s') → headerKind (headerAt source s) = .content →
      ∃ stated charged, parseTarSize (sizeField (headerAt source s)) = .ok stated ∧
        s'.payloadBytes = s.payloadBytes + charged ∧
        (inEffect isSizeKey globals locals).getD stated ≤ charged ∧
        (∀ size, inEffect isSparseSizeKey globals locals = some size → size ≤ charged) ∧
        ((headerAt source s).getD 156 0 = 83 →
          ∀ size, parseTarSize (realSizeField (headerAt source s)) = .ok size → size ≤ charged) := by
  constructor
  · intro s hreached
    induction hreached with
    | refl => exact ⟨[], [], .start⟩
    | tail _ step ih =>
      obtain ⟨globals, locals, hwalked⟩ := ih
      exact hwalked.step step
  · intro globals locals s s' hwalked step kind
    have heffect := scanStep_effect step
    rw [kind] at heffect
    obtain ⟨-, -, stated, charged, hstated, hcharged, hstream, hlogical, hreal⟩ := heffect
    rw [hwalked.hints.1, hwalked.hints.2, overlay_hintsOf] at hstream hlogical
    exact ⟨stated, charged, hstated, hcharged, hstream, hlogical, hreal⟩

end Walk

section Example

/-- A real size, and then another under the other name. -/
def sizeRecords : List PaxRecord :=
  [⟨⟨ascii "28", ascii "GNU.sparse.realsize", ascii "4096",
      ⟨by decide +kernel, by decide +kernel, by decide +kernel⟩, by decide +kernel, by decide +kernel⟩,
      fun _ => ⟨by decide +kernel, by decide +kernel, by decide +kernel⟩⟩,
    ⟨⟨ascii "21", ascii "GNU.sparse.size", ascii "1",
      ⟨by decide +kernel, by decide +kernel, by decide +kernel⟩, by decide +kernel, by decide +kernel⟩,
      fun _ => ⟨by decide +kernel, by decide +kernel, by decide +kernel⟩⟩]

def paxHeader : Header where
  bytes := List.replicate 124 0 ++ (ascii "00000000061" ++ (List.replicate 21 0 ++ 120 :: List.replicate 355 0))
  size := 49
  length_eq := by decide +kernel
  size_field := by
    have hfield := @SizeField.octal [] (ascii "00000000061") [0] nofun (by decide +kernel) (by decide +kernel)
      (by decide +kernel) (by decide +kernel)
    have hsize : numeral 8 0 ((ascii "00000000061").map digitValue) = 49 := by decide +kernel
    rw [hsize] at hfield
    exact hfield
  nonzero := by decide +kernel

def emptyHeader : Header where
  bytes := List.replicate 156 0 ++ 48 :: List.replicate 355 0
  size := 0
  length_eq := by decide +kernel
  size_field := .blank (by decide +kernel)
  nonzero := by decide +kernel

def paxEntry : Entry := .pax false paxHeader sizeRecords (List.replicate 463 0)

def emptyEntry : Entry := .file emptyHeader []

def overridden : Bytes := archive [paxEntry, emptyEntry]

def afterPax : ScanState := ScanState.start.accept paxEntry 1024

def afterEmpty : ScanState := afterPax.accept emptyEntry 1536

theorem overridden_walked : Walked overridden 1024 10 [] sizeRecords afterPax := by
  have hdecides := @scanStep_decides 1024 10 .start [] (archive [emptyEntry]) paxEntry
    (by decide) (by decide) (by decide) rfl
    ⟨by decide +kernel, by decide +kernel, by decide +kernel⟩ (by decide +kernel)
  have hsource : overridden = [] ++ (paxEntry.encode ++ archive [emptyEntry]) := by
    simp only [overridden, archive, List.flatMap_cons, List.flatMap_nil, List.append_nil, List.nil_append,
      List.append_assoc]
  have hlength : ([] : Bytes).length + paxEntry.encode.length = 1024 := by decide +kernel
  have hpax : scanStep overridden 1024 10 .start = .ok (some afterPax) := by
    rw [hlength, ← hsource] at hdecides
    exact hdecides.returns ⟨by decide, by show paxHeader.size ≤ maxMetadataBytes; decide, by decide⟩
  have hsize : parseTarSize (sizeField (headerAt overridden .start)) = .ok 49 := by
    exact ok_of_toOption (by decide +kernel)
  exact .locals .start hpax (by decide +kernel) ⟨49, hsize, by decide +kernel⟩

theorem overridden_content : headerKind (headerAt overridden afterPax) = .content := by decide +kernel

theorem overridden_empty : scanStep overridden 1024 10 afterPax = .ok (some afterEmpty) := by
  have hdecides := @scanStep_decides 1024 10 afterPax paxEntry.encode (List.replicate 1024 0) emptyEntry
    (by decide) (by decide) (by decide) (by decide +kernel)
    ⟨by decide +kernel, by decide +kernel⟩ (by decide +kernel)
  have hsource : overridden = paxEntry.encode ++ (emptyEntry.encode ++ List.replicate 1024 0) := by
    simp only [overridden, archive, List.flatMap_cons, List.flatMap_nil, List.append_nil,
      List.append_assoc]
  have hlength : paxEntry.encode.length + emptyEntry.encode.length = 1536 := by decide +kernel
  rw [hlength, ← hsource] at hdecides
  exact hdecides.returns ⟨by decide, trivial, by decide⟩

/-- The charge is that of the name that came last. -/
theorem charge_covers_overridden : ∃ stated charged,
    parseTarSize (sizeField (headerAt overridden afterPax)) = .ok stated ∧
      afterEmpty.payloadBytes = afterPax.payloadBytes + charged ∧
      (inEffect isSizeKey [] sizeRecords).getD stated ≤ charged ∧
      (∀ size, inEffect isSparseSizeKey [] sizeRecords = some size → size ≤ charged) ∧
      ((headerAt overridden afterPax).getD 156 0 = 83 →
        ∀ size, parseTarSize (realSizeField (headerAt overridden afterPax)) = .ok size → size ≤ charged) :=
  (charge_covers_hints overridden 1024 10).2 [] sizeRecords afterPax afterEmpty overridden_walked overridden_empty
    overridden_content

/-- A real size of 4096 bytes is charged as one byte. -/
theorem realsize_undercounted :
    ¬ ∀ source limit maxEntries globals locals s s', Walked source limit maxEntries globals locals s →
      scanStep source limit maxEntries s = .ok (some s') → headerKind (headerAt source s) = .content →
      ∃ charged, s'.payloadBytes = s.payloadBytes + charged ∧
        ∀ key ∈ [ascii "size", ascii "GNU.sparse.realsize", ascii "GNU.sparse.size"],
          ∀ size, inEffect (· = key) globals locals = some size → size ≤ charged := by
  intro hall
  obtain ⟨charged, hcharged, hcovers⟩ := hall overridden 1024 10 [] sizeRecords afterPax afterEmpty
    overridden_walked overridden_empty overridden_content
  have hone : charged = 1 := by
    have hpayloads : afterEmpty.payloadBytes = 1 ∧ afterPax.payloadBytes = 0 := by decide
    omega
  have hsize := hcovers (ascii "GNU.sparse.realsize") (by simp) 4096 (by decide)
  omega

end Example

end Lasper.Tar
