import Lasper.Lib.Checked

/-! The budget check of an uncompressed tar archive. It walks over the headers,
adds up what the entries would take on disk, and stops at the first entry over a
limit or at the two zero blocks of the end. -/

namespace Lasper.Tar

open Lib Checked

abbrev Bytes := List UInt8

abbrev Scan := Checked String

section Fields

def checkedOffset (offset addition : ℕ) : Scan ℕ :=
  orReport (add? offset addition) "Tar archive offset overflowed"

def paddedSize (size : ℕ) : Scan ℕ :=
  orReport ((add? size 511).map (· / 512 * 512)) "Tar archive entry size overflowed"

/-- All that is asked for, or the archive has ended. -/
def readBlock (source : Bytes) (offset length : ℕ) : Scan Bytes :=
  let block := (source.drop offset).take length
  if block.length = length then .ok block
  else report "Tar archive ended before its end-of-archive blocks"

def isDigit (base : UInt8) (byte : UInt8) : Bool := 48 ≤ byte && byte < 48 + base

def digitValue (byte : UInt8) : ℕ := byte.toNat - 48

def parseDecimalSize (value : Bytes) : Scan ℕ :=
  if value = [] ∨ ¬ value.all (isDigit 10) then report "Tar metadata contains an invalid decimal size"
  else readNumeral 10 "Tar metadata size overflowed" 0 (value.map digitValue)

def isPadding (byte : UInt8) : Bool := byte = 0 || byte = 32

/-- The digits are taken one by one, and the first that is none ends it. -/
def readOctal (value : ℕ) : Bytes → Scan ℕ
  | [] => .ok value
  | byte :: rest =>
    if ¬ isDigit 8 byte then report "Tar archive contains an invalid entry size"
    else do
      let value ← orReport ((mul? value 8).bind (add? · (digitValue byte))) "Tar entry size overflowed"
      readOctal value rest

def position (p : UInt8 → Bool) (bytes : Bytes) : Option ℕ := bytes.findIdx? p

def rposition (p : UInt8 → Bool) (bytes : Bytes) : Option ℕ :=
  (bytes.reverse.findIdx? p).map fun fromEnd => bytes.length - 1 - fromEnd

/-- The first byte without its marker bit, then the others. -/
def base256Digits : Bytes → List ℕ
  | [] => []
  | first :: rest => (first &&& 0x7f).toNat :: rest.map (·.toNat)

def parseTarSize (field : Bytes) : Scan ℕ :=
  if field.head?.any fun byte => byte &&& 0x80 ≠ 0 then do
    let first ← index field 0
    if first &&& 0x40 ≠ 0 then report "Tar archive contains a negative entry size"
    else readNumeral 256 "Tar entry size overflowed" 0 (base256Digits field)
  else
    match position (! isPadding ·) field with
    | none => .ok 0
    | some start => do
      let last ← match rposition (! isPadding ·) field with
        | some last => .ok last
        | none => .error .panicked
      let stop ← plus last 1
      let digits ← slice field start stop
      readOctal 0 digits

end Fields

section Pax

structure PaxSizeHints where
  streamSize : Option ℕ
  logicalSize : Option ℕ
  deriving DecidableEq

namespace PaxSizeHints

def default : PaxSizeHints := ⟨none, none⟩

def overlay (hints overrides : PaxSizeHints) : PaxSizeHints :=
  ⟨overrides.streamSize.or hints.streamSize, overrides.logicalSize.or hints.logicalSize⟩

end PaxSizeHints

def ascii (text : String) : Bytes := text.toList.map fun c => UInt8.ofNat c.toNat

/-- What one keyword changes. -/
def recordHint (hints : PaxSizeHints) (key value : Bytes) : Scan PaxSizeHints :=
  if key = ascii "size" then do
    let size ← parseDecimalSize value
    return { hints with streamSize := some size }
  else if key = ascii "GNU.sparse.realsize" ∨ key = ascii "GNU.sparse.size" then do
    let size ← parseDecimalSize value
    return { hints with logicalSize := some size }
  else return hints

/-- One record: its hints and where it ends. -/
def parsePaxRecord (payload : Bytes) (offset : ℕ) (hints : PaxSizeHints) : Scan (PaxSizeHints × ℕ) := do
  let rest ← slice payload offset payload.length
  let lengthOffset ← orReport (position (· = 32) rest) "Tar PAX record has no length"
  let lengthEnd ← plus offset lengthOffset
  let digits ← slice payload offset lengthEnd
  let length ← parseDecimalSize digits
  let recordEnd ← orReport ((add? offset length).filter (· ≤ payload.length)) "Tar PAX record is truncated"
  let start ← plus lengthEnd 1
  if recordEnd ≤ start then report "Tar PAX record has an invalid length"
  else do
    let last ← minus recordEnd 1
    let ending ← index payload last
    if ending ≠ 10 then report "Tar PAX record has an invalid length"
    else do
      let record ← slice payload start last
      let separator ← orReport (position (· = 61) record) "Tar PAX record has no value"
      let valueStart ← plus separator 1
      let value ← slice record valueStart record.length
      let key ← slice record 0 separator
      let hints ← recordHint hints key value
      return (hints, recordEnd)

def parsePaxRecords (payload : Bytes) : ℕ → ℕ → PaxSizeHints → Scan PaxSizeHints
  | 0, _, _ => .error .exhausted
  | fuel + 1, offset, hints =>
    if offset < payload.length then do
      let (hints, recordEnd) ← parsePaxRecord payload offset hints
      parsePaxRecords payload fuel recordEnd hints
    else .ok hints

def parsePaxSizeHints (payload : Bytes) : Scan PaxSizeHints :=
  parsePaxRecords payload (payload.length + 1) 0 .default

end Pax

section Walk

def maxMetadataBytes : ℕ := 1024 * 1024

def rejectLargeMetadata (size : ℕ) (kind : String) : Scan Unit :=
  if maxMetadataBytes < size then report s!"Tar {kind} metadata exceeds the {maxMetadataBytes} byte limit"
  else .ok ()

/-- At most as many as the limit of entries. -/
def skipOldgnuSparseHeaders (source : Bytes) (limit : ℕ) : ℕ → ℕ → ℕ → Bool → Scan ℕ
  | _, _, offset, false => .ok offset
  | 0, _, _, true => .error .exhausted
  | fuel + 1, count, offset, true => do
    let count ← orReport (add? count 1) "Tar sparse header count overflowed"
    if limit < count then report s!"Tar archive contains more than {limit} sparse extension headers"
    else do
      let header ← readBlock source offset 512
      let offset ← checkedOffset offset 512
      let extended ← index header 504
      skipOldgnuSparseHeaders source limit fuel count offset (extended ≠ 0)

def addPayload (total size limit : ℕ) : Scan ℕ := do
  let total ← orReport (add? total size) "Tar archive payload size overflowed"
  if limit < total then report s!"Tar archive declares more than the {limit} byte extraction limit"
  else return total

structure ScanState where
  offset : ℕ
  zeroBlocks : ℕ
  entries : ℕ
  payloadBytes : ℕ
  globalPax : PaxSizeHints
  localPax : PaxSizeHints

def ScanState.start : ScanState := ⟨0, 0, 0, 0, .default, .default⟩

/-- A PAX header, whose records are read. -/
def scanPax (source : Bytes) (s : ScanState) (size : ℕ) (isGlobal : Bool) : Scan ScanState := do
  rejectLargeMetadata size "PAX"
  let metadata ← readBlock source s.offset size
  let hints ← parsePaxSizeHints metadata
  let padded ← paddedSize size
  let offset ← checkedOffset s.offset padded
  if isGlobal then return { s with globalPax := s.globalPax.overlay hints, offset }
  else return { s with localPax := s.localPax.overlay hints, offset }

def scanLongName (s : ScanState) (size : ℕ) : Scan ScanState := do
  rejectLargeMetadata size "long-name"
  let padded ← paddedSize size
  let offset ← checkedOffset s.offset padded
  return { s with offset }

/-- Sparse entries declare their real size, and may have more headers. -/
def contentExtent (source header : Bytes) (maxEntries : ℕ) (s : ScanState) (logicalSize : ℕ)
    (entryType : UInt8) : Scan (ℕ × ℕ) :=
  if entryType = 83 then do
    let field ← slice header 483 495
    let realSize ← parseTarSize field
    let extended ← index header 482
    let offset ← skipOldgnuSparseHeaders source maxEntries (source.length + 1) 0 s.offset (extended ≠ 0)
    return (max logicalSize realSize, offset)
  else return (logicalSize, s.offset)

/-- An entry with content. It uses up the local hints. -/
def scanContent (source header : Bytes) (limit maxEntries : ℕ) (s : ScanState) (headerSize : ℕ)
    (entryType : UInt8) : Scan ScanState :=
  let hints := s.globalPax.overlay s.localPax
  let streamSize := hints.streamSize.getD headerSize
  let declaredSize := max (hints.logicalSize.getD streamSize) streamSize
  do
    let (logicalSize, offset) ← contentExtent source header maxEntries s declaredSize entryType
    let payloadBytes ← addPayload s.payloadBytes logicalSize limit
    let padded ← paddedSize streamSize
    let offset ← checkedOffset offset padded
    return { s with offset, payloadBytes, localPax := .default }

/-- The entry after its header was read. -/
def scanEntry (source header : Bytes) (limit maxEntries : ℕ) (s : ScanState) : Scan ScanState := do
  let entries ← orReport (add? s.entries 1) "Tar archive entry count overflowed"
  if maxEntries < entries then report s!"Tar archive contains more than {maxEntries} entries"
  else do
    let field ← slice header 124 136
    let headerSize ← parseTarSize field
    let entryType ← index header 156
    let s := { s with zeroBlocks := 0, entries }
    if entryType = 120 ∨ entryType = 103 then scanPax source s headerSize (entryType = 103)
    else if entryType = 76 ∨ entryType = 75 then scanLongName s headerSize
    else scanContent source header limit maxEntries s headerSize entryType

/-- One round: the end is reached, or the walk goes on. -/
def scanStep (source : Bytes) (limit maxEntries : ℕ) (s : ScanState) : Scan (Option ScanState) := do
  let header ← readBlock source s.offset 512
  let offset ← checkedOffset s.offset 512
  if header.all (· = 0) then do
    let zeroBlocks ← plusByte s.zeroBlocks 1
    if zeroBlocks = 2 then return none
    else return some { s with offset, zeroBlocks }
  else do
    let s ← scanEntry source header limit maxEntries { s with offset }
    return some s

def scan (source : Bytes) (limit maxEntries : ℕ) : ℕ → ScanState → Scan Unit
  | 0, _ => .error .exhausted
  | fuel + 1, s => do
    let next ← scanStep source limit maxEntries s
    match next with
    | some s => scan source limit maxEntries fuel s
    | none => return ()

/-- Every round reads a block of the archive, so there are no more rounds than bytes. -/
def validateWithLimit (source : Bytes) (limit maxEntries : UInt64) : Scan Unit :=
  scan source limit.toNat maxEntries.toNat (source.length + 1) .start

end Walk

end Lasper.Tar
