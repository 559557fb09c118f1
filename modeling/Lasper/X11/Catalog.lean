import Lasper.X11.Store

/-! The readers of the grant store. A catalog is complete only if every file is
accepted and there are not too many of them; one file that is not accepted makes
the whole catalog incomplete. -/

namespace Lasper.X11

open Lib

/-- What other libraries make of the stored data: whether a text parses as a
UUID, and how many bytes a file takes. -/
structure Codec where
  uuidParses : String → Bool
  recordBytes : ManagedX11GrantRecord → ℕ
  claimBytes : ManagedX11MachineClaim → ℕ

def maxGrantRecordBytes : ℕ := 16 * 1024
def maxMachineClaimBytes : ℕ := 16 * 1024

section Readers

variable (codec : Codec)

def acceptableReason (reason : String) : Bool :=
  reason.utf8ByteSize ≤ maxGrantReasonBytes && !reason.toList.any isControl

def GrantRecordPhase.acceptable : GrantRecordPhase → Bool
  | .outcomeUnknown reason => acceptableReason reason
  | .pending | .confirmedAdded | .revoked => true

def ManagedX11GrantRecord.recordedInstance (record : ManagedX11GrantRecord) :
    Except String ObservedMachineInstance :=
  machineInstanceFromRecord record.identity.machineInstance.leaderPid
    record.identity.machineInstance.leaderStartTime
    (record.identity.machineInstance.namespaces.map (·.1))
    (record.identity.machineInstance.namespaces.map (·.2))

/-- The checks of one record, under the name its id gives it. -/
def ManagedX11GrantRecord.intoEvidence (record : ManagedX11GrantRecord) : Except String Unit := do
  if !validRecordId record.recordId then throw "record ID does not match its filename"
  if !codec.uuidParses record.bootId then throw "invalid host boot identity"
  let _ ← record.recordedInstance
  if record.key.serverPeer.1 = 0 ∨ record.key.serverPeer.1 > maxPid then
    throw "recorded X server PID is invalid"
  if record.key.serverPeerStartTime = 0 then throw "recorded X server start time is invalid"
  if record.key.source ≠ record.key.expectedSource ∨ record.key.canonicalSource.toList.head? ≠ some '/' ∨
      record.key.socketRevision.inode = 0 then
    throw "recorded X11 endpoint path is invalid"
  if record.key.aclFamily ≠ serverInterpretedFamily ∨
      record.key.aclAddress ≠ numericLocalUserAddress record.key.hostUid then
    throw "recorded ACL key is not the exact mapped numeric localuser"
  if !record.phase.acceptable then throw "recorded outcome reason is invalid"

def readBounded (limit size : ℕ) (check : Except String Unit) : Except String Unit :=
  if limit < size then .error "trusted state file is too large" else check

def readGrantRecord (record : ManagedX11GrantRecord) : Except String Unit :=
  readBounded maxGrantRecordBytes (codec.recordBytes record) (record.intoEvidence codec)

def readMachineClaim (claim : ManagedX11MachineClaim) : Except String Unit :=
  readBounded maxMachineClaimBytes (codec.claimBytes claim) (do
    if !codec.uuidParses claim.bootId then throw "invalid machine claim host boot identity"
    claim.validate)

/-- Diagnostics are kept up to a limit; the rest is counted. -/
def pushDiagnostic (message : String) (diagnostics : List String × ℕ) : List String × ℕ :=
  if diagnostics.1.length < maxGrantDiagnostics - 1 then (diagnostics.1 ++ [message], diagnostics.2)
  else (diagnostics.1, diagnostics.2 + 1)

/-- Read files in order, keeping the accepted ones. -/
def readFiles {α : Type} (name : α → String) (check : α → Except String Unit) :
    List α → Catalog α × ℕ → Catalog α × ℕ
  | [], found => found
  | file :: files, (catalog, omitted) =>
    match check file with
    | .ok () => readFiles name check files ({ catalog with entries := catalog.entries ++ [file] }, omitted)
    | .error error =>
      let (diagnostics, omitted) := pushDiagnostic s!"\"{name file}\": {error}" (catalog.diagnostics, omitted)
      readFiles name check files (⟨catalog.entries, diagnostics, false⟩, omitted)

def loadFrom {α : Type} (name : α → String) (check : α → Except String Unit) (limit : ℕ)
    (what plural : String) (files : List α) : Catalog α :=
  let start : Catalog α :=
    if limit < files.length then
      ⟨[], [s!"X11 {what} count exceeded {limit}; {files.length - limit} {plural} were not read"], false⟩
    else ⟨[], [], true⟩
  let (catalog, omitted) := readFiles name check ((Directory.list name files).take limit) (start, 0)
  if 0 < omitted then
    { catalog with
      diagnostics := catalog.diagnostics ++ [s!"{omitted} additional X11 {what} diagnostics were omitted"] }
  else catalog

def loadGrantRecordsFrom (records : List ManagedX11GrantRecord) : Catalog ManagedX11GrantRecord :=
  loadFrom (·.recordId) (readGrantRecord codec) maxGrantRecords "grant record" "records" records

def loadMachineClaimsFrom (claims : List ManagedX11MachineClaim) : Catalog ManagedX11MachineClaim :=
  loadFrom (·.claimId) (readMachineClaim codec) maxMachineClaims "machine claim" "claims" claims

/-- Both catalogs of the store are complete. -/
def Readable (s : X11State) : Prop :=
  (loadGrantRecordsFrom codec s.records).complete = true ∧
    (loadMachineClaimsFrom codec s.claims).complete = true

end Readers

section Complete

variable {α : Type} {name : α → String} {check : α → Except String Unit}

theorem readFiles_complete (files : List α) (found : Catalog α × ℕ) :
    (readFiles name check files found).1.complete = true ↔
      found.1.complete = true ∧ ∀ file ∈ files, check file = .ok () := by
  induction files generalizing found with
  | nil => simp [readFiles]
  | cons file files ih =>
    obtain ⟨catalog, omitted⟩ := found
    cases hc : check file with
    | ok u =>
      simp only [readFiles, hc, ih, List.forall_mem_cons, true_and]
    | error error =>
      simp only [readFiles, hc, ih, List.forall_mem_cons]
      simp

/-- A catalog is complete exactly if its files are few enough and all accepted. -/
theorem loadFrom_complete {limit : ℕ} {what plural : String} {files : List α} :
    (loadFrom name check limit what plural files).complete = true ↔
      files.length ≤ limit ∧ ∀ file ∈ files, check file = .ok () := by
  have hcomplete : (loadFrom name check limit what plural files).complete =
      (readFiles name check ((Directory.list name files).take limit)
        (if limit < files.length then
          ⟨[], [s!"X11 {what} count exceeded {limit}; {files.length - limit} {plural} were not read"], false⟩
        else ⟨[], [], true⟩, 0)).1.complete := by
    unfold loadFrom
    dsimp only
    split_ifs <;> rfl
  rw [hcomplete, readFiles_complete]
  by_cases hl : files.length ≤ limit
  · have hall : (Directory.list name files).take limit = Directory.list name files :=
      List.take_of_length_le (by
        rw [Directory.list, List.length_insertionSort]
        exact hl)
    rw [if_neg (by omega), hall]
    simp only [true_and, hl, Directory.mem_list]
  · rw [if_pos (by omega)]
    simp [hl]

theorem readable_iff {codec : Codec} {s : X11State} : Readable codec s ↔
    (s.records.length ≤ maxGrantRecords ∧ ∀ record ∈ s.records, readGrantRecord codec record = .ok ()) ∧
    (s.claims.length ≤ maxMachineClaims ∧ ∀ claim ∈ s.claims, readMachineClaim codec claim = .ok ()) :=
  and_congr loadFrom_complete loadFrom_complete

end Complete

end Lasper.X11
