import Lasper.Lib.Directory
import Lasper.Lib.Traced
import Lasper.X11.Claims

/-! The runtime directory of X11 grants and its readers and writers. Answers of
the X server, of the registration directory, of the clock and of the file system
come from an environment, indexed by the number of the question. A log that no
operation reads keeps what reconcile passes observed and which ACL entries they
removed. -/

namespace Lasper.X11

open Lib Traced
open Provisioning (MachineName)

/-- How an atomic write ends: its last step, syncing the directory, may fail
after the file has been replaced. -/
inductive WriteOutcome
  | written
  | unsynced (error : String)
  | rejected (error : String)

namespace WriteOutcome

def replaced : WriteOutcome → Bool
  | .rejected _ => false
  | _ => true

def result : WriteOutcome → Except String Unit
  | .written => .ok ()
  | .unsynced error | .rejected error => .error error

end WriteOutcome

structure Environment where
  effectiveUid : ℕ
  -- whether the runtime state exists, and with it the claim directory
  openExisting : ℕ → Except String (Option Bool)
  openState : ℕ → Except String Unit
  lock : ℕ → Except String Unit
  readClaims : ℕ → Except String Unit
  readRecords : ℕ → Except String Unit
  -- opening, owner, format and content checks of one record file
  readRecord : ℕ → Except String Unit
  write : ℕ → WriteOutcome
  connectCurrentSocket : ℕ → Except String Unit
  requireCurrentSocket : ℕ → Except String Unit
  peerStartTime : ℕ → Except String ℕ
  hostBootId : ℕ → Except String String
  unixMillis : ℕ → Except String ℕ
  readAcl : ℕ → Except String X11AclSnapshot
  changeHosts : ℕ → Except String Unit
  systemMachineRegistration : ℕ → MachineName → SystemMachineRegistration
  newId : ℕ → String

inductive Event
  | observed (claimId : String) (registration : SystemMachineRegistration) (now : ℕ) (stored : Bool)
  | removed (key : ManagedX11GrantKey) (bootId : String) (claims : List ManagedX11MachineClaim)
  -- the question with which the removal before it was sent
  | sent (question : ℕ)

structure X11State where
  calls : ℕ := 0
  records : List ManagedX11GrantRecord := []
  claims : List ManagedX11MachineClaim := []
  log : List Event := []

abbrev Desktop := Traced X11State String

/-- The failures among some results, in order, joined by semicolons. -/
def joinFailures (failures : List (Option String)) : String :=
  "; ".intercalate (failures.filterMap id)

def failureOf {α : Type} (describe : String → String) : Except String α → Option String
  | .ok _ => none
  | .error error => some (describe error)

def confirmServer (expected : ℕ) (changed : String) (current : Except String ℕ) : Except String Unit :=
  match current with
  | .ok current => if current = expected then .ok () else .error changed
  | .error error => .error error

structure Catalog (α : Type) where
  entries : List α
  diagnostics : List String
  complete : Bool

/-- A catalog that could not be read completely yields no entries to its callers. -/
def Catalog.require {α : Type} (catalog : Catalog α) (describe : String → String) (missing : String) :
    Except String (List α) :=
  if catalog.complete then .ok catalog.entries
  else .error (describe (catalog.diagnostics.head?.getD missing))

def catalogOf {α : Type} (name : α → String) (limit : ℕ) (exceeded : ℕ → String)
    (answer : Except String Unit) (files : List α) : Catalog α :=
  match answer with
  | .error diagnostic => ⟨[], [diagnostic], false⟩
  | .ok () =>
    if files.length > limit then
      ⟨(Directory.list name files).take limit, [exceeded (files.length - limit)], false⟩
    else ⟨Directory.list name files, [], true⟩

section Store

variable (env : Environment)

def ask {α : Type} (answer : ℕ → α) : Desktop α := do
  let n ← read (·.calls)
  update fun s => { s with calls := n + 1 }
  return answer n

def askResult {α : Type} (answer : ℕ → Except String α) : Desktop α := do
  let result ← ask answer
  ofExcept result

def loadClaims (available : Bool) : Desktop (Catalog ManagedX11MachineClaim) := do
  let answer ← ask env.readClaims
  read fun s =>
    if available then
      catalogOf (·.claimId) maxMachineClaims (fun excess =>
        s!"X11 machine claim count exceeded {maxMachineClaims}; {excess} claims were not read")
        answer s.claims
    else ⟨[], [], true⟩

def loadRecords : Desktop (Catalog ManagedX11GrantRecord) := do
  let answer ← ask env.readRecords
  read fun s =>
    catalogOf (·.recordId) maxGrantRecords (fun excess =>
      s!"X11 grant record count exceeded {maxGrantRecords}; {excess} records were not read")
      answer s.records

def writeRecord (record : ManagedX11GrantRecord) : Desktop Unit := do
  let outcome ← ask env.write
  update fun s => { s with
    records := if outcome.replaced then Directory.put (·.recordId) record s.records else s.records }
  ofExcept (outcome.result.mapError fun error => s!"persist X11 grant record: {error}")

/-- The checks of a claim write and its last step. The flag says whether the
file was replaced. -/
def claimWrite (available : Bool) (claim : ManagedX11MachineClaim) (outcome : WriteOutcome) :
    Except String Unit × Bool :=
  if !available then (.error "X11 machine claim directory is unavailable", false)
  else match claim.validate with
    | .error error => (.error error, false)
    | .ok () =>
      (outcome.result.mapError fun error => s!"persist X11 machine claim: {error}", outcome.replaced)

def writeClaim (available : Bool) (claim : ManagedX11MachineClaim) (note : Bool → List Event) :
    Desktop (Except String Unit) := do
  let outcome ← ask env.write
  update fun s => { s with
    claims := if (claimWrite available claim outcome).2 then
      Directory.put (·.claimId) claim s.claims else s.claims
    log := s.log ++ note (claimWrite available claim outcome).2 }
  return (claimWrite available claim outcome).1

def markClaimPhaseSync (available : Bool) (claim : ManagedX11MachineClaim) (phase : MachineClaimPhase) :
    Desktop (Except String Unit) :=
  writeClaim env available { claim with phase } fun _ => []

def endClaim (available : Bool) (grantRecordId : String) (claim : ManagedX11MachineClaim) :
    Desktop Unit :=
  if claim.grantRecordId = grantRecordId ∧ claim.phase.requiresReconcile then do
    let result ← markClaimPhaseSync env available claim .ended
    ofExcept result
  else return ()

def endClaims (available : Bool) (grantRecordId : String) : Desktop Unit := do
  let catalog ← loadClaims env available
  let claims ← ofExcept (catalog.require
    (fun _ => "cannot end X11 grant claims because their catalog is incomplete") "")
  forEach (endClaim env available grantRecordId) claims

def markRecordPhaseSync (recordId : String) (phase : GrantRecordPhase) : Desktop Unit := do
  askResult env.readRecord
  match ← read (·.records.find? (·.recordId = recordId)) with
  | none => fail s!"X11 grant record {recordId} does not exist"
  | some record => writeRecord env { record with phase }

end Store

end Lasper.X11
