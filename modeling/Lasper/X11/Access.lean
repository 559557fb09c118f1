import Lasper.X11.Store

/-! Authorization and manual revocation. -/

namespace Lasper.X11

open Lib Traced

inductive X11AuthorizationPurpose
  | manual
  | explicitSession
  deriving DecidableEq

structure X11ProjectionContext where
  hostSocket : HostX11Socket
  identity : MappedGuestIdentity

structure X11AuthorizationRequest where
  target : ShellTarget
  projection : X11ProjectionContext
  purpose : X11AuthorizationPurpose

structure X11RevokeRequest where
  target : ShellTarget
  projection : X11ProjectionContext
  recordId : String

inductive X11AuthorizationDisposition
  | accessControlDisabled
  | preExisting
  | reusedManaged (recordId : String)
  | added (recordId : String)

inductive X11RevocationDisposition
  | revoked (recordId : String)
  | alreadyAbsent (recordId : String)

variable (env : Environment)

section Outcome

def isOk {α : Type} : Except String α → Bool
  | .ok _ => true
  | .error _ => false

def observedWith (test : X11AclSnapshot → Bool) : Except String X11AclSnapshot → Bool
  | .ok acl => test acl
  | .error _ => false

def uncertainReason (change : Except String Unit) (observed : Except String X11AclSnapshot)
    (socketResult serverResult : Except String Unit) (fallback : String) : String :=
  let reason := joinFailures [failureOf id change, failureOf (s!"confirmation query: {·}") observed,
    failureOf (s!"endpoint revalidation: {·}") socketResult,
    failureOf (s!"server generation: {·}") serverResult]
  if reason.isEmpty then fallback else reason

end Outcome

section Authorization

/-- The grant of this key that the caller confirmed in this boot. -/
def reusableRecord (records : List ManagedX11GrantRecord) (key : ManagedX11GrantKey) (bootId : String) :
    Option ManagedX11GrantRecord :=
  records.find? fun record =>
    record.callerUid = env.effectiveUid && record.bootId = bootId &&
      record.phase = .confirmedAdded && record.key = key

def alreadyClaimed (claims : List ManagedX11MachineClaim) (request : X11AuthorizationRequest)
    (recordId : String) (key : ManagedX11GrantKey) (bootId : String) : Bool :=
  claims.any fun claim =>
    claim.grantRecordId = recordId && claim.bootId = bootId && claim.key = key &&
      claim.machine = request.target.machine && claim.guestUser = request.target.user &&
      claim.compareMachineInstance request.projection.identity.machineInstance = some true &&
      claim.phase.requiresReconcile

/-- Reuse adds a claim on a confirmed grant, never a second grant record. -/
def joinGrant (request : X11AuthorizationRequest) (record : ManagedX11GrantRecord) : Desktop Unit := do
  let claimId ← ask env.newId
  let _ ← askResult env.unixMillis
  let result ← writeClaim env true
    (.activeForGrant claimId request.target request.projection.identity record) fun _ => []
  ofExcept (result.mapError fun error =>
    s!"X11 access was not reused because its machine claim could not be saved: {error}")

def reuseManagedGrantSync (records : List ManagedX11GrantRecord) (claims : List ManagedX11MachineClaim)
    (request : X11AuthorizationRequest) (serverPeerStartTime : ℕ) (bootId : String) :
    Desktop X11AuthorizationDisposition :=
  let key := ManagedX11GrantKey.fromProjection request.projection.hostSocket
    request.projection.identity serverPeerStartTime
  match reusableRecord env records key bootId with
  | none => return .preExisting
  | some record => do
    onlyIf (!alreadyClaimed claims request record.recordId key bootId) (joinGrant env request record)
    return .reusedManaged record.recordId

def currentGenerationRecord (records : List ManagedX11GrantRecord) (request : X11AuthorizationRequest)
    (serverPeerStartTime : ℕ) (bootId : String) : Option ManagedX11GrantRecord :=
  records.find? fun record =>
    record.target = request.target &&
      record.key.display = request.projection.hostSocket.display &&
      record.callerUid = env.effectiveUid && record.bootId = bootId &&
      record.identity.matches request.projection.identity &&
      record.key.serverPeer = request.projection.hostSocket.peerIdentity &&
      record.key.serverPeerStartTime = serverPeerStartTime &&
      record.key.aclEntry =
        ⟨serverInterpretedFamily, numericLocalUserAddress request.projection.identity.hostUid⟩

def GrantRecordPhase.text : GrantRecordPhase → String
  | .pending => "pending"
  | .confirmedAdded => "confirmed but now absent"
  | .revoked => "revoked"
  | .outcomeUnknown _ => "outcome unknown"

/-- An explicit session does not recreate a grant this server generation has seen. -/
def sessionRefusal (records : List ManagedX11GrantRecord) (request : X11AuthorizationRequest)
    (serverPeerStartTime : ℕ) (bootId : String) : Except String Unit :=
  if request.purpose = .explicitSession then
    match currentGenerationRecord env records request serverPeerStartTime bootId with
    | some record => .error s!"X11 session authorization was not recreated because grant record {record.recordId} for this machine instance and X server is {record.phase.text}; review the record and authorize access explicitly from Configure > Host Integration > X11"
    | none => .ok ()
  else .ok ()

/-- The entry was added: finalize the record, then store the machine's claim. -/
def confirmGrant (record : ManagedX11GrantRecord) : Desktop X11AuthorizationDisposition := do
  mapFailure (fun error => s!"X11 access was added, but its operation record could not be finalized ({error}); the pending record was preserved")
    (writeRecord env { record with phase := .confirmedAdded })
  match ← writeClaim env true (.activeFromRecord record) fun _ => [] with
  | .ok () => return .added record.recordId
  | .error claimError => do
    let reason := s!"X11 access was confirmed, but its machine claim could not be persisted: {claimError}"
    let _ ← attempt (writeRecord env { record with phase := .outcomeUnknown reason })
    fail reason

/-- Keep the record of a change whose outcome is uncertain, and fail. -/
def leaveUncertain {α : Type} (record : ManagedX11GrantRecord) (operation reason kept : String) :
    Desktop α := do
  match ← attempt (writeRecord env { record with phase := .outcomeUnknown reason }) with
  | .ok () => fail s!"X11 {operation} outcome is unknown: {reason}; operation record {record.recordId} was preserved"
  | .error recordError => fail s!"X11 {operation} outcome is unknown: {reason}; additionally, the {kept} could not be updated: {recordError}"

def authorizationWasConfirmed (change : Except String Unit) (observed : Except String X11AclSnapshot)
    (socketResult serverResult : Except String Unit) (hostUid : ℕ) : Bool :=
  isOk change && isOk socketResult && isOk serverResult &&
    observedWith (·.hasNumericLocalUser hostUid) observed

def addGrant (request : X11AuthorizationRequest) (serverPeerStartTime : ℕ) :
    Desktop X11AuthorizationDisposition := do
  let recordId ← ask env.newId
  let _ ← askResult env.unixMillis
  let bootId ← askResult env.hostBootId
  let record : ManagedX11GrantRecord :=
    { recordId, phase := .pending, callerUid := env.effectiveUid, bootId
      target := request.target, identity := request.projection.identity
      key := .fromProjection request.projection.hostSocket request.projection.identity
        serverPeerStartTime }
  writeRecord env record
  let change ← ask env.changeHosts
  let observed ← ask env.readAcl
  let socketResult ← ask env.requireCurrentSocket
  let current ← ask env.peerStartTime
  let serverResult := confirmServer serverPeerStartTime
    "X server process changed while authorizing access" current
  if authorizationWasConfirmed change observed socketResult serverResult record.identity.hostUid then
    confirmGrant env record
  else
    leaveUncertain env record "authorization" (uncertainReason change observed socketResult
      serverResult s!"localuser:#{record.identity.hostUid} was absent after the X server round trip")
      "pending operation record"

def authorizeEnabled (request : X11AuthorizationRequest) (claims : List ManagedX11MachineClaim)
    (before : X11AclSnapshot) : Desktop X11AuthorizationDisposition := do
  let serverPeerStartTime ← askResult env.peerStartTime
  let catalog ← loadRecords env
  let records ← ofExcept (catalog.require (fun detail => s!"X11 authorization was not attempted because Lasper cannot safely inspect its existing grant records: {detail}")
    "the grant record set is incomplete")
  let bootId ← askResult env.hostBootId
  if before.hasNumericLocalUser request.projection.identity.hostUid then
    reuseManagedGrantSync env records claims request serverPeerStartTime bootId
  else do
    ofExcept (sessionRefusal env records request serverPeerStartTime bootId)
    addGrant env request serverPeerStartTime

def unsupportedMode (mode : ℕ) : String :=
  s!"X server returned unsupported access-control mode {mode}; no ACL change was attempted"

def ensureLocked (request : X11AuthorizationRequest) : Desktop X11AuthorizationDisposition := do
  askResult env.openState
  askResult env.lock
  let catalog ← loadClaims env true
  let claims ← ofExcept (catalog.require (fun detail => s!"X11 authorization was not attempted because Lasper cannot safely inspect its machine claims: {detail}")
    "the machine claim set is incomplete")
  -- another process may have changed the ACL while this one waited for the lock
  let before ← askResult env.readAcl
  askResult env.requireCurrentSocket
  match before.mode with
  | .disabled => return .accessControlDisabled
  | .unknown mode => fail (unsupportedMode mode)
  | .enabled => authorizeEnabled env request claims before

def ensureAccessSync (request : X11AuthorizationRequest) : Desktop X11AuthorizationDisposition := do
  askResult env.connectCurrentSocket
  let before ← askResult env.readAcl
  askResult env.requireCurrentSocket
  match before.mode with
  | .disabled => return .accessControlDisabled
  | .unknown mode => fail (unsupportedMode mode)
  | .enabled => ensureLocked env request

end Authorization

section Revocation

/-- Does the record describe what the caller asks to revoke? -/
def checkRevocation (request : X11RevokeRequest) (record : ManagedX11GrantRecord) :
    Except String Unit :=
  let socket := request.projection.hostSocket
  if record.phase ≠ .confirmedAdded then
    .error s!"X11 grant record {request.recordId} is not an active confirmed grant"
  else if record.callerUid ≠ env.effectiveUid then
    .error "X11 grant record belongs to another invoking user"
  else if record.target ≠ request.target ∨
      record.identity.matches request.projection.identity = false ∨
      record.key.display ≠ socket.display ∨ record.key.alternateEndpoint ≠ socket.alternate ∨
      record.key.source ≠ socket.source ∨ record.key.canonicalSource ≠ socket.canonicalPath ∨
      record.key.socketRevision ≠ socket.revision ∨ record.key.serverPeer ≠ socket.peerIdentity then
    .error "X11 grant record does not match the current machine instance or endpoint"
  else .ok ()

def unresolvedClaims (claims : List ManagedX11MachineClaim) (recordId : String) :
    List ManagedX11MachineClaim :=
  claims.filter fun claim => claim.grantRecordId = recordId && claim.phase.requiresReconcile

/-- Finalize the record of an entry that is gone, and end the claims on it. -/
def finishRevocation (available : Bool) (claims : List ManagedX11MachineClaim)
    (record : ManagedX11GrantRecord) (unfinalized unended : String → String) : Desktop Unit := do
  mapFailure unfinalized (writeRecord env { record with phase := .revoked })
  onlyIf (!(unresolvedClaims claims record.recordId).isEmpty)
    (mapFailure unended (endClaims env available record.recordId))

def removeGrant (available : Bool) (claims : List ManagedX11MachineClaim)
    (record : ManagedX11GrantRecord) : Desktop X11RevocationDisposition := do
  let change ← ask env.changeHosts
  let observed ← ask env.readAcl
  let socketResult ← ask env.requireCurrentSocket
  let current ← ask env.peerStartTime
  let serverResult := confirmServer record.key.serverPeerStartTime
    "X11 server process changed while revoking access" current
  if isOk change && isOk socketResult && isOk serverResult &&
      observedWith (fun after => !after.contains record.key.aclEntry) observed then do
    finishRevocation env available claims record
      (fun error => s!"X11 access was revoked, but operation record {record.recordId} could not be finalized ({error}); the confirmed record was preserved")
      (fun error => s!"X11 access was revoked and the grant record was finalized, but its machine claim could not be ended: {error}")
    return .revoked record.recordId
  else
    leaveUncertain env record "revocation" (uncertainReason change observed socketResult serverResult
      "the exact ACL entry was still present after the X server round trip") "operation record"

def revokeMode (before : X11AclSnapshot) : Except String Unit :=
  match before.mode with
  | .disabled => .error "X11 access control is disabled; no ACL revoke was attempted"
  | .unknown mode => .error s!"X server returned unsupported access-control mode {mode}; no ACL revoke was attempted"
  | .enabled => .ok ()

def revokeRecord (available : Bool) (claims : List ManagedX11MachineClaim)
    (record : ManagedX11GrantRecord) : Desktop X11RevocationDisposition := do
  let bootId ← askResult env.hostBootId
  onlyIf (record.bootId ≠ bootId) (fail "X11 grant record belongs to another host boot")
  askResult env.connectCurrentSocket
  let current ← askResult env.peerStartTime
  onlyIf (current ≠ record.key.serverPeerStartTime)
    (fail "X11 server generation changed since the grant was created")
  let before ← askResult env.readAcl
  askResult env.requireCurrentSocket
  ofExcept (revokeMode before)
  if before.contains record.key.aclEntry then do
    let shared := (unresolvedClaims claims record.recordId).length
    onlyIf (shared > 1) (fail s!"X11 grant record {record.recordId} is shared by {shared} unresolved machine claims; stop the machines and let lifecycle cleanup revoke the shared entry")
    removeGrant env available claims record
  else do
    finishRevocation env available claims record
      (fun error => s!"the exact ACL entry was already absent, but operation record {record.recordId} could not be finalized: {error}")
      (fun error => s!"the exact ACL entry was already absent and the grant record was finalized, but its machine claim could not be ended: {error}")
    return .alreadyAbsent record.recordId

def revokeOpened (request : X11RevokeRequest) (available : Bool) : Desktop X11RevocationDisposition := do
  askResult env.lock
  let recordCatalog ← loadRecords env
  let _ ← ofExcept (recordCatalog.require (fun detail => s!"X11 revocation was not attempted because Lasper cannot safely inspect its grant records: {detail}")
    "the grant record set is incomplete")
  let claimCatalog ← loadClaims env available
  let claims ← ofExcept (claimCatalog.require (fun detail => s!"X11 revocation was not attempted because Lasper cannot safely inspect its machine claims: {detail}")
    "the machine claim set is incomplete")
  onlyIf (!validRecordId request.recordId) (fail "X11 revocation record ID is invalid")
  askResult env.readRecord
  match ← read (·.records.find? (·.recordId = request.recordId)) with
  | none => fail s!"X11 grant record {request.recordId} does not exist"
  | some record => do
    ofExcept (checkRevocation env request record)
    revokeRecord env available claims record

def revokeAccessSync (request : X11RevokeRequest) : Desktop X11RevocationDisposition := do
  match ← askResult env.openExisting with
  | none => fail "X11 grant record storage does not exist"
  | some available => revokeOpened env request available

end Revocation

end Lasper.X11
