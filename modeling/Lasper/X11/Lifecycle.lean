import Lasper.X11.Store

/-! The reconcile pass: observe every unresolved claim on one endpoint, group the
claims by grant key, and revoke the grants whose machines have all stayed away
for the grace period. -/

namespace Lasper.X11

open Lib Traced

inductive X11ReconcileRetry
  | none
  | registeredMachine
  | pendingObservation
  deriving DecidableEq

structure X11ReconcileReport where
  display : ℕ
  revokedRecordIds : List String := []
  pendingRecordIds : List String := []
  diagnostics : List String := []
  retry : X11ReconcileRetry := .none

/-- What a pass has collected so far: the last ACL reading and the report. -/
structure Progress where
  acl : X11AclSnapshot
  report : X11ReconcileReport

/-- What a pass learns before it looks at the first claim. -/
structure Pass where
  socket : HostX11Socket
  available : Bool
  claims : List ManagedX11MachineClaim
  records : List ManagedX11GrantRecord
  serverPeerStartTime : ℕ
  currentBootId : String
  now : ℕ

namespace X11ReconcileReport

def pushDiagnostic (report : X11ReconcileReport) (message : String) : X11ReconcileReport :=
  if report.diagnostics.length < maxGrantDiagnostics then
    { report with diagnostics := report.diagnostics ++ [message] }
  else report

def notePending (report : X11ReconcileReport) (recordId : String) : X11ReconcileReport :=
  if recordId ∈ report.pendingRecordIds then report
  else { report with pendingRecordIds := report.pendingRecordIds ++ [recordId] }

/-- Waiting for an observation never replaces waiting for a registered machine. -/
def awaitObservation (report : X11ReconcileReport) : X11ReconcileReport :=
  if report.retry = .none then { report with retry := .pendingObservation } else report

def noteMember (report : X11ReconcileReport) (member : ReconcileClaim) : X11ReconcileReport :=
  match member.status with
  | .active => { report with retry := .registeredMachine }
  | .pending => (report.notePending member.recordId).awaitObservation
  | .ready => report
  | .unavailable reason =>
    (report.pushDiagnostic s!"claim {member.claimId} machine observation unavailable: {reason}").awaitObservation
  | .blocked reason =>
    report.pushDiagnostic s!"claim {member.claimId} not eligible for cleanup: {reason}"

/-- The second look at a member, just before its grant would be revoked. -/
def noteRecheck (report : X11ReconcileReport) (claimId : String) :
    Option ReconcileClaimStatus → X11ReconcileReport
  | some (.unavailable reason) =>
    ({ report with retry := .pendingObservation }).pushDiagnostic
      s!"claim {claimId} machine observation unavailable before cleanup: {reason}"
  | some (.blocked reason) =>
    report.pushDiagnostic s!"claim {claimId} changed before cleanup: {reason}"
  | _ => report

end X11ReconcileReport

def Progress.note (progress : Progress) (message : String) : Progress :=
  { progress with report := progress.report.pushDiagnostic message }

def claimsNeedActivation (claims : List ManagedX11MachineClaim) (records : List ManagedX11GrantRecord) :
    Bool :=
  claims.any (·.phase.requiresReconcile) || records.any (·.phase = .confirmedAdded)

namespace Pass

/-- Does the pass have to look at this claim? -/
def concerns (pass : Pass) (claim : ManagedX11MachineClaim) : Bool :=
  claim.phase.requiresReconcile &&
    claimKeyMatchesSocket claim.key pass.socket pass.serverPeerStartTime

/-- Confirmed grants of this endpoint that no unresolved claim keeps alive. -/
def unclaimed (pass : Pass) : List ManagedX11GrantRecord :=
  pass.records.filter fun record =>
    record.phase = .confirmedAdded &&
      claimKeyMatchesSocket record.key pass.socket pass.serverPeerStartTime &&
      !pass.claims.any fun claim =>
        claim.grantRecordId = record.recordId && claim.phase.requiresReconcile

def initialReport (pass : Pass) : X11ReconcileReport :=
  pass.unclaimed.foldl (fun report record => report.pushDiagnostic
    s!"confirmed grant {record.recordId} has no unresolved machine claim; automatic cleanup cannot establish its lifecycle")
    { display := pass.socket.display }

def matchingRecord (pass : Pass) (key : ManagedX11GrantKey) (member : ReconcileClaim) :
    Except String ManagedX11GrantRecord :=
  match pass.records.find? fun record =>
    record.recordId = member.recordId && record.phase = .confirmedAdded && record.key = key with
  | some record => .ok record
  | none => .error s!"claim {member.claimId} has no matching confirmed grant record"

def matchingRecords (pass : Pass) (group : ReconcileGroup) : Except String (List ManagedX11GrantRecord) :=
  group.claims.foldlM (fun found member => do
    let record ← pass.matchingRecord group.key member
    return if record ∈ found then found else found ++ [record]) []

def catalogClaim (pass : Pass) (member : ReconcileClaim) : Except String ManagedX11MachineClaim :=
  match pass.claims.find? (·.claimId = member.claimId) with
  | some claim => .ok claim
  | none => .error "reconcile claim came from catalog"

end Pass

variable (env : Environment)

/-- One observation of a claim: the transition it calls for is stored together
with the entry in the log. -/
def storeTransition (available : Bool) (claim : ManagedX11MachineClaim)
    (registration : SystemMachineRegistration) (now : ℕ) :
    Option MachineClaimPhase → Desktop (Except String Unit)
  | none => do
    update fun s => { s with log := s.log ++ [.observed claim.claimId registration now true] }
    return .ok ()
  | some phase =>
    writeClaim env available { claim with phase } fun stored =>
      [.observed claim.claimId registration now stored]

def reconcileClaim (available : Bool) (claim : ManagedX11MachineClaim) (currentBootId : String)
    (registration : SystemMachineRegistration) (now : ℕ) : Desktop (Option ReconcileClaimStatus) :=
  match observeMachineClaim claim (some currentBootId) registration now with
  | none => return none
  | some observation => do
    match ← storeTransition env available claim registration now (observation.nextPhase claim now) with
    | .ok () => return some observation.intoReconcileStatus
    | .error error =>
      return some (.blocked s!"could not persist machine claim transition: {error}")

def askRegistration (claim : ManagedX11MachineClaim) : Desktop SystemMachineRegistration :=
  ask fun n => env.systemMachineRegistration n claim.machine

/-- File a claim under its key; one that needs no reconciling has no status. -/
def fileClaim (claim : ManagedX11MachineClaim) (groups : List ReconcileGroup) :
    Option ReconcileClaimStatus → List ReconcileGroup
  | none => groups
  | some status => ReconcileGroup.insert ⟨claim.claimId, claim.grantRecordId, claim.key, status⟩ groups

def observeClaims (pass : Pass) :
    List ManagedX11MachineClaim → List ReconcileGroup → Desktop (List ReconcileGroup)
  | [], groups => return groups
  | claim :: claims, groups =>
    if pass.concerns claim then do
      let registration ← askRegistration env claim
      let status ← reconcileClaim env pass.available claim pass.currentBootId registration pass.now
      observeClaims pass claims (fileClaim claim groups status)
    else observeClaims pass claims groups

def recheckMember (pass : Pass) (member : ReconcileClaim) : Desktop (Option ReconcileClaimStatus) := do
  let claim ← ofExcept (pass.catalogClaim member)
  let registration ← askRegistration env claim
  let now ← askResult env.unixMillis
  reconcileClaim env pass.available claim pass.currentBootId registration now

/-- Look at every member again; all of them have to be ready still. -/
def recheckMembers (pass : Pass) :
    List ReconcileClaim → Bool → Progress → Desktop (Bool × Progress)
  | [], stillReady, progress => return (stillReady, progress)
  | member :: members, stillReady, progress => do
    let status ← recheckMember env pass member
    recheckMembers pass members (stillReady && status = some .ready)
      { progress with report := progress.report.noteRecheck member.claimId status }

/-- Send the removal of the group's entry. The claims stored at that moment and
the number of the question go into the log. -/
def removeAndObserve (pass : Pass) (key : ManagedX11GrantKey) :
    Desktop (Except String Unit × Except String X11AclSnapshot) := do
  update fun s => { s with log := s.log ++ [.removed key pass.currentBootId s.claims, .sent s.calls] }
  let change ← ask env.changeHosts
  let observed ← ask env.readAcl
  return (change, observed)

def markMember (pass : Pass) (phase : MachineClaimPhase) (member : ReconcileClaim) :
    Desktop (Except String Unit) := do
  let claim ← ofExcept (pass.catalogClaim member)
  markClaimPhaseSync env pass.available claim phase

def markUncertain (pass : Pass) (reason : String) (member : ReconcileClaim) : Desktop Unit := do
  let _ ← markMember env pass (.unknown reason) member
  return ()

def markEnded (pass : Pass) (member : ReconcileClaim) : Desktop Unit := do
  let result ← markMember env pass .ended member
  ofExcept result

def finishGroup (pass : Pass) (group : ReconcileGroup) (records : List ManagedX11GrantRecord)
    (progress : Progress) : Desktop Progress := do
  forEach (fun record => markRecordPhaseSync env record.recordId .revoked) records
  forEach (markEnded env pass) group.claims
  return { progress with report := { progress.report with
    revokedRecordIds := progress.report.revokedRecordIds ++ records.map (·.recordId) } }

/-- The removal has been sent: an uncertain outcome is recorded with every claim. -/
def concludeRemoval (pass : Pass) (group : ReconcileGroup) (records : List ManagedX11GrantRecord)
    (progress : Progress) (change : Except String Unit) (observed : Except String X11AclSnapshot)
    (socketResult serverResult : Except String Unit) : Desktop Progress :=
  match change, socketResult, serverResult with
  | .ok (), .ok (), .ok () => do
    let acl ← ofExcept observed
    if acl.contains group.key.aclEntry then
      return ({ progress with acl }).note "exact X11 ACL entry remained after stopped-machine revoke"
    else finishGroup env pass group records { progress with acl }
  | _, _, _ => do
    let reason := joinFailures [failureOf id change, failureOf (s!"ACL confirmation: {·}") observed,
      failureOf id socketResult, failureOf (s!"server generation: {·}") serverResult]
    forEach (markUncertain env pass reason) group.claims
    return progress.note s!"X11 revoke outcome is unknown: {reason}"

def revokeGroup (pass : Pass) (group : ReconcileGroup) (records : List ManagedX11GrantRecord)
    (progress : Progress) : Desktop Progress :=
  if progress.acl.contains group.key.aclEntry then do
    let (change, observed) ← removeAndObserve env pass group.key
    let socketResult ← ask env.requireCurrentSocket
    let current ← ask env.peerStartTime
    concludeRemoval env pass group records progress change observed socketResult
      (confirmServer pass.serverPeerStartTime
        "X11 server process changed while revoking a stopped machine" current)
  else finishGroup env pass group records progress

def recheckAndRevoke (pass : Pass) (group : ReconcileGroup) (records : List ManagedX11GrantRecord)
    (progress : Progress) : Desktop Progress := do
  let (stillReady, progress) ← recheckMembers env pass group.claims true progress
  if stillReady then revokeGroup env pass group records progress else return progress

def reconcileGroup (pass : Pass) (group : ReconcileGroup) (progress : Progress) : Desktop Progress :=
  let progress := { progress with report := group.claims.foldl (·.noteMember ·) progress.report }
  if group.blocked || group.pending || !group.ready then return progress
  else match pass.matchingRecords group with
    | .error reason => return progress.note reason
    | .ok records => recheckAndRevoke env pass group records progress

def reconcileGroups (pass : Pass) : List ReconcileGroup → Progress → Desktop Progress
  | [], progress => return progress
  | group :: groups, progress => do
    let progress ← reconcileGroup env pass group progress
    reconcileGroups pass groups progress

def reconcileEnabled (pass : Pass) (acl : X11AclSnapshot) : Desktop X11ReconcileReport := do
  let groups ← observeClaims env pass pass.claims []
  let progress ← reconcileGroups env pass groups ⟨acl, pass.initialReport⟩
  return progress.report

def reconcileLoaded (socket : HostX11Socket) (available : Bool) (claims : List ManagedX11MachineClaim)
    (records : List ManagedX11GrantRecord) : Desktop X11ReconcileReport := do
  askResult env.connectCurrentSocket
  let serverPeerStartTime ← askResult env.peerStartTime
  let currentBootId ← askResult env.hostBootId
  let now ← askResult env.unixMillis
  let acl ← askResult env.readAcl
  askResult env.requireCurrentSocket
  if acl.mode = .enabled then
    reconcileEnabled env ⟨socket, available, claims, records, serverPeerStartTime, currentBootId, now⟩ acl
  else fail "X11 ACL lifecycle reconcile requires enabled access control"

def reconcileOpened (socket : HostX11Socket) (available : Bool) : Desktop X11ReconcileReport := do
  askResult env.lock
  let claimCatalog ← loadClaims env available
  let claims ← ofExcept (claimCatalog.require id "X11 machine claim set is incomplete")
  let recordCatalog ← loadRecords env
  let records ← ofExcept (recordCatalog.require id "X11 grant record set is incomplete")
  if claimsNeedActivation claims records then reconcileLoaded env socket available claims records
  else return { display := socket.display }

def reconcileSync (socket : HostX11Socket) : Desktop X11ReconcileReport := do
  match ← askResult env.openExisting with
  | none => return { display := socket.display }
  | some available => reconcileOpened env socket available

end Lasper.X11
