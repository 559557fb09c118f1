import Mathlib.Algebra.Order.Ring.Int
import Mathlib.Data.Int.Notation
import Lasper.Provisioning.State

/-! Grant keys, machine claims and grant records, and what one observation of a
machine registration makes of a claim. Nothing here touches the store. -/

namespace Lasper.X11

open Provisioning (MachineName)

def claimReconcileGraceMillis : ℕ := 2000
def maxGrantRecords : ℕ := 256
def maxMachineClaims : ℕ := 256
def maxGrantDiagnostics : ℕ := 16
def maxGrantReasonBytes : ℕ := 2048
def serverInterpretedFamily : ℕ := 5
def maxPid : ℕ := 2 ^ 31 - 1

structure X11SocketRevision where
  device : ℕ
  inode : ℕ
  ctimeSeconds : ℤ
  ctimeNanoseconds : ℤ
  deriving DecidableEq

structure HostX11Socket where
  display : ℕ
  alternate : Bool
  source : String
  canonicalPath : String
  -- pid, uid and gid of the listening server; pid 0 is a peer outside the namespace
  peerIdentity : ℕ × ℕ × ℕ
  revision : X11SocketRevision
  deriving DecidableEq

section Acl

inductive X11AccessControlMode
  | enabled
  | disabled
  | unknown (value : ℕ)
  deriving DecidableEq

structure X11AclEntry where
  family : ℕ
  address : List UInt8
  deriving DecidableEq

structure X11AclSnapshot where
  mode : X11AccessControlMode
  entries : List X11AclEntry
  deriving DecidableEq

def asciiBytes (text : String) : List UInt8 := text.toList.map (·.toUInt8)

def numericLocalUserAddress (uid : ℕ) : List UInt8 :=
  asciiBytes "localuser" ++ 0 :: asciiBytes s!"#{uid}"

/-- The kind and the value of a server-interpreted address, cut at the first zero byte. -/
def X11AclEntry.serverInterpreted (entry : X11AclEntry) : Option (List UInt8 × List UInt8) :=
  if entry.family ≠ serverInterpretedFamily ∨ 0 ∉ entry.address then none
  else some (entry.address.takeWhile (· ≠ 0), (entry.address.dropWhile (· ≠ 0)).tail)

def X11AclEntry.isNumericLocalUser (entry : X11AclEntry) (uid : ℕ) : Bool :=
  entry.serverInterpreted = some (asciiBytes "localuser", asciiBytes s!"#{uid}")

def X11AclSnapshot.hasNumericLocalUser (acl : X11AclSnapshot) (uid : ℕ) : Bool :=
  acl.entries.any (·.isNumericLocalUser uid)

def X11AclSnapshot.contains (acl : X11AclSnapshot) (entry : X11AclEntry) : Bool :=
  decide (entry ∈ acl.entries)

end Acl

section Identity

structure ObservedNamespaceIdentity where
  device : ℕ
  inode : ℕ
  deriving DecidableEq

structure ObservedMachineInstance where
  leaderPid : ℕ
  leaderStartTime : Option ℕ
  namespaces : Option (ObservedNamespaceIdentity × ObservedNamespaceIdentity)
  deriving DecidableEq

/-- `none` when the two observations share no evidence. -/
def ObservedMachineInstance.compare (self other : ObservedMachineInstance) : Option Bool :=
  if self.leaderPid ≠ other.leaderPid then some false
  else match self.leaderStartTime, other.leaderStartTime with
    | some left, some right =>
      if left ≠ right then some false
      else match self.namespaces, other.namespaces with
        | some left, some right => some (left = right)
        | _, _ => some true
    | _, _ =>
      match self.namespaces, other.namespaces with
      | some left, some right => some (left = right)
      | _, _ => none

structure MappedGuestIdentity where
  guestUid : ℕ
  guestGid : ℕ
  hostUid : ℕ
  hostGid : ℕ
  machineInstance : ObservedMachineInstance
  deriving DecidableEq

def MappedGuestIdentity.matches (self other : MappedGuestIdentity) : Bool :=
  self.guestUid = other.guestUid && self.guestGid = other.guestGid && self.hostUid = other.hostUid &&
    self.hostGid = other.hostGid &&
    self.machineInstance.compare other.machineInstance = some true

def isValidGuestUserName (value : String) : Bool :=
  let chars := value.toList
  chars ≠ [] && value.utf8ByteSize ≤ 32 && chars.head? ≠ some '-' &&
    chars.all fun c => 32 < c.toNat && c.toNat < 127 && c ≠ '/' && c ≠ '\\' && c ≠ '@'

structure ValidatedGuestUserName where
  text : String
  valid : isValidGuestUserName text = true
  deriving DecidableEq

structure ShellTarget where
  machine : MachineName
  user : ValidatedGuestUserName
  deriving DecidableEq

end Identity

/-- The exact ACL entry of one grant: server generation, endpoint and mapped user. -/
structure ManagedX11GrantKey where
  hostUid : ℕ
  display : ℕ
  alternateEndpoint : Bool
  source : String
  canonicalSource : String
  socketRevision : X11SocketRevision
  serverPeer : ℕ × ℕ × ℕ
  serverPeerStartTime : ℕ
  aclFamily : ℕ
  aclAddress : List UInt8
  deriving DecidableEq

namespace ManagedX11GrantKey

def fromProjection (socket : HostX11Socket) (identity : MappedGuestIdentity)
    (serverPeerStartTime : ℕ) : ManagedX11GrantKey where
  hostUid := identity.hostUid
  display := socket.display
  alternateEndpoint := socket.alternate
  source := socket.source
  canonicalSource := socket.canonicalPath
  socketRevision := socket.revision
  serverPeer := socket.peerIdentity
  serverPeerStartTime
  aclFamily := serverInterpretedFamily
  aclAddress := numericLocalUserAddress identity.hostUid

def aclEntry (key : ManagedX11GrantKey) : X11AclEntry := ⟨key.aclFamily, key.aclAddress⟩

def expectedSource (key : ManagedX11GrantKey) : String :=
  "/tmp/.X11-unix/" ++ "X" ++ toString key.display ++ (if key.alternateEndpoint then "_" else "")

def validate (key : ManagedX11GrantKey) : Except String Unit :=
  if key.source ≠ key.expectedSource ∨ key.canonicalSource.toList.head? ≠ some '/' ∨
      key.socketRevision.inode = 0 then
    .error "machine claim contains an invalid X11 endpoint key"
  else if key.serverPeer.1 = 0 ∨ key.serverPeer.1 > maxPid then
    .error "machine claim contains an invalid X server PID"
  else if key.serverPeerStartTime = 0 then
    .error "machine claim contains an invalid X server generation"
  else if key.aclFamily ≠ serverInterpretedFamily ∨
      key.aclAddress ≠ numericLocalUserAddress key.hostUid then
    .error "machine claim does not contain the exact numeric localuser ACL key"
  else .ok ()

end ManagedX11GrantKey

def claimKeyMatchesSocket (key : ManagedX11GrantKey) (socket : HostX11Socket)
    (serverPeerStartTime : ℕ) : Bool :=
  key.display = socket.display && key.alternateEndpoint = socket.alternate &&
    key.source = socket.source && key.canonicalSource = socket.canonicalPath &&
    key.socketRevision = socket.revision && key.serverPeer = socket.peerIdentity &&
    key.serverPeerStartTime = serverPeerStartTime

inductive MachineClaimPhase
  | active
  | cleanupPending (sinceUnixMillis : ℕ)
  | ended
  | needsReview (reason : String)
  | unknown (reason : String)
  deriving DecidableEq

def MachineClaimPhase.requiresReconcile (phase : MachineClaimPhase) : Bool := phase ≠ .ended

structure ManagedX11MachineClaim where
  claimId : String
  grantRecordId : String
  phase : MachineClaimPhase
  bootId : String
  machine : MachineName
  guestUser : ValidatedGuestUserName
  guestUid : ℕ
  guestGid : ℕ
  hostGid : ℕ
  machineLeaderPid : ℕ
  machineLeaderStartTime : Option ℕ
  machinePidNamespace : Option ObservedNamespaceIdentity
  machineUserNamespace : Option ObservedNamespaceIdentity
  key : ManagedX11GrantKey
  deriving DecidableEq

inductive GrantRecordPhase
  | pending
  | confirmedAdded
  | revoked
  | outcomeUnknown (reason : String)
  deriving DecidableEq

structure ManagedX11GrantRecord where
  recordId : String
  phase : GrantRecordPhase
  callerUid : ℕ
  bootId : String
  target : ShellTarget
  identity : MappedGuestIdentity
  key : ManagedX11GrantKey
  deriving DecidableEq

def validRecordId (value : String) : Bool :=
  value.utf8ByteSize = 32 && value.toList.all fun c => c.isDigit || ('a' ≤ c && c ≤ 'f')

def machineInstanceFromRecord (leaderPid : ℕ) (startTime : Option ℕ)
    (pidNamespace userNamespace : Option ObservedNamespaceIdentity) :
    Except String ObservedMachineInstance :=
  if leaderPid = 0 ∨ leaderPid > maxPid then .error "recorded machine leader PID is invalid"
  else match pidNamespace, userNamespace with
    | some pid, some user =>
      if pid.inode ≠ 0 ∧ user.inode ≠ 0 then .ok ⟨leaderPid, startTime, some (pid, user)⟩
      else .error "recorded machine namespaces are incomplete or invalid"
    | none, none =>
      if startTime.isSome then .ok ⟨leaderPid, startTime, none⟩
      else .error "recorded machine instance has no generation evidence"
    | _, _ => .error "recorded machine namespaces are incomplete or invalid"

def isControl (c : Char) : Bool := c.toNat < 32 || (127 ≤ c.toNat && c.toNat < 160)

namespace ManagedX11MachineClaim

def machineInstance (claim : ManagedX11MachineClaim) : Except String ObservedMachineInstance :=
  machineInstanceFromRecord claim.machineLeaderPid claim.machineLeaderStartTime
    claim.machinePidNamespace claim.machineUserNamespace

def compareMachineInstance (claim : ManagedX11MachineClaim) (observed : ObservedMachineInstance) :
    Option Bool :=
  match claim.machineInstance with
  | .ok recorded => recorded.compare observed
  | .error _ => none

def validatePhase : MachineClaimPhase → Except String Unit
  | .needsReview reason | .unknown reason =>
    if reason.isEmpty ∨ reason.utf8ByteSize > maxGrantReasonBytes ∨ reason.toList.any isControl then
      .error "machine claim state reason is invalid"
    else .ok ()
  | .cleanupPending since =>
    if since = 0 then .error "machine claim cleanup-pending timestamp is invalid" else .ok ()
  | .active | .ended => .ok ()

def validate (claim : ManagedX11MachineClaim) : Except String Unit := do
  if !validRecordId claim.claimId || !validRecordId claim.grantRecordId then
    throw "machine claim IDs are invalid or its filename does not match"
  let _ ← claim.machineInstance
  claim.key.validate
  validatePhase claim.phase

/-- A further machine joins a grant that an earlier authorization confirmed. -/
def activeForGrant (claimId : String) (target : ShellTarget) (identity : MappedGuestIdentity)
    (record : ManagedX11GrantRecord) : ManagedX11MachineClaim where
  claimId
  grantRecordId := record.recordId
  phase := .active
  bootId := record.bootId
  machine := target.machine
  guestUser := target.user
  guestUid := identity.guestUid
  guestGid := identity.guestGid
  hostGid := identity.hostGid
  machineLeaderPid := identity.machineInstance.leaderPid
  machineLeaderStartTime := identity.machineInstance.leaderStartTime
  machinePidNamespace := identity.machineInstance.namespaces.map (·.1)
  machineUserNamespace := identity.machineInstance.namespaces.map (·.2)
  key := record.key

def activeFromRecord (record : ManagedX11GrantRecord) : ManagedX11MachineClaim :=
  activeForGrant record.recordId record.target record.identity record

end ManagedX11MachineClaim

inductive SystemMachineRegistration
  | present (leaderPid : ℕ) (observed : Option ObservedMachineInstance)
  | absent
  | unknown (reason : String)
  deriving DecidableEq

inductive MachineClaimObservation
  | active
  | endedCandidate
  | cleanupPending (sinceUnixMillis : ℕ)
  | cleanupReady
  | needsReview (reason : String)
  | unavailable (reason : String)
  | blocked (reason : String)
  deriving DecidableEq

def legacyObservationFailure (reason : String) : Bool :=
  reason = "host boot identity is unavailable" ||
    reason = "machine namespace identity is unavailable; cleanup is blocked" ||
    ["system machined runtime path is not a directory: ",
      "cannot inspect system machined runtime directory ",
      "system machine registration changed during leader inspection ",
      "cannot inspect system machine leader ",
      "cannot inspect system machine instance ",
      "system machine registration is not a regular file: ",
      "cannot inspect system machine registration "].any fun text =>
        text.toList.isPrefixOf reason.toList

def reappearedReason (claim : ManagedX11MachineClaim) (leaderPid : ℕ)
    (observed : Option ObservedMachineInstance) : String :=
  if observed.any fun other => claim.compareMachineInstance other = some true then
    "machine registration reappeared before cleanup; explicit preparation is required"
  else if leaderPid = claim.machineLeaderPid ∧ observed = none then
    "machine registration reappeared but namespace identity is unavailable; explicit preparation is required"
  else
    "a different machine instance reappeared before cleanup; explicit preparation is required"

def observeActive (claim : ManagedX11MachineClaim) :
    SystemMachineRegistration → MachineClaimObservation
  | .present _ (some other) =>
    if claim.compareMachineInstance other ≠ some false then .active
    else .needsReview "machine registration belongs to a different machine instance"
  | .present leaderPid none =>
    if leaderPid = claim.machineLeaderPid then .active
    else .needsReview "machine leader changed but namespace identity is unavailable"
  | .absent => .endedCandidate
  | .unknown reason => .unavailable reason

def observePending (claim : ManagedX11MachineClaim) (since now : ℕ) :
    SystemMachineRegistration → MachineClaimObservation
  | .present leaderPid observed => .needsReview (reappearedReason claim leaderPid observed)
  | .absent =>
    if now - since ≥ claimReconcileGraceMillis then .cleanupReady else .cleanupPending since
  | .unknown reason => .unavailable reason

/-- The checks that come before the registration counts. -/
def checkBoot (claim : ManagedX11MachineClaim) (currentBootId : Option String)
    (observation : MachineClaimObservation) : MachineClaimObservation :=
  match currentBootId with
  | none => .unavailable "host boot identity is unavailable"
  | some boot =>
    if claim.bootId ≠ boot then .needsReview "claim belongs to an earlier host boot" else observation

def observeMachineClaim (claim : ManagedX11MachineClaim) (currentBootId : Option String)
    (registration : SystemMachineRegistration) (nowUnixMillis : ℕ) : Option MachineClaimObservation :=
  match claim.phase with
  | .ended => none
  | .needsReview reason => some (.needsReview reason)
  | .unknown reason =>
    -- observation errors stored by older versions are observed from the beginning
    if legacyObservationFailure reason then
      some (checkBoot claim currentBootId (observeActive claim registration))
    else some (.blocked reason)
  | .active => some (checkBoot claim currentBootId (observeActive claim registration))
  | .cleanupPending since =>
    some (checkBoot claim currentBootId (observePending claim since nowUnixMillis registration))

inductive ReconcileClaimStatus
  | active
  | pending
  | ready
  | unavailable (reason : String)
  | blocked (reason : String)
  deriving DecidableEq

namespace MachineClaimObservation

def proposedPhase (nowUnixMillis : ℕ) : MachineClaimObservation → Option MachineClaimPhase
  | .active | .unavailable _ => some .active
  | .endedCandidate => some (.cleanupPending nowUnixMillis)
  | .needsReview reason => some (.needsReview reason)
  | .cleanupPending _ | .cleanupReady | .blocked _ => none

def nextPhase (observation : MachineClaimObservation) (claim : ManagedX11MachineClaim)
    (nowUnixMillis : ℕ) : Option MachineClaimPhase :=
  (observation.proposedPhase nowUnixMillis).filter (· ≠ claim.phase)

def intoReconcileStatus : MachineClaimObservation → ReconcileClaimStatus
  | .active => .active
  | .endedCandidate | .cleanupPending _ => .pending
  | .cleanupReady => .ready
  | .unavailable reason => .unavailable reason
  | .needsReview reason | .blocked reason => .blocked reason

end MachineClaimObservation

structure ReconcileClaim where
  claimId : String
  recordId : String
  key : ManagedX11GrantKey
  status : ReconcileClaimStatus
  deriving DecidableEq

structure ReconcileGroup where
  key : ManagedX11GrantKey
  claims : List ReconcileClaim

namespace ReconcileGroup

def new (claim : ReconcileClaim) : ReconcileGroup := ⟨claim.key, [claim]⟩

def add (group : ReconcileGroup) (claim : ReconcileClaim) : ReconcileGroup :=
  { group with claims := group.claims ++ [claim] }

def blocked (group : ReconcileGroup) : Bool :=
  group.claims.any fun claim =>
    match claim.status with
    | .active | .unavailable _ | .blocked _ => true
    | _ => false

def pending (group : ReconcileGroup) : Bool := group.claims.any (·.status = .pending)

def ready (group : ReconcileGroup) : Bool :=
  !group.claims.isEmpty && group.claims.all (·.status = .ready)

/-- Add a claim to the first group of its key, or open a new group. -/
def insert (claim : ReconcileClaim) : List ReconcileGroup → List ReconcileGroup
  | [] => [new claim]
  | group :: groups =>
    if group.key = claim.key then group.add claim :: groups else group :: insert claim groups

end ReconcileGroup

end Lasper.X11
