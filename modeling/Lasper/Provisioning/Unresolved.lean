import Lasper.Jobs.Status
import Lasper.Operations.Reservations
import Lasper.Operations.Resources
import Lasper.Provisioning.Manifests

/-! The reservations that outlive their deployments. A deployment with an unknown
outcome leaves its reservation in a map until a call releases it. A scan of the crash
manifests holds a reservation for each of them in a second map. Calls and scans
interleave where they wait for a port or take a lock, and each reservation that
is made or dropped is a step of its own. -/

namespace Lasper.Provisioning

open Lib Operations
open Jobs (DeploymentError DeploymentClaimStatus)

def ManifestDocument.recoveryClaim (manifest : ManifestDocument) : ResourceClaim :=
  ⟨.forMachine manifest.target, .exclusive⟩

namespace Unresolved

abbrev DeploymentId := String

structure RetainedDeploymentClaim where
  reservation : Grant
  releaseInProgress : Bool := false
  authorityReleased : Bool := false

structure RecoveredDeploymentClaim where
  claim : ResourceClaim
  reservation : Grant

abbrev UnresolvedClaims := Table DeploymentId RetainedDeploymentClaim

abbrev RecoveredClaims := Table DeploymentId RecoveredDeploymentClaim

def rejected (message : String) : DeploymentError := ⟨.rejected, message⟩

def failed (message : String) : DeploymentError := ⟨.failed, message⟩

def reconciliationRequired (message : String) : DeploymentError := ⟨.reconciliationRequired, message⟩

section Release

/-- The checks of `release_unresolved`, which say whether the authority has to release too. -/
def beginRelease (claims : UnresolvedClaims) (id : DeploymentId) (confirmed : Bool) :
    Except DeploymentError Bool × UnresolvedClaims :=
  if !confirmed then
    (.error (rejected "releasing an unresolved deployment requires explicit confirmation"), claims)
  else match claims.lookup id with
    | none => (.error (rejected s!"deployment {id} does not retain an unresolved coordination claim"), claims)
    | some claim =>
      if claim.releaseInProgress then
        (.error (rejected s!"deployment {id} claim release is already in progress"), claims)
      else (.ok !claim.authorityReleased, claims.insert id { claim with releaseInProgress := true })

/-- `get_mut`, with a change of the claim it finds. -/
def update (change : RetainedDeploymentClaim → RetainedDeploymentClaim) (claims : UnresolvedClaims)
    (id : DeploymentId) : UnresolvedClaims :=
  match claims.lookup id with
  | some claim => claims.insert id (change claim)
  | none => claims

def endRelease : UnresolvedClaims → DeploymentId → UnresolvedClaims :=
  update fun claim => { claim with releaseInProgress := false }

def markReleased : UnresolvedClaims → DeploymentId → UnresolvedClaims :=
  update fun claim => { claim with authorityReleased := true }

/-- What a call waits for. -/
inductive ReleasePhase
  | reading (releaseAuthority : Bool)
  | requesting (durableRevision : Option ℕ)
  | removing (revision : ℕ)
  | taking
  | dropping (claim : RetainedDeploymentClaim)
  | returned (result : Except DeploymentError Unit)

/-- Has the call set the flag of a claim that is still in the map? -/
def ReleasePhase.running : ReleasePhase → Bool
  | .reading _ | .requesting _ | .removing _ | .taking => true
  | .dropping _ | .returned _ => false

def ReleasePhase.active : ReleasePhase → Bool
  | .returned _ => false
  | _ => true

/-- Does the call ask the authority for a release, now or later? -/
def ReleasePhase.asks : ReleasePhase → Bool
  | .reading releaseAuthority => releaseAuthority
  | .requesting _ => true
  | _ => false

structure ReleaseCall where
  id : DeploymentId
  phase : ReleasePhase

def ReleaseCall.grants (call : ReleaseCall) : List Grant :=
  match call.phase with
  | .dropping claim => [claim.reservation]
  | _ => []

def durableRevision (manifests : List ManifestDocument) (id : DeploymentId) : Option ℕ :=
  (manifests.find? (·.deploymentId = id)).map (·.revision)

/-- What comes after the authority's release. -/
def discard : Option ℕ → ReleasePhase
  | some revision => .removing revision
  | none => .taking

def beganPhase : Except DeploymentError Bool → ReleasePhase
  | .ok releaseAuthority => .reading releaseAuthority
  | .error error => .returned (.error error)

end Release

section Scan

abbrev Desired := Table DeploymentId ResourceClaim

def insertDesired (desired : Desired) (manifest : ManifestDocument) : Except DeploymentError Desired :=
  if manifest.deploymentId ∈ desired then
    .error (reconciliationRequired s!"unfinished deployment {manifest.deploymentId} appears more than once")
  else .ok (desired.insert manifest.deploymentId manifest.recoveryClaim)

def changedResource (desired : Desired) (entry : Σ _ : DeploymentId, RecoveredDeploymentClaim) : Bool :=
  (desired.lookup entry.1).any fun claim => claim ≠ entry.2.claim

abbrev Visit := Iteration DeploymentId RecoveredDeploymentClaim

def keepDesired (desired : Desired) (id : DeploymentId) (recovered : RecoveredDeploymentClaim) :
    Option RecoveredDeploymentClaim :=
  if id ∈ desired then some recovered else none

structure Scanning where
  manifests : List ManifestDocument
  pending : List (Σ _ : DeploymentId, ResourceClaim)
  additions : List (Σ _ : DeploymentId, RecoveredDeploymentClaim) := []

/-- A scan that holds the lock, with the reservations it still has to drop. -/
inductive ScanPhase
  | idle
  | reading
  | working (doomed : List Grant) (scanning : Scanning)
  | failing (doomed : List Grant) (error : DeploymentError)

def ScanPhase.grants : ScanPhase → List Grant
  | .idle | .reading => []
  | .working doomed scanning => doomed ++ scanning.additions.map (·.2.reservation)
  | .failing doomed _ => doomed

/-- From the manifests to what stays and what has to be reserved. -/
def reconcile (visit : Visit) (iter : Iteration DeploymentId ResourceClaim) (recovered : RecoveredClaims)
    (manifests : List ManifestDocument) : Except DeploymentError (RecoveredClaims × ScanPhase) := do
  let desired ← manifests.foldlM insertDesired ∅
  match (visit.order recovered.entries).find? (changedResource desired) with
  | some entry => throw (reconciliationRequired s!"unfinished deployment {entry.1} changed its claimed resource")
  | none =>
    let kept := recovered.retainMut (keepDesired desired)
    let doomed := recovered.entries.filter fun entry => entry.1 ∉ desired
    let pending := (iter.order desired.entries).filter fun entry => entry.1 ∉ kept
    return (kept, .working (doomed.map (·.2.reservation)) { manifests, pending })

end Scan

structure System where
  operations : Operations.System := {}
  unresolved : UnresolvedClaims := ∅
  recovered : RecoveredClaims := ∅
  statuses : DeploymentId → DeploymentClaimStatus := fun _ => .held
  calls : Table ℕ ReleaseCall := ∅
  scan : ScanPhase := .idle
  /-- The reservations of the rest of the program. -/
  foreign : List Grant := []
  /-- Every reservation that a deployment has left unresolved. -/
  retained : Table DeploymentId Grant := ∅
  /-- The claims that the authority has released. -/
  authorized : List DeploymentId := []
  /-- What the last scan found in the map, and what it read. -/
  before : RecoveredClaims := ∅
  view : Option (List ManifestDocument) := none

inductive Action
  | reserve (iter : Iteration ResourceKey ResourceAccess) (claims : List ResourceClaim)
  | drop (grant : Grant)
  | retain (id : DeploymentId) (grant : Grant)
  | release (n : ℕ) (id : DeploymentId) (confirmed : Bool)
  | read (n : ℕ) (answer : Except DeploymentStateError (List ManifestDocument))
  | authority (n : ℕ) (answer : Except DeploymentError Unit)
  | remove (n : ℕ) (answer : Except DeploymentStateError Unit)
  | take (n : ℕ)
  | finish (n : ℕ)
  | scan
  | scanRead (visit : Visit) (iter : Iteration DeploymentId ResourceClaim)
      (answer : Except DeploymentStateError (List ManifestDocument))
  | scanDrop
  | scanReserve (iter : Iteration ResourceKey ResourceAccess)
  | scanEnd (result : Except DeploymentError (List ManifestDocument))

variable (debugText : ResourceKey → String)

def reserveGrant (iter : Iteration ResourceKey ResourceAccess) (claims : List ResourceClaim)
    (operations : Operations.System) : Except ResourceConflict Grant × Operations.System :=
  match reserveInner debugText iter claims none operations.registry with
  | (.ok reservation, registry) =>
    let grant : Grant := ⟨reservation, canonicalize debugText iter claims⟩
    (.ok grant, ⟨registry, operations.live ++ [grant]⟩)
  | (.error conflict, registry) => (.error conflict, ⟨registry, operations.live⟩)

def dropGrant (grant : Grant) (operations : Operations.System) : Operations.System :=
  ⟨Operations.release grant.reservation.id grant.reservation.keys operations.registry, operations.live.erase grant⟩

/-- What a scan goes on with after it asked for one reservation. -/
def reserved (scanning : Scanning) (id : DeploymentId) (claim : ResourceClaim) :
    Except ResourceConflict Grant → ScanPhase
  | .ok grant => .working [] { scanning with additions := scanning.additions ++ [⟨id, claim, grant⟩] }
  | .error conflict => .failing (scanning.additions.map (·.2.reservation)) (reconciliationRequired
      s!"unfinished deployment recovery conflicts with an active resource: {debugText conflict.key}")

def System.setCall (s : System) (n : ℕ) (id : DeploymentId) (phase : ReleasePhase) : System :=
  { s with calls := s.calls.insert n ⟨id, phase⟩ }

inductive Step : System → Action → System → Prop
  | reserve {s : System} {iter : Iteration ResourceKey ResourceAccess} {claims : List ResourceClaim} {grant : Grant}
      {operations : Operations.System}
      (granted : reserveGrant debugText iter claims s.operations = (.ok grant, operations)) :
      Step s (.reserve iter claims) { s with operations, foreign := s.foreign ++ [grant] }
  | drop {s : System} {grant : Grant} (held : grant ∈ s.foreign) :
      Step s (.drop grant)
        { s with operations := dropGrant grant s.operations, foreign := s.foreign.erase grant }
  | retain {s : System} {id : DeploymentId} {grant : Grant} (held : grant ∈ s.foreign) (fresh : id ∉ s.retained) :
      Step s (.retain id grant)
        { s with
          foreign := s.foreign.erase grant
          unresolved := s.unresolved.insert id { reservation := grant }
          retained := s.retained.insert id grant
          statuses := fun other => if other = id then .reconciliationRequired else s.statuses other }
  | release {s : System} {n : ℕ} {id : DeploymentId} {confirmed : Bool} (fresh : n ∉ s.calls) :
      Step s (.release n id confirmed)
        ({ s with unresolved := (beginRelease s.unresolved id confirmed).2 }.setCall n id
          (beganPhase (beginRelease s.unresolved id confirmed).1))
  | readFailed {s : System} {n : ℕ} {id : DeploymentId} {releaseAuthority : Bool} {error : DeploymentStateError}
      (call : s.calls.lookup n = some ⟨id, .reading releaseAuthority⟩) :
      Step s (.read n (.error error))
        ({ s with unresolved := endRelease s.unresolved id }.setCall n id
          (.returned (.error (reconciliationRequired error.text))))
  | read {s : System} {n : ℕ} {id : DeploymentId} {releaseAuthority : Bool} {manifests : List ManifestDocument}
      (call : s.calls.lookup n = some ⟨id, .reading releaseAuthority⟩) :
      Step s (.read n (.ok manifests))
        (s.setCall n id (if releaseAuthority then .requesting (durableRevision manifests id)
          else discard (durableRevision manifests id)))
  | authorityFailed {s : System} {n : ℕ} {id : DeploymentId} {revision : Option ℕ} {error : DeploymentError}
      (call : s.calls.lookup n = some ⟨id, .requesting revision⟩) :
      Step s (.authority n (.error error))
        ({ s with unresolved := endRelease s.unresolved id }.setCall n id (.returned (.error error)))
  | authority {s : System} {n : ℕ} {id : DeploymentId} {revision : Option ℕ}
      (call : s.calls.lookup n = some ⟨id, .requesting revision⟩) :
      Step s (.authority n (.ok ()))
        ({ s with unresolved := markReleased s.unresolved id, authorized := id :: s.authorized }.setCall n id
          (discard revision))
  | removeFailed {s : System} {n : ℕ} {id : DeploymentId} {revision : ℕ} {error : DeploymentStateError}
      (call : s.calls.lookup n = some ⟨id, .removing revision⟩) :
      Step s (.remove n (.error error))
        ({ s with unresolved := endRelease s.unresolved id }.setCall n id
          (.returned (.error (reconciliationRequired (s!"deployment {id} claim was released but its durable " ++
            s!"manifest could not be discarded: {error.text}")))))
  | remove {s : System} {n : ℕ} {id : DeploymentId} {revision : ℕ}
      (call : s.calls.lookup n = some ⟨id, .removing revision⟩) :
      Step s (.remove n (.ok ())) (s.setCall n id .taking)
  | takeFailed {s : System} {n : ℕ} {id : DeploymentId} (call : s.calls.lookup n = some ⟨id, .taking⟩)
      (missing : s.unresolved.lookup id = none) :
      Step s (.take n) (s.setCall n id (.returned (.error (reconciliationRequired
        s!"deployment {id} claim disappeared while its release was completing"))))
  | take {s : System} {n : ℕ} {id : DeploymentId} {claim : RetainedDeploymentClaim}
      (call : s.calls.lookup n = some ⟨id, .taking⟩) (found : s.unresolved.lookup id = some claim) :
      Step s (.take n)
        ({ s with
          unresolved := s.unresolved.erase id
          statuses := fun other => if other = id then .releasedUnresolved else s.statuses other
        }.setCall n id (.dropping claim))
  | finish {s : System} {n : ℕ} {id : DeploymentId} {claim : RetainedDeploymentClaim}
      (call : s.calls.lookup n = some ⟨id, .dropping claim⟩) :
      Step s (.finish n)
        ({ s with operations := dropGrant claim.reservation s.operations }.setCall n id (.returned (.ok ())))
  | scan {s : System} (unlocked : s.scan = .idle) :
      Step s .scan { s with scan := .reading, before := s.recovered, view := none }
  | scanUnread {s : System} {visit : Visit} {iter : Iteration DeploymentId ResourceClaim}
      {error : DeploymentStateError} (reading : s.scan = .reading) :
      Step s (.scanRead visit iter (.error error)) { s with scan := .failing [] (failed error.text) }
  | scanRefused {s : System} {visit : Visit} {iter : Iteration DeploymentId ResourceClaim}
      {manifests : List ManifestDocument} {error : DeploymentError} (reading : s.scan = .reading)
      (refused : reconcile visit iter s.recovered manifests = .error error) :
      Step s (.scanRead visit iter (.ok manifests)) { s with scan := .failing [] error, view := some manifests }
  | scanRead {s : System} {visit : Visit} {iter : Iteration DeploymentId ResourceClaim}
      {manifests : List ManifestDocument} {recovered : RecoveredClaims} {scan : ScanPhase}
      (reading : s.scan = .reading) (reconciled : reconcile visit iter s.recovered manifests = .ok (recovered, scan)) :
      Step s (.scanRead visit iter (.ok manifests)) { s with recovered, scan, view := some manifests }
  | dropWorking {s : System} {grant : Grant} {doomed : List Grant} {scanning : Scanning}
      (working : s.scan = .working (grant :: doomed) scanning) :
      Step s .scanDrop { s with operations := dropGrant grant s.operations, scan := .working doomed scanning }
  | dropFailing {s : System} {grant : Grant} {doomed : List Grant} {error : DeploymentError}
      (failing : s.scan = .failing (grant :: doomed) error) :
      Step s .scanDrop { s with operations := dropGrant grant s.operations, scan := .failing doomed error }
  | scanReserve {s : System} {iter : Iteration ResourceKey ResourceAccess} {scanning : Scanning} {id : DeploymentId}
      {claim : ResourceClaim} {pending : List (Σ _ : DeploymentId, ResourceClaim)}
      {result : Except ResourceConflict Grant} {operations : Operations.System}
      (working : s.scan = .working [] scanning) (next : scanning.pending = ⟨id, claim⟩ :: pending)
      (asked : reserveGrant debugText iter [claim] s.operations = (result, operations)) :
      Step s (.scanReserve iter)
        { s with operations, scan := reserved debugText { scanning with pending } id claim result }
  | scanEnd {s : System} {scanning : Scanning} (working : s.scan = .working [] scanning)
      (complete : scanning.pending = []) :
      Step s (.scanEnd (.ok scanning.manifests))
        { s with recovered := s.recovered.extend scanning.additions, scan := .idle }
  | scanFailed {s : System} {error : DeploymentError} (failing : s.scan = .failing [] error) :
      Step s (.scanEnd (.error error)) { s with scan := .idle }

end Unresolved

end Lasper.Provisioning
