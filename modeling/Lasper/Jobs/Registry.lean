import Lasper.Jobs.Status

/-! The daemon's deployment registry: a table of submissions and a table of
jobs under one lock, so every operation is one atomic step. Each operation
returns its result and the tables it leaves; a failed operation may already
have advanced the sequence counter. Iteration over the submission table is in
the order `iter`, which the hash map does not specify. -/

namespace Lasper.Jobs

open Lib

def maxDeploymentRecords : ℕ := 64

/-- The reservation a job holds on its resources while it may still need them. -/
structure ResourceReservation where
  id : ℕ
  keys : List String
  deriving DecidableEq

structure DeploymentRecord where
  requestId : DeploymentRequestId
  revision : ℕ
  status : DeploymentStatus
  claim : DeploymentClaimState
  cancellationRequested : Bool
  reservation : Option ResourceReservation
  acknowledged : Bool
  streamLeases : ℕ
  sequence : ℕ
  deriving DecidableEq

structure DeploymentSubmissionIdentity where
  deploymentId : DeploymentId
  plan : PlanFingerprint
  deriving DecidableEq

structure DeploymentSubmissionRecord where
  identity : DeploymentSubmissionIdentity
  status : DeploymentSubmissionStatus
  acknowledged : Bool
  sequence : ℕ
  deriving DecidableEq

structure DeploymentRegistry where
  jobs : Table DeploymentId DeploymentRecord := ∅
  submissions : Table DeploymentRequestId DeploymentSubmissionRecord := ∅
  nextSequence : ℕ := 0

/-- The order in which the submission table is visited. -/
abbrev SubmissionOrder := Iteration DeploymentRequestId DeploymentSubmissionRecord

namespace DeploymentRegistry

def bump (s : DeploymentRegistry) : DeploymentRegistry :=
  { s with nextSequence := saturatingAdd u64Max s.nextSequence 1 }

def putJob (s : DeploymentRegistry) (id : DeploymentId) (record : DeploymentRecord) :
    DeploymentRegistry :=
  { s with jobs := s.jobs.insert id record }

def putSubmission (s : DeploymentRegistry) (id : DeploymentRequestId)
    (record : DeploymentSubmissionRecord) : DeploymentRegistry :=
  { s with submissions := s.submissions.insert id record }

end DeploymentRegistry

open DeploymentRegistry

def snapshotOf (id : DeploymentId) (record : DeploymentRecord) : DeploymentJobSnapshot :=
  ⟨id, record.revision, record.status, record.cancellationRequested, record.claim⟩

def jobNotRegistered (deploymentId : DeploymentId) : Failure :=
  .of .notFound s!"deployment {deploymentId} is not registered"

def submissionNotRegistered (requestId : DeploymentRequestId) : Failure :=
  .of .notFound s!"deployment submission {requestId} is not registered"

/-! ### Eviction -/

/-- A job whose submission may be dropped with it. -/
def DeploymentRecord.evictable (job : DeploymentRecord) : Bool :=
  job.acknowledged && job.streamLeases = 0 &&
    (job.claim = .released || job.claim = .reconciled || job.claim = .releasedUnresolved)

def evictable (s : DeploymentRegistry) (submission : DeploymentSubmissionRecord) : Bool :=
  submission.acknowledged && match submission.status with
    | .rejected _ => true
    | .accepted deploymentId => (s.jobs.lookup deploymentId).any DeploymentRecord.evictable
    | .pending => false

/-- The oldest evictable submission, in the table's own visiting order. -/
def evictionCandidate (iter : SubmissionOrder) (s : DeploymentRegistry) :
    Option (Σ _ : DeploymentRequestId, DeploymentSubmissionRecord) :=
  minByKey (fun entry => entry.2.sequence)
    ((iter.order s.submissions.entries).filter fun entry => evictable s entry.2)

/-- Drop one submission, and the job of an accepted one; `none` when nothing may go. -/
def evictOne (iter : SubmissionOrder) (s : DeploymentRegistry) : Option DeploymentRegistry :=
  (evictionCandidate iter s).map fun entry =>
    let dropped := { s with submissions := s.submissions.erase entry.1 }
    match s.submissions.lookup entry.1 with
    | some ⟨_, .accepted deploymentId, _, _⟩ => { dropped with jobs := s.jobs.erase deploymentId }
    | _ => dropped

/-- `while submissions.len() >= MAX { if !evict_one() { return false } }`, with one unit of
fuel per submission; every eviction drops one. -/
def makeRoom (iter : SubmissionOrder) : ℕ → DeploymentRegistry → Bool × DeploymentRegistry
  | 0, s => (s.submissions.len < maxDeploymentRecords, s)
  | fuel + 1, s =>
    if maxDeploymentRecords ≤ s.submissions.len then
      match evictOne iter s with
      | none => (false, s)
      | some s' => makeRoom iter fuel s'
    else (true, s)

/-! ### Submissions -/

def reserveSubmission (iter : SubmissionOrder) (requestId : DeploymentRequestId)
    (deploymentId : DeploymentId) (plan : PlanFingerprint) (s : DeploymentRegistry) :
    Except Failure Unit × DeploymentRegistry :=
  let identity : DeploymentSubmissionIdentity := ⟨deploymentId, plan⟩
  match s.submissions.lookup requestId with
  | some existing =>
    (.error (.of .alreadyExists
      (if existing.identity = identity then
        s!"deployment submission {requestId} already exists; resolve it instead of resending secrets"
      else s!"deployment submission {requestId} has a different identity")), s)
  | none =>
    match makeRoom iter s.submissions.len s with
    | (false, s') => (.error (.of .other "daemon deployment submission registry is at capacity"), s')
    | (true, s') =>
      (.ok (), s'.bump.putSubmission requestId ⟨identity, .pending, false, s'.bump.nextSequence⟩)

def rejectSubmission (requestId : DeploymentRequestId) (message : String) (s : DeploymentRegistry) :
    DeploymentRegistry :=
  match s.submissions.lookup requestId with
  | some record =>
    s.bump.putSubmission requestId
      { record with status := .rejected message, sequence := s.bump.nextSequence }
  | none => s.bump

def resolveSubmission (requestId : DeploymentRequestId) (s : DeploymentRegistry) :
    Except Failure DeploymentSubmissionSnapshot :=
  match s.submissions.lookup requestId with
  | none => .error (submissionNotRegistered requestId)
  | some record => .ok ⟨requestId, record.status, record.acknowledged⟩

def acknowledgeSubmission (requestId : DeploymentRequestId) (s : DeploymentRegistry) :
    Except Failure Unit × DeploymentRegistry :=
  match s.submissions.lookup requestId with
  | none => (.error (submissionNotRegistered requestId), s.bump)
  | some record =>
    if record.status = .pending then
      (.error (.of .wouldBlock s!"deployment submission {requestId} is still pending"), s.bump)
    else
      (.ok (), s.bump.putSubmission requestId
        { record with acknowledged := true, sequence := s.bump.nextSequence })

/-! ### Jobs -/

def capacityError : Failure := .of .other "daemon deployment registry is at capacity"

/-- Accept a pending submission. `reserved` is what the operation registry answered for the
job's resource claims: a reservation, or the key that is busy. -/
def register (requestId : DeploymentRequestId) (deploymentId : DeploymentId)
    (reserved : Except String ResourceReservation) (s : DeploymentRegistry) :
    Except Failure Unit × DeploymentRegistry :=
  match s.submissions.lookup requestId with
  | none => (.error (submissionNotRegistered requestId), s)
  | some submission =>
    if submission.status ≠ .pending ∨ submission.identity.deploymentId ≠ deploymentId then
      (.error (.of .invalidInput
        s!"deployment submission {requestId} is not pending for {deploymentId}"), s)
    else if maxDeploymentRecords ≤ s.jobs.len then (.error capacityError, s)
    else if deploymentId ∈ s.jobs then
      (.error (.of .alreadyExists s!"deployment {deploymentId} already exists"), s)
    else match reserved with
      | .error key => (.error (.of .wouldBlock s!"deployment resource is busy: {key}"), s)
      | .ok reservation =>
        let sequence := s.bump.nextSequence
        let s := s.bump.putJob deploymentId
          ⟨requestId, 1, .running, .held, false, some reservation, false, 0, sequence⟩
        match s.submissions.lookup requestId with
        | none => (.error (.panic "pending submission remains registered"), s)
        | some submission =>
          (.ok (), s.putSubmission requestId
            { submission with status := .accepted deploymentId, sequence := sequence })

def observeStatus (deploymentId : DeploymentId) (status : DeploymentStatus)
    (s : DeploymentRegistry) : Except Failure DeploymentJobSnapshot × DeploymentRegistry :=
  if status.isFinished then
    (.error (.of .invalidInput "terminal deployment status must be finalized by its executor"), s)
  else match s.jobs.lookup deploymentId with
    | none => (.error (jobNotRegistered deploymentId), s.bump)
    | some record =>
      if record.status.isFinished then
        (.error (.of .invalidInput s!"deployment {deploymentId} is already terminal"), s.bump)
      else
        let record := if status ≠ record.status then
            { record with
              revision := saturatingAdd u64Max record.revision 1
              status := status
              sequence := s.bump.nextSequence }
          else record
        (.ok (snapshotOf deploymentId record), s.bump.putJob deploymentId record)

def finalize (deploymentId : DeploymentId) (status : DeploymentStatus)
    (claimStatus : DeploymentClaimStatus) (s : DeploymentRegistry) :
    Except Failure DeploymentJobSnapshot × DeploymentRegistry :=
  match terminalClaimState status claimStatus with
  | .error failure => (.error failure, s)
  | .ok claim =>
    match s.jobs.lookup deploymentId with
    | none => (.error (jobNotRegistered deploymentId), s.bump)
    | some record =>
      if record.status.isFinished then
        if record.status = status ∧ record.claim = claim then
          (.ok (snapshotOf deploymentId record), s.bump)
        else
          (.error (.of .invalidInput
            s!"deployment {deploymentId} already has a different terminal result"), s.bump)
      else
        let record := { record with
          revision := saturatingAdd u64Max record.revision 1
          status := status
          claim := claim
          sequence := s.bump.nextSequence
          reservation := if claim ≠ .reconciliationRequired then none else record.reservation }
        (.ok (snapshotOf deploymentId record), s.bump.putJob deploymentId record)

def snapshot (deploymentId : DeploymentId) (s : DeploymentRegistry) :
    Except Failure DeploymentJobSnapshot :=
  match s.jobs.lookup deploymentId with
  | none => .error (jobNotRegistered deploymentId)
  | some record => .ok (snapshotOf deploymentId record)

def cancel (deploymentId : DeploymentId) (s : DeploymentRegistry) :
    Except Failure DeploymentJobSnapshot × DeploymentRegistry :=
  match s.jobs.lookup deploymentId with
  | none => (.error (jobNotRegistered deploymentId), s.bump)
  | some record =>
    if record.status.isFinished then (.ok (snapshotOf deploymentId record), s.bump)
    else
      let record := if !record.cancellationRequested then
          { record with
            cancellationRequested := true
            revision := saturatingAdd u64Max record.revision 1
            sequence := s.bump.nextSequence }
        else record
      (.ok (snapshotOf deploymentId record), s.bump.putJob deploymentId record)

def acknowledge (deploymentId : DeploymentId) (s : DeploymentRegistry) :
    Except Failure Unit × DeploymentRegistry :=
  match s.jobs.lookup deploymentId with
  | none => (.error (jobNotRegistered deploymentId), s)
  | some record =>
    if !record.status.isFinished then
      (.error (.of .wouldBlock s!"deployment {deploymentId} is still running"), s)
    else if record.claim = .reconciliationRequired then
      (.error (.of .wouldBlock s!"deployment {deploymentId} still requires reconciliation"), s)
    else
      let requestId := record.requestId
      match s.submissions.lookup requestId with
      | none => (.error (.panic "job retains its submission record"), s)
      | some submission =>
        if !submission.acknowledged then
          (.error (.of .wouldBlock s!"deployment submission {requestId} is not acknowledged"), s)
        else match s.bump.jobs.lookup deploymentId with
          | none => (.error (.panic "validated deployment remains registered"), s.bump)
          | some record =>
            (.ok (), s.bump.putJob deploymentId
              { record with acknowledged := true, sequence := s.bump.nextSequence })

def releaseUnresolved (deploymentId : DeploymentId) (confirmed : Bool) (s : DeploymentRegistry) :
    Except Failure DeploymentJobSnapshot × DeploymentRegistry :=
  if !confirmed then
    (.error (.of .invalidInput
      "releasing an unresolved deployment requires explicit confirmation"), s)
  else match s.jobs.lookup deploymentId with
    | none => (.error (jobNotRegistered deploymentId), s.bump)
    | some record =>
      if !record.status.isFinished ∨ record.claim ≠ .reconciliationRequired then
        (.error (.of .wouldBlock
          s!"deployment {deploymentId} is not eligible for unresolved release"), s.bump)
      else
        let record := { record with
          reservation := none
          claim := .releasedUnresolved
          revision := saturatingAdd u64Max record.revision 1
          sequence := s.bump.nextSequence }
        (.ok (snapshotOf deploymentId record), s.bump.putJob deploymentId record)

def DeploymentStatus.requiresReconciliation : DeploymentStatus → Bool
  | .reconciliationRequired _ => true
  | _ => false

def reconcile (deploymentId : DeploymentId) (manifestPresent : Bool) (s : DeploymentRegistry) :
    Except Failure DeploymentJobSnapshot × DeploymentRegistry :=
  match s.jobs.lookup deploymentId with
  | none => (.error (jobNotRegistered deploymentId), s.bump)
  | some record =>
    if !record.status.requiresReconciliation then
      (.error (.of .invalidInput
        s!"deployment {deploymentId} does not require reconciliation"), s.bump)
    else match record.claim with
      | .reconciled => (.ok (snapshotOf deploymentId record), s.bump)
      | .reconciliationRequired =>
        let record := if !manifestPresent then
            { record with
              reservation := none
              claim := .reconciled
              revision := saturatingAdd u64Max record.revision 1
              sequence := s.bump.nextSequence }
          else record
        (.ok (snapshotOf deploymentId record), s.bump.putJob deploymentId record)
      | _ =>
        (.error (.of .invalidInput
          s!"deployment {deploymentId} cannot be reconciled in its current state"), s.bump)

/-! ### Stream leases -/

def registerStream (deploymentId : DeploymentId) (s : DeploymentRegistry) :
    Except Failure Unit × DeploymentRegistry :=
  match s.jobs.lookup deploymentId with
  | none => (.error (jobNotRegistered deploymentId), s)
  | some record =>
    (.ok (), s.putJob deploymentId
      { record with streamLeases := saturatingAdd u64Max record.streamLeases 1 })

def releaseStream (deploymentId : DeploymentId) (s : DeploymentRegistry) : DeploymentRegistry :=
  match s.jobs.lookup deploymentId with
  | none => s
  | some record => s.putJob deploymentId { record with streamLeases := record.streamLeases - 1 }

end Lasper.Jobs
