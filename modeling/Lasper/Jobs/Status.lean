import Mathlib.Data.Nat.Digits.Defs
import Lasper.Lib.Checked
import Lasper.Lib.Table

/-! Identities, statuses and errors shared by the daemon's deployment registry,
its event stream and the client that submits deployments. -/

namespace Lasper.Jobs

/-- The hyphenated lower-case text of a UUID. -/
def uuidText (uuid : BitVec 128) : String :=
  let digits := (List.range 32).map fun i => Nat.digitChar (uuid.toNat / 16 ^ (31 - i) % 16)
  let group := fun start len => String.ofList ((digits.drop start).take len)
  "-".intercalate [group 0 8, group 8 4, group 12 4, group 16 4, group 20 12]

structure DeploymentId where
  uuid : BitVec 128
  deriving DecidableEq

instance : ToString DeploymentId := ⟨fun id => uuidText id.uuid⟩

structure DeploymentRequestId where
  uuid : BitVec 128
  deriving DecidableEq

instance : ToString DeploymentRequestId := ⟨fun id => uuidText id.uuid⟩

structure PlanFingerprint where
  text : String
  deriving DecidableEq

inductive DeploymentStatus where
  | running
  | rollingBack
  | succeeded
  | failed (message : String)
  | cancelled (message : String)
  | reconciliationRequired (message : String)
  deriving DecidableEq

def DeploymentStatus.isFinished : DeploymentStatus → Bool
  | .succeeded | .failed _ | .cancelled _ | .reconciliationRequired _ => true
  | .running | .rollingBack => false

/-- The claim state a job's executor reports. -/
inductive DeploymentClaimStatus where
  | held | released | reconciliationRequired | reconciled | releasedUnresolved
  deriving DecidableEq

/-- The claim state the registry keeps and sends. -/
inductive DeploymentClaimState where
  | held | released | reconciliationRequired | reconciled | releasedUnresolved
  deriving DecidableEq

inductive DeploymentSubmissionStatus where
  | pending
  | accepted (deploymentId : DeploymentId)
  | rejected (message : String)
  deriving DecidableEq

structure DeploymentJobSnapshot where
  deploymentId : DeploymentId
  revision : ℕ
  status : DeploymentStatus
  cancellationRequested : Bool
  claim : DeploymentClaimState
  deriving DecidableEq

structure DeploymentSubmissionSnapshot where
  requestId : DeploymentRequestId
  status : DeploymentSubmissionStatus
  acknowledged : Bool
  deriving DecidableEq

inductive ErrorKind where
  | alreadyExists | notFound | invalidInput | wouldBlock | other
  deriving DecidableEq

structure IoError where
  kind : ErrorKind
  message : String
  deriving DecidableEq

/-- How an operation can fail: an error it returns, or an `expect` that panics. -/
inductive Failure where
  | io (error : IoError)
  | panic (message : String)
  deriving DecidableEq

def Failure.of (kind : ErrorKind) (message : String) : Failure := .io ⟨kind, message⟩

def Failure.message : Failure → String
  | .io error => error.message
  | .panic message => message

/-- The claim states a terminal status may carry. -/
def terminalConsistent : DeploymentStatus → DeploymentClaimState → Bool
  | .reconciliationRequired _, claim => claim = .reconciliationRequired ∨ claim = .reconciled
  | .succeeded, claim | .failed _, claim | .cancelled _, claim => claim = .released
  | .running, _ | .rollingBack, _ => false

/-- The registry's claim for a terminal status, when the executor's pair is consistent. -/
def terminalClaimState (status : DeploymentStatus) (claimStatus : DeploymentClaimStatus) :
    Except Failure DeploymentClaimState :=
  let checked := fun claim : DeploymentClaimState =>
    if terminalConsistent status claim then Except.ok claim
    else .error (.of .invalidInput
      "executor returned an inconsistent terminal status and claim state")
  match claimStatus with
  | .released => checked .released
  | .reconciliationRequired => checked .reconciliationRequired
  | .reconciled => checked .reconciled
  | .held | .releasedUnresolved =>
    .error (.of .invalidInput "executor returned an invalid terminal claim state")

/-- An accepted terminal pair is finished and no longer holds its claim. -/
theorem terminalClaimState_ok {status : DeploymentStatus} {claimStatus : DeploymentClaimStatus}
    {claim : DeploymentClaimState} (h : terminalClaimState status claimStatus = .ok claim) :
    status.isFinished = true ∧ claim ≠ .held ∧ claim ≠ .releasedUnresolved := by
  cases status <;> cases claimStatus <;> cases h <;> simp [DeploymentStatus.isFinished]

/-! ### What an executor returns -/

inductive DeploymentErrorKind where
  | rejected | failed | cancelled | reconciliationRequired | reconciledUnknown
  deriving DecidableEq

structure DeploymentError where
  kind : DeploymentErrorKind
  message : String
  deriving DecidableEq

def DeploymentError.isCancelled (error : DeploymentError) : Bool := error.kind = .cancelled

def DeploymentError.requiresReconciliation (error : DeploymentError) : Bool :=
  error.kind = .reconciliationRequired ∨ error.kind = .reconciledUnknown

def DeploymentError.retainsResourceClaim (error : DeploymentError) : Bool :=
  error.kind = .reconciliationRequired

structure DeploymentTerminal where
  status : DeploymentStatus
  claimStatus : DeploymentClaimStatus
  deriving DecidableEq

/-- The terminal state of an executor that returned `result`, or panicked (`none`). -/
def runDeploymentExecutor : Option (Except DeploymentError Unit) → DeploymentTerminal
  | some (.ok ()) => ⟨.succeeded, .released⟩
  | some (.error error) =>
    if error.isCancelled then ⟨.cancelled error.message, .released⟩
    else if error.requiresReconciliation then
      ⟨.reconciliationRequired error.message,
        if error.retainsResourceClaim then .reconciliationRequired else .reconciled⟩
    else ⟨.failed error.message, .released⟩
  | none =>
    ⟨.reconciliationRequired
      "Deployment pipeline panicked; inspect durable deployment state before retrying",
      .reconciliationRequired⟩

/-- The registry accepts every terminal state an executor can produce. -/
theorem runDeploymentExecutor_terminal (result : Option (Except DeploymentError Unit)) :
    ∃ claim, terminalClaimState (runDeploymentExecutor result).status
      (runDeploymentExecutor result).claimStatus = .ok claim := by
  rcases result with _ | ⟨kind, message⟩ | _
  · exact ⟨.reconciliationRequired, rfl⟩
  · cases kind <;> exact ⟨_, rfl⟩
  · exact ⟨.released, rfl⟩

end Lasper.Jobs
