import Lasper.Jobs.Stream

/-! One submission, from the client that makes it to the job the daemon runs. The
submission message travels on one socket, and the queries about it on another,
so the daemon may answer a query before it has seen the message. Any message
may be delayed or lost: the client then sees an error, and what it asked for
may still happen. -/

namespace Lasper.Jobs

open Lib DeploymentRegistry

/-! ### The client's checks -/

def DeploymentError.failed (message : String) : DeploymentError := ⟨.failed, message⟩

def DeploymentError.reconciliationRequired (message : String) : DeploymentError :=
  ⟨.reconciliationRequired, message⟩

def claimMatches : DeploymentStatus → DeploymentClaimState → Bool
  | .running, claim | .rollingBack, claim => claim = .held
  | .reconciliationRequired _, claim =>
    claim = .reconciliationRequired ∨ claim = .reconciled ∨ claim = .releasedUnresolved
  | .succeeded, claim | .failed _, claim | .cancelled _, claim => claim = .released

def validateSnapshot (expected : DeploymentId) (snapshot : DeploymentJobSnapshot) :
    Except DeploymentError Unit :=
  if snapshot.deploymentId ≠ expected then
    .error (.reconciliationRequired
      s!"Daemon returned deployment {snapshot.deploymentId} while resolving {expected}")
  else if snapshot.revision = 0 then
    .error (.reconciliationRequired "Daemon returned a deployment snapshot with revision zero")
  else if claimMatches snapshot.status snapshot.claim then .ok ()
  else .error (.reconciliationRequired
    s!"Daemon returned inconsistent status/claim state for deployment {expected}")

def statusIntoResult (status : DeploymentStatus) (claim : DeploymentClaimState) :
    Except DeploymentError Unit :=
  match status with
  | .succeeded => .ok ()
  | .failed message => .error ⟨.failed, message⟩
  | .cancelled message => .error ⟨.cancelled, message⟩
  | .reconciliationRequired message =>
    if claim = .reconciled ∨ claim = .releasedUnresolved then .error ⟨.reconciledUnknown, message⟩
    else .error ⟨.reconciliationRequired, message⟩
  | .running | .rollingBack =>
    .error (.reconciliationRequired "daemon reported a non-terminal result as terminal")

/-! ### The two parties -/

/-- The daemon's side of the submission: `submit`, and the executor it spawns. -/
inductive Handler where
  | unsent
  | inFlight
  /-- The daemon will never see the message. -/
  | lost
  | reserved
  | rejecting (message : String)
  /-- `submit` returned without a job. -/
  | refused
  | registered
  | running
  | settled (status : DeploymentStatus)
  deriving DecidableEq

/-- Where the client goes on after `acknowledge_submission`. -/
inductive AfterAcknowledge where
  | attach
  | poll
  | fail (error : DeploymentError)
  | finish (snapshot : DeploymentJobSnapshot)
  deriving DecidableEq

/-- The program points of `ElevatedProvisioningExecutor::run` at which it waits. -/
inductive Client where
  | preparing
  | submitting
  | resolving (submissionError : String)
  | acknowledging (next : AfterAcknowledge)
  | streaming (lastRevision : ℕ)
  | polling
  | reconciling (historicalMessage : String)
  /-- `acknowledge_deployment`, whose outcome does not matter. -/
  | closing (result : Except DeploymentError Unit)
  | returned (result : Except DeploymentError Unit)

/-- The daemon's answer to the client's last query. -/
inductive Reply where
  | submission (snapshot : Option DeploymentSubmissionSnapshot)
  | job (snapshot : Option DeploymentJobSnapshot)
  | reconciled (snapshot : DeploymentJobSnapshot)
  | failure (message : String)

structure World where
  system : System
  handler : Handler := .unsent
  /-- `submit` has sent `ok` and the stream's descriptor. -/
  accepted : Bool := false
  /-- Snapshot frames written to the stream and not yet read. -/
  stream : List DeploymentJobSnapshot := []
  client : Client := .preparing
  reply : Option Reply := none
  /-- The daemon has found that the job requires reconciliation, and is looking for its manifest. -/
  reconcileChecked : Bool := false

inductive Action where
  -- the client
  | openArtifactError (message : String)
  | send
  | sendError (message : String)
  | submitOk
  | submitError (message : String)
  | acknowledged
  | receive
  | rpcError (message : String)
  | frame
  | streamClosed
  | close
  -- the daemon
  | deliver (valid : Bool) (iter : SubmissionOrder) (plan : PlanFingerprint)
  | lose
  | reject (message : String)
  | register (reserved : Except String ResourceReservation)
  | rejectFailed
  | attach
  | finalize (result : Option (Except DeploymentError Unit))
  | observe (status : DeploymentStatus)
  | report
  | closeStream
  | answer
  | applyReconcile (manifestPresent : Bool)
  | other (op : Operation)

/-- Calls that name the submission or belong to its job: identities are fresh, so no one else
makes them. -/
def Operation.Names (requestId : DeploymentRequestId) (id : DeploymentId) : Operation → Prop
  | .reserveSubmission _ requestId' id' _ | .register requestId' id' _ => requestId' = requestId ∨ id' = id
  | .rejectSubmission requestId' _ => requestId' = requestId
  | .observeStatus id' _ | .finalize id' _ _ | .registerStream id' | .releaseStream id' => id' = id
  | _ => False

namespace World

def registry (w : World) : DeploymentRegistry := w.system.registry

def setRegistry (w : World) (registry : DeploymentRegistry) : World :=
  { w with system := { w.system with registry := registry } }

/-- A call to the daemon: whatever was answered before is not the answer to it. -/
def call (w : World) (client : Client) : World :=
  { w with client := client, reply := none, reconcileChecked := false }

section Client
variable (requestId : DeploymentRequestId) (id : DeploymentId)

/-- `resolve_submission` with the daemon's answer. -/
def resolved (w : World) (submissionError : String) (snapshot : Option DeploymentSubmissionSnapshot) :
    World :=
  match snapshot with
  | none => { w with
      client := .returned (.error (.failed s!"Daemon rejected deployment before enqueue: {submissionError}")) }
  | some snapshot =>
    if snapshot.requestId ≠ requestId then
      { w with client := .returned (.error (.reconciliationRequired
        s!"Daemon returned submission {snapshot.requestId} while resolving {requestId}")) }
    else match snapshot.status with
      | .pending => w.call (.resolving submissionError)
      | .accepted accepted =>
        if accepted = id then { w with client := .acknowledging .poll }
        else { w with client := .returned (.error (.reconciliationRequired
          s!"Submission {requestId} resolved to deployment {accepted} instead of {id}")) }
      | .rejected message => { w with client := .acknowledging (.fail
          (.failed s!"Daemon rejected deployment submission: {message}")) }

/-- `wait_for_terminal_status` with the daemon's answer. -/
def polled (w : World) (snapshot : Option DeploymentJobSnapshot) : World :=
  match snapshot with
  | none => { w with client := .returned (.error (.reconciliationRequired
      s!"Daemon lost the accepted deployment record for {id}")) }
  | some snapshot =>
    match validateSnapshot id snapshot with
    | .error error => { w with client := .returned (.error error) }
    | .ok () =>
      if snapshot.status.isFinished then { w with client := .acknowledging (.finish snapshot) }
      else w.call .polling

/-- `finish`, after it has acknowledged the submission. -/
def finish (w : World) (snapshot : DeploymentJobSnapshot) : World :=
  if snapshot.claim = .reconciliationRequired then
    match snapshot.status with
    | .reconciliationRequired message => w.call (.reconciling message)
    | _ => { w with client := .returned (.error (.reconciliationRequired
        "daemon retained a claim for a non-reconciliation terminal state")) }
  else { w with client := .closing (statusIntoResult snapshot.status snapshot.claim) }

/-- `finish` with the daemon's answer to `reconcile_deployment`. -/
def reconciled (w : World) (historicalMessage : String) (snapshot : DeploymentJobSnapshot) : World :=
  match validateSnapshot id snapshot with
  | .error error => { w with client := .returned (.error error) }
  | .ok () =>
    if snapshot.claim = .reconciliationRequired then
      { w with client := .returned (.error (.reconciliationRequired historicalMessage)) }
    else if snapshot.claim ≠ .reconciled then
      { w with client := .returned (.error (.reconciliationRequired
        s!"{historicalMessage}; daemon returned an invalid reconciliation claim state")) }
    else { w with client := .closing (.error ⟨.reconciledUnknown,
      s!"{historicalMessage}; trusted daemon state no longer contains an unfinished manifest"⟩) }

/-- `consume_stream` with the next snapshot frame; on any error the client falls back to polling. -/
def consumed (w : World) (lastRevision : ℕ) (snapshot : DeploymentJobSnapshot) : World :=
  match validateSnapshot id snapshot with
  | .error _ => w.call .polling
  | .ok () =>
    if snapshot.revision < lastRevision then w.call .polling
    else if snapshot.status.isFinished then { w with client := .acknowledging (.finish snapshot) }
    else { w with client := .streaming snapshot.revision }

def acknowledged (w : World) : AfterAcknowledge → World
  | .attach => { w with client := .streaming 0 }
  | .poll => w.call .polling
  | .fail error => { w with client := .returned (.error error) }
  | .finish snapshot => w.finish snapshot

/-- What an error of the current query makes the client return. -/
def rpcFailed (w : World) (message : String) : Option World :=
  match w.client with
  | .resolving submissionError => some { w with client := .returned (.error (.reconciliationRequired
      s!"Deployment submission outcome is unknown: {submissionError}; resolution failed: {message}")) }
  | .polling => some { w with client := .returned (.error (.reconciliationRequired
      s!"Could not resolve deployment {id} after its event stream closed: {message}")) }
  | .reconciling historicalMessage => some { w with client := .returned (.error (.reconciliationRequired
      s!"{historicalMessage}; authoritative daemon reconciliation failed: {message}")) }
  | _ => none

def clientStep (w : World) : Action → Option World
  | .openArtifactError message =>
    match w.client with
    | .preparing => some { w with client := .returned (.error (.failed message)), handler := .lost }
    | _ => none
  | .send =>
    match w.client with
    | .preparing => some { w with client := .submitting, handler := .inFlight }
    | _ => none
  | .sendError message =>
    match w.client with
    | .preparing => some { w.call (.resolving message) with handler := .lost }
    | _ => none
  | .submitOk =>
    match w.client with
    | .submitting => if w.accepted then some { w with client := .acknowledging .attach } else none
    | _ => none
  | .submitError message =>
    match w.client with
    | .submitting => some (w.call (.resolving message))
    | _ => none
  | .acknowledged =>
    match w.client with
    | .acknowledging next => some (w.acknowledged next)
    | _ => none
  | .receive =>
    match w.client, w.reply with
    | .resolving error, some (.submission snapshot) => some (w.resolved requestId id error snapshot)
    | .polling, some (.job snapshot) => some (w.polled id snapshot)
    | .reconciling message, some (.reconciled snapshot) => some (w.reconciled id message snapshot)
    | _, some (.failure message) => w.rpcFailed id message
    | _, _ => none
  | .rpcError message => w.rpcFailed id message
  | .frame =>
    match w.client, w.stream with
    | .streaming lastRevision, snapshot :: rest => some ({ w with stream := rest }.consumed id lastRevision snapshot)
    | _, _ => none
  | .streamClosed =>
    match w.client with
    | .streaming _ => some (w.call .polling)
    | _ => none
  | .close =>
    match w.client with
    | .closing result => some { w with client := .returned result }
    | _ => none
  | _ => none

end Client

/-! ### The daemon -/

section Daemon
variable (requestId : DeploymentRequestId) (id : DeploymentId)

/-- A lookup error of the registry is answered with `null`. -/
def answerQuery (w : World) : Option World :=
  match w.client, w.reply with
  | .resolving _, none =>
    some { w with reply := some (.submission (resolveSubmission requestId w.registry).toOption) }
  | .polling, none => some { w with reply := some (.job (snapshot id w.registry).toOption) }
  | .reconciling _, none =>
    match snapshot id w.registry with
    | .ok current =>
      if current.claim = .reconciliationRequired then some { w with reconcileChecked := true }
      else some { w with reply := some (.failure s!"deployment {id} does not require reconciliation") }
    | .error failure => some { w with reply := some (.failure failure.message) }
  | _, _ => none

/-- `submit` once the message arrives, up to the reservation. -/
def deliver (w : World) (valid : Bool) (iter : SubmissionOrder) (plan : PlanFingerprint) : World :=
  -- the configuration and the plan are checked before anything is reserved
  if !valid then { w with handler := .refused }
  else match reserveSubmission iter requestId id plan w.registry with
    | (.ok (), registry) => { w.setRegistry registry with handler := .reserved }
    | (.error _, registry) => { w.setRegistry registry with handler := .refused }

def daemonStep (w : World) : Action → Option World
  | .deliver valid iter plan =>
    if w.handler = .inFlight then some (w.deliver requestId id valid iter plan) else none
  | .lose => if w.handler = .inFlight then some { w with handler := .lost } else none
  | .reject message =>
    if w.handler = .reserved then
      some { w.setRegistry (rejectSubmission requestId message w.registry) with handler := .refused }
    else none
  | .register reserved =>
    if w.handler = .reserved then
      match Jobs.register requestId id reserved w.registry with
      | (.ok (), registry) => some { w.setRegistry registry with handler := .registered }
      | (.error failure, registry) =>
        some { w.setRegistry registry with handler := .rejecting failure.message }
    else none
  | .rejectFailed =>
    match w.handler with
    | .rejecting message =>
      some { w.setRegistry (rejectSubmission requestId message w.registry) with handler := .refused }
    | _ => none
  | .attach =>
    if w.handler = .registered then
      match registerStream id w.registry with
      | (.ok (), registry) =>
        some { w with
          system := ⟨registry, id :: w.system.leases⟩
          handler := .running
          accepted := true }
      | (.error _, registry) => some { w.setRegistry (cancel id registry).2 with handler := .refused }
    else none
  | .finalize result =>
    if w.handler = .running then
      let terminal := runDeploymentExecutor result
      match Jobs.finalize id terminal.status terminal.claimStatus w.registry with
      | (.ok _, registry) => some { w.setRegistry registry with handler := .settled terminal.status }
      | (.error _, registry) => some (w.setRegistry registry)
    else none
  | .observe status =>
    if w.accepted then
      match observeStatus id status w.registry with
      | (.ok snapshot, registry) => some { w.setRegistry registry with stream := w.stream ++ [snapshot] }
      | (.error _, registry) => some (w.setRegistry registry)
    else none
  | .report =>
    if w.accepted then
      match snapshot id w.registry with
      | .ok snapshot => some { w with stream := w.stream ++ [snapshot] }
      | .error _ => none
    else none
  | .closeStream =>
    if id ∈ w.system.leases then
      some { w with system := ⟨releaseStream id w.registry, w.system.leases.erase id⟩ }
    else none
  | .answer => w.answerQuery requestId id
  | .applyReconcile manifestPresent =>
    match w.client, w.reconcileChecked, w.reply with
    | .reconciling _, true, none =>
      match Jobs.reconcile id manifestPresent w.registry with
      | (.ok snapshot, registry) => some { w.setRegistry registry with reply := some (.reconciled snapshot) }
      | (.error failure, registry) =>
        some { w.setRegistry registry with reply := some (.failure failure.message) }
    | _, _, _ => none
  | _ => none

end Daemon

end World

/-- One step of the client, of the daemon's own tasks for the submission, or of anyone else. -/
inductive WorldStep (requestId : DeploymentRequestId) (id : DeploymentId) : World → Action → World → Prop
  | client {w v : World} {a : Action} (h : w.clientStep requestId id a = some v) : WorldStep requestId id w a v
  | daemon {w v : World} {a : Action} (h : w.daemonStep requestId id a = some v) : WorldStep requestId id w a v
  | other {w : World} {op : Operation} (enabled : op.Enabled w.system) (names : ¬ op.Names requestId id) :
      WorldStep requestId id w (.other op)
        { w with system := ⟨op.apply w.registry, op.leases w.system⟩ }

/-- The daemon before a submission with fresh identities. -/
structure Fresh (requestId : DeploymentRequestId) (id : DeploymentId) (system : System) : Prop where
  reachable : ∃ ops, Run System.Step {} ops system
  request : system.registry.submissions.lookup requestId = none
  job : system.registry.jobs.lookup id = none

end Lasper.Jobs
