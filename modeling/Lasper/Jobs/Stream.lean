import Lasper.Jobs.Effects

/-! The event stream of one accepted deployment. `submit` starts an executor,
which queues events, replaces the value of a status channel and finalizes the
job, and a forwarder, which selects between the queue and the channel and
writes frames to the client; a frame whose line is too long is replaced by a
warning. Between any two of their atomic steps the other task, or any other
caller of the registry, may run. -/

namespace Lasper.Jobs

open Lib DeploymentRegistry

def deploymentEventCapacity : ℕ := 256

structure DeploymentProgress where
  label : String
  permille : Fin 1001
  deriving DecidableEq

inductive DeploymentEvent where
  | line (text : String)
  | progress (progress : DeploymentProgress)
  deriving DecidableEq

inductive DeploymentStreamFrame where
  | event (event : DeploymentEvent)
  | snapshot (snapshot : DeploymentJobSnapshot)
  deriving DecidableEq

def maxDeploymentStreamFrameBytes : ℕ := 256 * 1024

/-- What `write_frame` writes instead of a frame that is too long. -/
def omittedFrame : DeploymentStreamFrame :=
  .event (.line "WARNING: An oversized deployment output line was omitted.")

/-- The frame that `write_frame` writes, as a line. The length of a serialized frame is a
parameter. -/
def writtenFrame (frameBytes : DeploymentStreamFrame → ℕ) (frame : DeploymentStreamFrame) : DeploymentStreamFrame :=
  if frameBytes frame + 1 > maxDeploymentStreamFrameBytes then omittedFrame else frame

/-- The task `submit` spawns around `run_deployment_executor`. -/
inductive Executor where
  | running
  | returned (terminal : DeploymentTerminal)
  | finalized (status : DeploymentStatus)
  | done
  deriving DecidableEq

/-- Where the forwarder goes after a frame is written. -/
inductive Resume where
  | head | drain | finish
  deriving DecidableEq

/-- The program points of `forward_job_stream`. -/
inductive Forwarder where
  | head
  | selecting
  | woken
  | observing (current : DeploymentStatus)
  | draining
  | reporting
  | writing (frame : DeploymentStreamFrame) (next : Resume)
  | returned
  deriving DecidableEq

structure StreamState where
  system : System
  queue : List DeploymentEvent := []
  /-- Every event the executor has queued so far. -/
  queued : List DeploymentEvent := []
  status : DeploymentStatus := .running
  version : ℕ := 0
  /-- The version of the status channel the forwarder was last woken for. -/
  seen : ℕ := 0
  executor : Executor := .running
  forwarder : Forwarder := .head
  streamOpen : Bool := true
  /-- The frames passed to `write_frame` so far. -/
  given : List DeploymentStreamFrame := []
  /-- The frames it wrote for them. -/
  frames : List DeploymentStreamFrame := []

inductive StreamAction where
  | queueEvent (event : DeploymentEvent)
  | setRollingBack (rollingBack : Bool)
  | complete (result : Option (Except DeploymentError Unit))
  | finalize
  | publish
  | borrowHead
  | recv
  | recvClosed
  | changed
  | changedClosed
  | borrow
  | observe
  | tryRecv
  | drained
  | report
  | written (ok : Bool)
  | other (op : Operation)

namespace StreamState

def registry (s : StreamState) : DeploymentRegistry := s.system.registry

def setRegistry (s : StreamState) (registry : DeploymentRegistry) : StreamState :=
  { s with system := { s.system with registry := registry } }

/-- The forwarder returns and drops its lease. -/
def finish (id : DeploymentId) (s : StreamState) : StreamState :=
  { s with
    forwarder := .returned
    system := ⟨releaseStream id s.registry, s.system.leases.erase id⟩ }

def resume (id : DeploymentId) (s : StreamState) : Resume → StreamState
  | .head => { s with forwarder := .head }
  | .drain => { s with forwarder := .draining }
  | .finish => s.finish id

/-- `if stream_open { stream_open = write_frame(frame) }`, up to the start of the write. -/
def offer (id : DeploymentId) (s : StreamState) (frame : DeploymentStreamFrame) (next : Resume) :
    StreamState :=
  if s.streamOpen then { s with forwarder := .writing frame next } else s.resume id next

/-- One step of the executor task. -/
def executorStep (id : DeploymentId) (s : StreamState) : StreamAction → Option StreamState
  | .queueEvent event =>
    if s.executor = .running ∧ s.forwarder ≠ .returned ∧ s.queue.length < deploymentEventCapacity then
      some { s with queue := s.queue ++ [event], queued := s.queued ++ [event] }
    else none
  | .setRollingBack rollingBack =>
    if s.executor = .running then
      some { s with
        status := if rollingBack then .rollingBack else .running
        version := s.version + 1 }
    else none
  | .complete result =>
    if s.executor = .running then some { s with executor := .returned (runDeploymentExecutor result) }
    else none
  | .finalize =>
    match s.executor with
    | .returned terminal =>
      match Jobs.finalize id terminal.status terminal.claimStatus s.registry with
      | (.ok _, registry) => some { s.setRegistry registry with executor := .finalized terminal.status }
      | (.error _, registry) => some { s.setRegistry registry with executor := .done }
    | _ => none
  | .publish =>
    match s.executor with
    | .finalized status =>
      some { s with status := status, version := s.version + 1, executor := .done }
    | _ => none
  | _ => none

/-- One step of `forward_job_stream`. -/
def forwarderStep (frameBytes : DeploymentStreamFrame → ℕ) (id : DeploymentId) (s : StreamState) : StreamAction → Option StreamState
  | .borrowHead =>
    if s.forwarder = .head then
      some { s with forwarder := if s.status.isFinished then .draining else .selecting }
    else none
  | .recv =>
    match s.forwarder, s.queue with
    | .selecting, event :: queue => some ({ s with queue := queue }.offer id (.event event) .head)
    | _, _ => none
  | .recvClosed =>
    -- `recv` answers `None` once every sender is dropped and the queue is empty
    if s.forwarder = .selecting ∧ s.executor ≠ .running ∧ s.queue = [] then
      some { s with forwarder := .head }
    else none
  | .changed =>
    if s.forwarder = .selecting ∧ s.seen ≠ s.version then
      some { s with forwarder := .woken, seen := s.version }
    else none
  | .changedClosed =>
    if s.forwarder = .selecting ∧ s.seen = s.version ∧ s.executor = .done then some (s.finish id)
    else none
  | .borrow =>
    if s.forwarder = .woken then some { s with forwarder := .observing s.status } else none
  | .observe =>
    match s.forwarder with
    | .observing current =>
      match observeStatus id current s.registry with
      | (.error _, registry) => some ((s.setRegistry registry).finish id)
      | (.ok snapshot, registry) =>
        let s := s.setRegistry registry
        if !current.isFinished then some (s.offer id (.snapshot snapshot) .head)
        else some { s with forwarder := .head }
    | _ => none
  | .tryRecv =>
    match s.forwarder, s.queue with
    | .draining, event :: queue => some ({ s with queue := queue }.offer id (.event event) .drain)
    | _, _ => none
  | .drained =>
    if s.forwarder = .draining ∧ s.queue = [] then some { s with forwarder := .reporting } else none
  | .report =>
    if s.forwarder = .reporting then
      match Jobs.snapshot id s.registry with
      | .error _ => some (s.finish id)
      | .ok snapshot => some (s.offer id (.snapshot snapshot) .finish)
    else none
  | .written ok =>
    match s.forwarder with
    | .writing frame next =>
      some ({ s with
        given := s.given ++ [frame]
        frames := s.frames ++ [writtenFrame frameBytes frame]
        streamOpen := ok }.resume id next)
    | _ => none
  | _ => none

/-- A forwarder that has returned does nothing more. -/
theorem forwarderStep_returned {frameBytes : DeploymentStreamFrame → ℕ} {id : DeploymentId} {s : StreamState}
    (hr : s.forwarder = .returned) (a : StreamAction) : s.forwarderStep frameBytes id a = none := by
  unfold forwarderStep
  split <;> simp [hr]

end StreamState

inductive StreamStep (frameBytes : DeploymentStreamFrame → ℕ) (id : DeploymentId) : StreamState → StreamAction → StreamState → Prop
  | executor {s t : StreamState} {a : StreamAction} (h : s.executorStep id a = some t) :
      StreamStep frameBytes id s a t
  | forwarder {s t : StreamState} {a : StreamAction} (h : s.forwarderStep frameBytes id a = some t) :
      StreamStep frameBytes id s a t
  | other {s : StreamState} {op : Operation} (enabled : op.Enabled s.system) (owned : ¬ op.Owned id) :
      StreamStep frameBytes id s (.other op) { s with system := ⟨op.apply s.registry, op.leases s.system⟩ }

/-- Calls of the registry by anyone but the job's own tasks. -/
inductive OtherStep (id : DeploymentId) : System → Operation → System → Prop
  | mk {s t : System} {op : Operation} (step : System.Step s op t) (owned : ¬ op.Owned id) :
      OtherStep id s op t

/-- The daemon when `submit` spawns the two tasks: it has registered the job, and then, other
callers running in between, its stream. -/
inductive Launched (id : DeploymentId) : System → Prop
  | mk {ops ops' : List Operation} {s s' : System} {requestId : DeploymentRequestId}
      {reserved : Except String ResourceReservation} {registry : DeploymentRegistry}
      (reachable : Run System.Step {} ops s)
      (registered : register requestId id reserved s.registry = (.ok (), registry))
      (between : Run (OtherStep id) ⟨registry, s.leases⟩ ops' s')
      (leased : (registerStream id s'.registry).1 = .ok ()) :
      Launched id ⟨(registerStream id s'.registry).2, id :: s'.leases⟩

theorem otherStep_keeps {id : DeploymentId} {s t : System} {ops : List Operation}
    {job : DeploymentRecord} (h : Run (OtherStep id) s ops t)
    (hj : s.registry.jobs.lookup id = some job) (hp : job.Pinned) :
    ∃ job', t.registry.jobs.lookup id = some job' ∧ job'.Pinned ∧ job'.status = job.status := by
  refine h.invariant (I := fun t => ∃ job', t.registry.jobs.lookup id = some job' ∧ job'.Pinned ∧
    job'.status = job.status) ⟨job, hj, hp, rfl⟩ ?_
  rintro t op u ⟨job', hj', hp', hs'⟩ ⟨⟨_⟩, ho⟩
  obtain ⟨job'', hj'', -, he⟩ := op.apply_keeps ho hj' hp'
  exact ⟨job'', hj'', he.pinned hp', he.status_eq.trans hs'⟩

/-- A launched job runs and its stream is leased. -/
theorem Launched.job {id : DeploymentId} {system : System} (h : Launched id system) :
    ∃ job, system.registry.jobs.lookup id = some job ∧ job.status = .running ∧
      job.streamLeases ≠ 0 := by
  obtain ⟨-, registered, between, leased⟩ := h
  obtain ⟨⟨job, hj, -, hs, hh⟩, -⟩ := register_ok registered
  obtain ⟨job', hj', -, hs'⟩ := otherStep_keeps between hj (.inl hh)
  refine ⟨{ job' with streamLeases := saturatingAdd u64Max job'.streamLeases 1 }, ?_, hs'.trans hs, ?_⟩
  · simp [registerStream, hj', DeploymentRegistry.putJob]
  · simp [saturatingAdd, u64Max]

end Lasper.Jobs
