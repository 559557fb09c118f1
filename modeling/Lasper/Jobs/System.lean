import Lasper.Jobs.Invariant

/-! The registry as a transition system. Callers invoke its operations in any
order with any arguments, with two restrictions that the daemon keeps: a
submission is rejected only by the handler that reserved it, while it is still
pending, and a stream is released only by dropping a lease. -/

namespace Lasper.Jobs

open Lib

/-- The registry and the stream leases its forwarders own. -/
structure System where
  registry : DeploymentRegistry := {}
  leases : List DeploymentId := []

inductive Operation where
  | reserveSubmission (iter : SubmissionOrder) (requestId : DeploymentRequestId)
      (deploymentId : DeploymentId) (plan : PlanFingerprint)
  | rejectSubmission (requestId : DeploymentRequestId) (message : String)
  | register (requestId : DeploymentRequestId) (deploymentId : DeploymentId)
      (reserved : Except String ResourceReservation)
  | observeStatus (deploymentId : DeploymentId) (status : DeploymentStatus)
  | finalize (deploymentId : DeploymentId) (status : DeploymentStatus)
      (claimStatus : DeploymentClaimStatus)
  | cancel (deploymentId : DeploymentId)
  | acknowledge (deploymentId : DeploymentId)
  | acknowledgeSubmission (requestId : DeploymentRequestId)
  | registerStream (deploymentId : DeploymentId)
  | releaseStream (deploymentId : DeploymentId)
  | releaseUnresolved (deploymentId : DeploymentId) (confirmed : Bool)
  | reconcile (deploymentId : DeploymentId) (manifestPresent : Bool)

def failureOf {α : Type} : Except Failure α → Option Failure
  | .ok _ => none
  | .error failure => some failure

theorem failureOf_eq {α : Type} {r : Except Failure α} {failure : Failure}
    (h : failureOf r = some failure) : r = .error failure := by
  cases r <;> cases h
  rfl

/-- The tables an operation leaves. -/
def Operation.apply : Operation → DeploymentRegistry → DeploymentRegistry
  | .reserveSubmission iter requestId deploymentId plan, s =>
    (Jobs.reserveSubmission iter requestId deploymentId plan s).2
  | .rejectSubmission requestId message, s => Jobs.rejectSubmission requestId message s
  | .register requestId deploymentId reserved, s => (Jobs.register requestId deploymentId reserved s).2
  | .observeStatus deploymentId status, s => (Jobs.observeStatus deploymentId status s).2
  | .finalize deploymentId status claimStatus, s => (Jobs.finalize deploymentId status claimStatus s).2
  | .cancel deploymentId, s => (Jobs.cancel deploymentId s).2
  | .acknowledge deploymentId, s => (Jobs.acknowledge deploymentId s).2
  | .acknowledgeSubmission requestId, s => (Jobs.acknowledgeSubmission requestId s).2
  | .registerStream deploymentId, s => (Jobs.registerStream deploymentId s).2
  | .releaseStream deploymentId, s => Jobs.releaseStream deploymentId s
  | .releaseUnresolved deploymentId confirmed, s => (Jobs.releaseUnresolved deploymentId confirmed s).2
  | .reconcile deploymentId manifestPresent, s => (Jobs.reconcile deploymentId manifestPresent s).2

/-- How an operation fails, if it does. -/
def Operation.failure : Operation → DeploymentRegistry → Option Failure
  | .reserveSubmission iter requestId deploymentId plan, s =>
    failureOf (Jobs.reserveSubmission iter requestId deploymentId plan s).1
  | .register requestId deploymentId reserved, s =>
    failureOf (Jobs.register requestId deploymentId reserved s).1
  | .observeStatus deploymentId status, s => failureOf (Jobs.observeStatus deploymentId status s).1
  | .finalize deploymentId status claimStatus, s =>
    failureOf (Jobs.finalize deploymentId status claimStatus s).1
  | .cancel deploymentId, s => failureOf (Jobs.cancel deploymentId s).1
  | .acknowledge deploymentId, s => failureOf (Jobs.acknowledge deploymentId s).1
  | .acknowledgeSubmission requestId, s => failureOf (Jobs.acknowledgeSubmission requestId s).1
  | .registerStream deploymentId, s => failureOf (Jobs.registerStream deploymentId s).1
  | .releaseUnresolved deploymentId confirmed, s =>
    failureOf (Jobs.releaseUnresolved deploymentId confirmed s).1
  | .reconcile deploymentId manifestPresent, s =>
    failureOf (Jobs.reconcile deploymentId manifestPresent s).1
  | .rejectSubmission _ _, _ | .releaseStream _, _ => none

/-- The leases after an operation: a successful `register_stream` hands one out. -/
def Operation.leases : Operation → System → List DeploymentId
  | .registerStream deploymentId, s =>
    if deploymentId ∈ s.registry.jobs then deploymentId :: s.leases else s.leases
  | .releaseStream deploymentId, s => s.leases.erase deploymentId
  | _, s => s.leases

def Operation.Enabled : Operation → System → Prop
  | .rejectSubmission requestId _, s =>
    ∃ submission, s.registry.submissions.lookup requestId = some submission ∧
      submission.status = .pending
  | .releaseStream deploymentId, s => deploymentId ∈ s.leases
  | _, _ => True

inductive System.Step : System → Operation → System → Prop
  | mk {s : System} {op : Operation} (enabled : op.Enabled s) :
      System.Step s op ⟨op.apply s.registry, op.leases s⟩

theorem Operation.apply_consistent {op : Operation} {s : System} (he : op.Enabled s)
    (h : Consistent s.registry) : Consistent (op.apply s.registry) := by
  cases op with
  | reserveSubmission iter requestId deploymentId plan => exact reserveSubmission_consistent h
  | rejectSubmission requestId message =>
    obtain ⟨submission, hs, hp⟩ := he
    exact rejectSubmission_consistent h hs hp
  | register requestId deploymentId reserved => exact register_consistent h
  | observeStatus deploymentId status => exact observeStatus_consistent h
  | finalize deploymentId status claimStatus => exact finalize_consistent h
  | cancel deploymentId => exact cancel_consistent h
  | acknowledge deploymentId => exact acknowledge_consistent h
  | acknowledgeSubmission requestId => exact acknowledgeSubmission_consistent h
  | registerStream deploymentId => exact registerStream_consistent h
  | releaseStream deploymentId => exact releaseStream_consistent h
  | releaseUnresolved deploymentId confirmed => exact releaseUnresolved_consistent h
  | reconcile deploymentId manifestPresent => exact reconcile_consistent h

theorem System.Step.consistent {s t : System} {op : Operation} (h : Consistent s.registry)
    (hs : System.Step s op t) : Consistent t.registry := by
  cases hs with
  | mk enabled => exact op.apply_consistent enabled h

theorem consistent_of_run {ops : List Operation} {s : System} (h : Run System.Step {} ops s) :
    Consistent s.registry :=
  h.invariant (I := fun s => Consistent s.registry) consistent_empty
    fun _ _ _ hi hs => hs.consistent hi

/-- Whatever an operation fails with, it is an error it returns to its caller. -/
theorem Operation.failure_ordinary {op : Operation} {s : DeploymentRegistry} {failure : Failure}
    (hc : Consistent s) (h : op.failure s = some failure) : failure.Ordinary := by
  cases op with
  | reserveSubmission iter requestId deploymentId plan =>
    exact reserveSubmission_failure (failureOf_eq h)
  | rejectSubmission requestId message => cases h
  | register requestId deploymentId reserved => exact register_failure hc (failureOf_eq h)
  | observeStatus deploymentId status => exact observeStatus_failure (failureOf_eq h)
  | finalize deploymentId status claimStatus => exact finalize_failure (failureOf_eq h)
  | cancel deploymentId => exact cancel_failure (failureOf_eq h)
  | acknowledge deploymentId => exact acknowledge_failure hc (failureOf_eq h)
  | acknowledgeSubmission requestId => exact acknowledgeSubmission_failure (failureOf_eq h)
  | registerStream deploymentId => exact registerStream_failure (failureOf_eq h)
  | releaseStream deploymentId => cases h
  | releaseUnresolved deploymentId confirmed => exact releaseUnresolved_failure (failureOf_eq h)
  | reconcile deploymentId manifestPresent => exact reconcile_failure (failureOf_eq h)

/-- After every sequence of registry operations: each job's status, claim and reservation
agree; jobs and accepted submissions name each other one to one; the tables stay within
bounds; and no enabled operation panics or meets the job table's capacity error. -/
theorem registry_representation {ops : List Operation} {s : System}
    (h : Run System.Step {} ops s) :
    (∀ id job, s.registry.jobs.lookup id = some job →
      (job.status.isFinished = true ↔ job.claim ≠ .held) ∧
      (job.reservation.isSome = true ↔ job.claim = .held ∨ job.claim = .reconciliationRequired) ∧
      Accepted s.registry job.requestId id ∧
      ∀ requestId, Accepted s.registry requestId id → requestId = job.requestId) ∧
    (∀ requestId id, Accepted s.registry requestId id → ∃ job, s.registry.jobs.lookup id = some job) ∧
    s.registry.jobs.len ≤ s.registry.submissions.len ∧
    s.registry.submissions.len ≤ maxDeploymentRecords ∧
    ∀ op : Operation, op.Enabled s → ∀ failure, op.failure s.registry = some failure →
      failure ≠ capacityError ∧ ∀ message, failure ≠ .panic message := by
  have hc := consistent_of_run h
  refine ⟨fun id job hj => ?_, fun requestId id ha => Table.lookup_of_mem (hc.accepted_mem requestId id ha),
    hc.jobs_le, hc.submissions_le, fun op _ failure hf => op.failure_ordinary hc hf⟩
  have hiff := hc.accepted_iff id job hj
  exact ⟨(hc.job id job hj).finished_iff, (hc.job id job hj).reserved_iff, (hiff _).mpr rfl,
    fun requestId ha => (hiff requestId).mp ha⟩

/-- Submit, accept and finish one deployment. -/
private def acceptedRun : List Operation :=
  [.reserveSubmission (.stored _ _) ⟨1⟩ ⟨2⟩ ⟨"plan"⟩, .register ⟨1⟩ ⟨2⟩ (.ok ⟨1, ["machine"]⟩),
    .registerStream ⟨2⟩, .finalize ⟨2⟩ .succeeded .released, .releaseStream ⟨2⟩]

theorem registry_representation_accepted :
    ∃ s : System, Run System.Step {} acceptedRun s ∧
      (s.registry.jobs.lookup ⟨2⟩).map (·.claim) = some .released ∧
      s.registry.jobs.len ≤ s.registry.submissions.len := by
  have h : Run System.Step {} acceptedRun _ :=
    .snoc (.snoc (.snoc (.snoc (.snoc .nil ⟨trivial⟩) ⟨trivial⟩) ⟨trivial⟩) ⟨trivial⟩) ⟨(by decide : DeploymentId.mk 2 ∈ _)⟩
  exact ⟨_, h, by decide, (registry_representation h).2.2.1⟩

end Lasper.Jobs
