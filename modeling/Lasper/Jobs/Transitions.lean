import Mathlib.Logic.Relation
import Lasper.Jobs.Effects

/-! How a registered job may change. One operation keeps a job's snapshot or
raises its revision by one; a finished status stays; the claim makes at most one
of five moves. A job is followed from its registration to its eviction: the
steps of its history are those after which its deployment is still registered,
and along them the revision orders its snapshots and tells them apart. -/

namespace Lasper.Jobs

open Lib DeploymentRegistry

/-- The moves of a job's claim. -/
inductive ClaimMove : DeploymentClaimState → DeploymentClaimState → Prop
  | release : ClaimMove .held .released
  | retain : ClaimMove .held .reconciliationRequired
  | settle : ClaimMove .held .reconciled
  | reconcile : ClaimMove .reconciliationRequired .reconciled
  | giveUp : ClaimMove .reconciliationRequired .releasedUnresolved

namespace DeploymentRecord

/-- What clients see of a job is the same. -/
structure SameView (old new : DeploymentRecord) : Prop where
  revision : new.revision = old.revision
  status : new.status = old.status
  claim : new.claim = old.claim
  cancellationRequested : new.cancellationRequested = old.cancellationRequested

/-- One operation on the record of a job. -/
structure Advances (old new : DeploymentRecord) : Prop where
  terminal : old.status.isFinished = true → new.status = old.status
  claim : new.claim = old.claim ∨ ClaimMove old.claim new.claim
  revision : old.SameView new ∨ new.revision = saturatingAdd u64Max old.revision 1

variable {old new : DeploymentRecord}

theorem SameView.advances (h : old.SameView new) : old.Advances new :=
  ⟨fun _ => h.status, .inl h.claim, .inl h⟩

theorem SameView.refl : old.SameView old := ⟨rfl, rfl, rfl, rfl⟩

theorem SameView.snapshot_eq (h : old.SameView new) (id : DeploymentId) :
    snapshotOf id new = snapshotOf id old := by
  simp [snapshotOf, h.revision, h.status, h.claim, h.cancellationRequested]

/-- A running job holds its claim, so finishing it makes one of the first three moves. -/
theorem Advances.finish (hc : JobConsistent old) (hf : old.status.isFinished = false)
    {status : DeploymentStatus} {claimStatus : DeploymentClaimStatus}
    (hok : terminalClaimState status claimStatus = .ok new.claim)
    (hr : new.revision = saturatingAdd u64Max old.revision 1) : old.Advances new := by
  have hheld : old.claim = .held := by
    by_contra hn
    have hfin := hc.finished_iff.mpr hn
    rw [hf] at hfin
    exact Bool.noConfusion hfin
  obtain ⟨-, hnheld, hnun⟩ := terminalClaimState_ok hok
  refine ⟨fun ht => ?_, .inr ?_, .inr hr⟩
  · rw [hf] at ht
    exact Bool.noConfusion ht
  · rw [hheld]
    cases hn : new.claim with
    | held => exact absurd hn hnheld
    | released => exact .release
    | reconciliationRequired => exact .retain
    | reconciled => exact .settle
    | releasedUnresolved => exact absurd hn hnun

theorem Advances.revision_le (h : old.Advances new) (hb : old.revision ≤ 2 ^ 64 - 1) :
    old.revision ≤ new.revision := by
  rcases h.revision with hs | hr
  · rw [hs.revision]
  · rw [hr]
    exact le_saturatingAdd 1 hb

theorem Advances.revision_bounded (h : old.Advances new) (hb : old.revision ≤ 2 ^ 64 - 1) :
    new.revision ≤ 2 ^ 64 - 1 := by
  rcases h.revision with hs | hr
  · rw [hs.revision]
    exact hb
  · rw [hr]
    unfold saturatingAdd u64Max
    omega

/-- Below the largest revision, whatever a client can see to change raises it. -/
theorem Advances.revision_lt (h : old.Advances new) {id : DeploymentId}
    (hn : snapshotOf id new ≠ snapshotOf id old) (hb : old.revision < 2 ^ 64 - 1) :
    old.revision < new.revision := by
  rcases h.revision with hs | hr
  · exact absurd (hs.snapshot_eq id) hn
  · rw [hr]
    unfold saturatingAdd u64Max
    omega

end DeploymentRecord

/-- A job that is registered now advanced, or starts with revision 1. Only the
operations on streams change the number of its leases. -/
def Carries (streams : Bool) (s t : DeploymentRegistry) : Prop :=
  ∀ id new, t.jobs.lookup id = some new →
    (∃ old, s.jobs.lookup id = some old ∧ old.Advances new ∧
      (streams = false → new.streamLeases = old.streamLeases)) ∨
    (s.jobs.lookup id = none ∧ new.revision = 1 ∧ new.streamLeases = 0)

section Operations

variable {streams : Bool} {s t : DeploymentRegistry} {id : DeploymentId} {requestId : DeploymentRequestId}

theorem Carries.of_jobs_eq (h : t.jobs = s.jobs) : Carries streams s t := by
  intro id new hn
  rw [h] at hn
  exact .inl ⟨new, hn, DeploymentRecord.SameView.refl.advances, fun _ => rfl⟩

theorem Carries.putJob {old new : DeploymentRecord} (ho : s.jobs.lookup id = some old)
    (ht : t.jobs = s.jobs) (ha : old.Advances new)
    (hl : streams = false → new.streamLeases = old.streamLeases) : Carries streams s (t.putJob id new) := by
  intro id' new' hn
  simp only [DeploymentRegistry.putJob, Table.lookup_insert_ite, ht] at hn
  by_cases hid : id' = id
  · rw [if_pos hid] at hn
    rw [hid, ← Option.some.inj hn]
    exact .inl ⟨old, ho, ha, hl⟩
  · rw [if_neg hid] at hn
    exact Carries.of_jobs_eq rfl id' new' hn

theorem Carries.insertJob {new : DeploymentRecord} (hid : id ∉ s.jobs) (ht : t.jobs = s.jobs)
    (hr : new.revision = 1) (hl : new.streamLeases = 0) : Carries streams s (t.putJob id new) := by
  intro id' new' hn
  simp only [DeploymentRegistry.putJob, Table.lookup_insert_ite, ht] at hn
  by_cases he : id' = id
  · rw [if_pos he] at hn
    rw [he, ← Option.some.inj hn]
    exact .inr ⟨AList.lookup_eq_none.mpr hid, hr, hl⟩
  · rw [if_neg he] at hn
    exact Carries.of_jobs_eq rfl id' new' hn

theorem reserveSubmission_carries {iter : SubmissionOrder} {plan : PlanFingerprint} :
    Carries streams s (reserveSubmission iter requestId id plan s).2 := by
  have hroom : Carries streams s (makeRoom iter s.submissions.len s).2 := by
    intro id' new hn
    rcases makeRoom_job iter s.submissions.len s id' with he | ⟨-, -, -, he⟩
    · exact Carries.of_jobs_eq rfl id' new (he ▸ hn)
    · rw [he] at hn
      cases hn
  unfold reserveSubmission
  dsimp only
  split
  · exact .of_jobs_eq rfl
  · split
    · rename_i s' he
      rw [he] at hroom
      exact hroom
    · rename_i s' he
      rw [he] at hroom
      exact hroom

theorem register_carries {reserved : Except String ResourceReservation} :
    Carries streams s (register requestId id reserved s).2 := by
  unfold register
  split
  · exact .of_jobs_eq rfl
  · split_ifs with _ _ hmem
    · exact .of_jobs_eq rfl
    · exact .of_jobs_eq rfl
    · exact .of_jobs_eq rfl
    · split
      · exact .of_jobs_eq rfl
      · dsimp only
        split
        · exact .insertJob hmem rfl rfl rfl
        · exact Carries.insertJob (t := s.bump) hmem rfl rfl rfl

theorem observeStatus_carries {status : DeploymentStatus} :
    Carries streams s (observeStatus id status s).2 := by
  unfold observeStatus
  split
  · exact .of_jobs_eq rfl
  · split
    · exact .of_jobs_eq rfl
    · rename_i record hr
      split
      · exact .of_jobs_eq rfl
      · rename_i hf
        dsimp only
        by_cases hs : status ≠ record.status
        · rw [if_pos hs]
          exact .putJob hr rfl ⟨fun ht => absurd ht hf, .inl rfl, .inr rfl⟩ fun _ => rfl
        · rw [if_neg hs]
          exact .putJob hr rfl DeploymentRecord.SameView.refl.advances fun _ => rfl

theorem finalize_carries {status : DeploymentStatus} {claimStatus : DeploymentClaimStatus}
    (hc : Consistent s) : Carries streams s (finalize id status claimStatus s).2 := by
  unfold finalize
  split
  · exact .of_jobs_eq rfl
  · rename_i claim hok
    split
    · exact .of_jobs_eq rfl
    · rename_i record hr
      split
      · split <;> exact .of_jobs_eq rfl
      · rename_i hf
        have hrunning : record.status.isFinished = false := Bool.eq_false_iff.mpr hf
        exact .putJob hr rfl (.finish (hc.job id record hr) hrunning hok rfl) fun _ => rfl

theorem cancel_carries : Carries streams s (cancel id s).2 := by
  unfold cancel
  split
  · exact .of_jobs_eq rfl
  · rename_i record hr
    split
    · exact .of_jobs_eq rfl
    · dsimp only
      split
      · exact .putJob hr rfl ⟨fun _ => rfl, .inl rfl, .inr rfl⟩ fun _ => rfl
      · exact .putJob hr rfl DeploymentRecord.SameView.refl.advances fun _ => rfl

theorem acknowledge_carries : Carries streams s (acknowledge id s).2 := by
  unfold acknowledge
  split
  · exact .of_jobs_eq rfl
  · split_ifs
    · exact .of_jobs_eq rfl
    · exact .of_jobs_eq rfl
    · dsimp only
      split
      · exact .of_jobs_eq rfl
      · split_ifs
        · exact .of_jobs_eq rfl
        · split
          · exact .of_jobs_eq rfl
          · rename_i record hr
            have hview : record.SameView { record with
                acknowledged := true, sequence := s.bump.nextSequence } := ⟨rfl, rfl, rfl, rfl⟩
            exact .putJob hr rfl hview.advances fun _ => rfl

theorem releaseUnresolved_carries {confirmed : Bool} :
    Carries streams s (releaseUnresolved id confirmed s).2 := by
  unfold releaseUnresolved
  split
  · exact .of_jobs_eq rfl
  · split
    · exact .of_jobs_eq rfl
    · rename_i record hr
      split
      · exact .of_jobs_eq rfl
      · rename_i hn
        have hrr : record.claim = .reconciliationRequired := by
          by_contra hne
          exact hn (.inr hne)
        refine .putJob hr rfl ⟨fun _ => rfl, .inr ?_, .inr rfl⟩ fun _ => rfl
        rw [hrr]
        exact .giveUp

theorem reconcile_carries {manifestPresent : Bool} : Carries streams s (reconcile id manifestPresent s).2 := by
  unfold reconcile
  split
  · exact .of_jobs_eq rfl
  · rename_i record hr
    split
    · exact .of_jobs_eq rfl
    · split
      · exact .of_jobs_eq rfl
      · rename_i hrr
        dsimp only
        split
        · refine .putJob hr rfl ⟨fun _ => rfl, .inr ?_, .inr rfl⟩ fun _ => rfl
          rw [hrr]
          exact .reconcile
        · exact .putJob hr rfl DeploymentRecord.SameView.refl.advances fun _ => rfl
      · exact .of_jobs_eq rfl

theorem registerStream_carries : Carries true s (registerStream id s).2 := by
  unfold registerStream
  split
  · exact .of_jobs_eq rfl
  · rename_i record hr
    have hview : record.SameView { record with streamLeases := saturatingAdd u64Max record.streamLeases 1 } :=
      ⟨rfl, rfl, rfl, rfl⟩
    exact .putJob hr rfl hview.advances fun h => Bool.noConfusion h

theorem releaseStream_carries : Carries true s (releaseStream id s) := by
  unfold releaseStream
  split
  · exact .of_jobs_eq rfl
  · rename_i record hr
    have hview : record.SameView { record with streamLeases := record.streamLeases - 1 } :=
      ⟨rfl, rfl, rfl, rfl⟩
    exact .putJob hr rfl hview.advances fun h => Bool.noConfusion h

end Operations

/-- The operations on stream leases. -/
def Operation.streams : Operation → Bool
  | .registerStream _ | .releaseStream _ => true
  | _ => false

theorem Operation.apply_carries {op : Operation} {s : DeploymentRegistry} (hc : Consistent s) :
    Carries op.streams s (op.apply s) := by
  cases op with
  | reserveSubmission iter requestId deploymentId plan => exact reserveSubmission_carries
  | rejectSubmission requestId message => exact .of_jobs_eq (rejectSubmission_effect requestId).1
  | register requestId deploymentId reserved => exact register_carries
  | observeStatus deploymentId status => exact observeStatus_carries
  | finalize deploymentId status claimStatus => exact finalize_carries hc
  | cancel deploymentId => exact cancel_carries
  | acknowledge deploymentId => exact acknowledge_carries
  | acknowledgeSubmission requestId => exact .of_jobs_eq (acknowledgeSubmission_effect requestId).1
  | registerStream deploymentId => exact registerStream_carries
  | releaseStream deploymentId => exact releaseStream_carries
  | releaseUnresolved deploymentId confirmed => exact releaseUnresolved_carries
  | reconcile deploymentId manifestPresent => exact reconcile_carries

section Runs

variable {ops : List Operation} {s t : System} {op : Operation} {id : DeploymentId}
  {old mid new : DeploymentRecord}

/-- Revisions are 64-bit numbers. -/
def RevisionsBounded (s : DeploymentRegistry) : Prop :=
  ∀ id job, s.jobs.lookup id = some job → job.revision ≤ 2 ^ 64 - 1

theorem Carries.bounded {streams : Bool} {s t : DeploymentRegistry} (h : Carries streams s t) (hb : RevisionsBounded s) :
    RevisionsBounded t := by
  intro id new hn
  rcases h id new hn with ⟨old, ho, ha, -⟩ | ⟨-, hr, -⟩
  · exact ha.revision_bounded (hb id old ho)
  · omega

/-- What the history of jobs needs to know of a registry. -/
def Sane (s : System) : Prop := Consistent s.registry ∧ RevisionsBounded s.registry

theorem System.Step.carries (hs : System.Step s op t) (hc : Consistent s.registry) :
    Carries op.streams s.registry t.registry := by
  cases hs with
  | mk enabled => exact op.apply_carries hc

theorem System.Step.sane (hs : System.Step s op t) (h : Sane s) : Sane t :=
  ⟨hs.consistent h.1, (hs.carries h.1).bounded h.2⟩

theorem sane_of_run (h : Run System.Step {} ops s) : Sane s := by
  have hempty : Sane {} := ⟨consistent_empty, fun id job hj => by simp at hj⟩
  exact h.invariant hempty fun _ _ _ hi hs => hs.sane hi

theorem System.Step.advances (hs : System.Step s op t) (h : Sane s)
    (ho : s.registry.jobs.lookup id = some old) (hn : t.registry.jobs.lookup id = some new) :
    old.Advances new := by
  rcases hs.carries h.1 id new hn with ⟨old', ho', ha, -⟩ | ⟨hnone, -⟩
  · rw [Option.some.inj (ho.symm.trans ho')]
    exact ha
  · rw [ho] at hnone
    cases hnone

/-- A step of one job's history: its deployment is still registered afterwards. -/
def StepKeeping (id : DeploymentId) (s : System) (op : Operation) (t : System) : Prop :=
  System.Step s op t ∧ id ∈ t.registry.jobs

/-- Two records of one job, the second the later one. -/
structure Follows (id : DeploymentId) (old new : DeploymentRecord) : Prop where
  terminal : old.status.isFinished = true → new.status = old.status
  claim : Relation.ReflTransGen ClaimMove old.claim new.claim
  revision_le : old.revision ≤ new.revision
  snapshot_eq : new.revision = old.revision → old.revision < 2 ^ 64 - 1 →
    snapshotOf id new = snapshotOf id old

theorem Follows.refl : Follows id old old := ⟨fun _ => rfl, .refl, le_refl _, fun _ _ => rfl⟩

theorem Follows.advance (h : Follows id old mid) (ha : mid.Advances new)
    (hb : mid.revision ≤ 2 ^ 64 - 1) : Follows id old new where
  terminal := by
    intro hf
    have hmid := h.terminal hf
    rw [ha.terminal (by rw [hmid]; exact hf), hmid]
  claim := by
    rcases ha.claim with hc | hc
    · rw [hc]
      exact h.claim
    · exact h.claim.tail hc
  revision_le := le_trans h.revision_le (ha.revision_le hb)
  snapshot_eq := by
    intro hr hlt
    have hle := h.revision_le
    have hle' := ha.revision_le hb
    have hmid : mid.revision = old.revision := by omega
    have hview : snapshotOf id new = snapshotOf id mid := by
      by_contra hn
      have hgt := ha.revision_lt hn (by omega)
      omega
    rw [hview]
    exact h.snapshot_eq hmid hlt

theorem follows_of_run {later : List Operation} (h : Run (StepKeeping id) s later t) (hs : Sane s)
    (ho : s.registry.jobs.lookup id = some old) :
    Sane t ∧ ∃ new, t.registry.jobs.lookup id = some new ∧ Follows id old new := by
  refine h.invariant (I := fun u => Sane u ∧ ∃ new, u.registry.jobs.lookup id = some new ∧
    Follows id old new) ⟨hs, old, ho, .refl⟩ ?_
  rintro u op v ⟨hu, mid, hm, hf⟩ ⟨hstep, hmem⟩
  obtain ⟨new, hn⟩ := Table.lookup_of_mem hmem
  exact ⟨hstep.sane hu, new, hn, hf.advance (hstep.advances hu hm hn) (hu.2 id mid hm)⟩

/-- From every reachable state. One operation keeps a finished status, makes at
most one of the claim moves, never lowers the revision and raises it with every
change that a snapshot shows. Along the whole history of a job the same holds,
so two of its snapshots of one revision are equal. -/
theorem job_transitions (h : Run System.Step {} ops s) :
    (∀ op t, System.Step s op t → ∀ id old new, s.registry.jobs.lookup id = some old →
      t.registry.jobs.lookup id = some new →
        (old.status.isFinished = true → new.status = old.status) ∧
        (new.claim = old.claim ∨ ClaimMove old.claim new.claim) ∧ old.revision ≤ new.revision ∧
        (snapshotOf id new ≠ snapshotOf id old → old.revision < 2 ^ 64 - 1 →
          old.revision < new.revision)) ∧
    ∀ id later t, Run (StepKeeping id) s later t → ∀ old new,
      s.registry.jobs.lookup id = some old → t.registry.jobs.lookup id = some new →
        (old.status.isFinished = true → new.status = old.status) ∧
        Relation.ReflTransGen ClaimMove old.claim new.claim ∧ old.revision ≤ new.revision ∧
        (new.revision = old.revision → old.revision < 2 ^ 64 - 1 →
          snapshotOf id new = snapshotOf id old) := by
  have hsane := sane_of_run h
  refine ⟨fun op t hs id old new ho hn => ?_, fun id later t hr old new ho hn => ?_⟩
  · have ha := hs.advances hsane ho hn
    exact ⟨ha.terminal, ha.claim, ha.revision_le (hsane.2 id old ho), ha.revision_lt⟩
  · obtain ⟨-, new', hn', hf⟩ := follows_of_run hr hsane ho
    rw [Option.some.inj (hn.symm.trans hn')]
    exact ⟨hf.terminal, hf.claim, hf.revision_le, hf.snapshot_eq⟩

/-- A deployment is accepted, -/
private def acceptance : List Operation :=
  [.reserveSubmission (.stored _ _) ⟨1⟩ ⟨2⟩ ⟨"plan"⟩, .register ⟨1⟩ ⟨2⟩ (.ok ⟨1, ["machine"]⟩)]

private def accepted : System :=
  acceptance.foldl (fun s op => ⟨op.apply s.registry, op.leases s⟩) {}

/-- and then cancelled, left for reconciliation and reconciled. -/
private def reconciliation : List Operation :=
  [.cancel ⟨2⟩, .finalize ⟨2⟩ (.reconciliationRequired "crashed") .reconciliationRequired,
    .reconcile ⟨2⟩ false]

theorem job_transitions_reconciled :
    ∃ (t : System) (old new : DeploymentRecord), Run System.Step {} acceptance accepted ∧
      Run (StepKeeping ⟨2⟩) accepted reconciliation t ∧ accepted.registry.jobs.lookup ⟨2⟩ = some old ∧
      t.registry.jobs.lookup ⟨2⟩ = some new ∧ old.claim = .held ∧ new.claim = .reconciled ∧
      new.revision = 4 ∧ Relation.ReflTransGen ClaimMove old.claim new.claim ∧
      old.revision ≤ new.revision := by
  have hrun : Run System.Step {} acceptance accepted := .snoc (.snoc .nil ⟨trivial⟩) ⟨trivial⟩
  have hlater : Run (StepKeeping ⟨2⟩) accepted reconciliation _ :=
    .snoc (.snoc (.snoc .nil ⟨⟨trivial⟩, by decide⟩) ⟨⟨trivial⟩, by decide⟩) ⟨⟨trivial⟩, by decide⟩
  have hall := (job_transitions hrun).2 ⟨2⟩ reconciliation _ hlater _ _ rfl rfl
  exact ⟨_, _, _, hrun, hlater, rfl, rfl, rfl, rfl, rfl, hall.2.1, hall.2.2.1⟩

end Runs

end Lasper.Jobs
