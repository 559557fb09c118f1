import Lasper.Jobs.System

/-! What each operation does to any one job and to any one submission. A job is
registered once, rewritten without changing the submission it names, and
evicted only when its claim is given up and no stream is leased; callers other
than its own tasks never change its status or its leases, and a pending
submission stays until the handler that reserved it decides. -/

namespace Lasper.Jobs

open Lib DeploymentRegistry

/-- Only the handler that accepted a job, its executor and its forwarder make these calls. -/
def Operation.Owned (id : DeploymentId) : Operation → Prop
  | .observeStatus id' _ | .finalize id' _ _ | .registerStream id' | .releaseStream id' => id' = id
  | _ => False

/-- Only the handler that reserved a submission decides it. -/
def Operation.Decides (requestId : DeploymentRequestId) : Operation → Prop
  | .rejectSubmission requestId' _ | .register requestId' _ _ => requestId' = requestId
  | _ => False

namespace DeploymentRecord

def Pinned (job : DeploymentRecord) : Prop := job.claim = .held ∨ job.streamLeases ≠ 0

/-- What callers other than a job's own tasks can do to its record. -/
structure Evolves (old new : DeploymentRecord) : Prop where
  status_eq : new.status = old.status
  leases_eq : new.streamLeases = old.streamLeases
  claim : new.claim = old.claim ∨ (old.claim = .reconciliationRequired ∧
    (new.claim = .reconciled ∨ new.claim = .releasedUnresolved))

variable {a b c : DeploymentRecord}

theorem Evolves.refl : Evolves a a := ⟨rfl, rfl, .inl rfl⟩

theorem Evolves.held (h : Evolves a b) (hh : a.claim = .held) : b.claim = .held := by
  rcases h.claim with h | ⟨h, -⟩
  · rw [h, hh]
  · simp [hh] at h

theorem Evolves.pinned (h : Evolves a b) (hp : a.Pinned) : b.Pinned :=
  hp.imp h.held fun hl => h.leases_eq ▸ hl

theorem Pinned.not_evictable (h : a.Pinned) : a.evictable = false := by
  rcases h with h | h <;> simp [evictable, h]

end DeploymentRecord

/-- The effect of an operation on one job, from its record before to its record after. -/
def Operation.JobEffect (op : Operation) (id : DeploymentId) (before after : Option DeploymentRecord) : Prop :=
  after = before ∨
  (∃ old, before = some old ∧ ¬ old.Pinned ∧ after = none) ∨
  (∃ old new, before = some old ∧ after = some new ∧ new.requestId = old.requestId ∧
    (¬ op.Owned id → old.Evolves new)) ∨
  (before = none ∧ ∃ new requestId reserved, op = .register requestId id reserved ∧ after = some new ∧
    new.requestId = requestId ∧ new.status = .running ∧ new.claim = .held)

/-- The effect of an operation on one submission. -/
def Operation.SubmissionEffect (op : Operation) (requestId : DeploymentRequestId)
    (before after : Option DeploymentSubmissionRecord) : Prop :=
  after = before ∨
  (∃ old, before = some old ∧ old.status ≠ .pending ∧ after = none) ∨
  (∃ old new, before = some old ∧ after = some new ∧ new.identity = old.identity ∧
    (¬ op.Decides requestId → new.status = old.status)) ∨
  (before = none ∧ ∃ new iter deploymentId plan, op = .reserveSubmission iter requestId deploymentId plan ∧
    after = some new ∧ new.status = .pending ∧ new.identity.deploymentId = deploymentId)

section Effects
variable {s : DeploymentRegistry} {op : Operation} {requestId requestId' : DeploymentRequestId}
  {id id' : DeploymentId}

/-- Rewriting the record of a registered job. -/
theorem jobEffect_putJob {old new : DeploymentRecord} (ho : s.jobs.lookup id' = some old)
    (hr : new.requestId = old.requestId) (he : ¬ op.Owned id' → old.Evolves new) :
    op.JobEffect id (s.jobs.lookup id) ((s.bump.putJob id' new).jobs.lookup id) := by
  simp only [DeploymentRegistry.putJob, Table.lookup_insert_ite]
  split_ifs with hid
  · subst hid
    exact .inr (.inr (.inl ⟨old, new, ho, rfl, hr, he⟩))
  · exact .inl rfl

theorem submissionEffect_putSubmission {old new : DeploymentSubmissionRecord}
    (ho : s.submissions.lookup requestId' = some old) (hi : new.identity = old.identity)
    (hs : ¬ op.Decides requestId' → new.status = old.status) :
    op.SubmissionEffect requestId (s.submissions.lookup requestId)
      ((s.bump.putSubmission requestId' new).submissions.lookup requestId) := by
  simp only [DeploymentRegistry.putSubmission, Table.lookup_insert_ite]
  split_ifs with hid
  · subst hid
    exact .inr (.inr (.inl ⟨old, new, ho, rfl, hi, hs⟩))
  · exact .inl rfl

/-! ### Eviction -/

theorem evictOne_job (id : DeploymentId) {iter : SubmissionOrder} {s' : DeploymentRegistry}
    (he : evictOne iter s = some s') :
    s'.jobs.lookup id = s.jobs.lookup id ∨
      ∃ old, s.jobs.lookup id = some old ∧ ¬ old.Pinned ∧ s'.jobs.lookup id = none := by
  simp only [evictOne, Option.map_eq_some_iff] at he
  obtain ⟨entry, hc, rfl⟩ := he
  obtain ⟨hl, hev⟩ := mem_of_evictionCandidate hc
  rw [hl]
  split
  · rename_i identity victim acknowledged sequence heq
    simp only [Table.lookup_erase_ite]
    split_ifs with hv
    · subst hv
      rw [Option.some.inj heq] at hev
      cases hj : s.jobs.lookup id with
      | none => exact .inl rfl
      | some old =>
        refine .inr ⟨old, rfl, fun hp => ?_, rfl⟩
        simp [evictable, hj, hp.not_evictable] at hev
    · exact .inl rfl
  · exact .inl rfl

theorem evictOne_submission (requestId : DeploymentRequestId) {iter : SubmissionOrder}
    {s' : DeploymentRegistry} (he : evictOne iter s = some s') :
    s'.submissions.lookup requestId = s.submissions.lookup requestId ∨
      ∃ old, s.submissions.lookup requestId = some old ∧ old.status ≠ .pending ∧
        s'.submissions.lookup requestId = none := by
  simp only [evictOne, Option.map_eq_some_iff] at he
  obtain ⟨entry, hc, rfl⟩ := he
  obtain ⟨hl, hev⟩ := mem_of_evictionCandidate hc
  have hnp : entry.2.status ≠ .pending := by
    intro hp
    simp [evictable, hp] at hev
  rcases eq_or_ne requestId entry.1 with rfl | hne
  · refine .inr ⟨entry.2, hl, hnp, ?_⟩
    split <;> exact AList.lookup_erase _ _
  · left
    split <;> exact AList.lookup_erase_ne hne

/-- What every eviction keeps, making room keeps. -/
theorem makeRoom_induct {iter : SubmissionOrder} {P : DeploymentRegistry → Prop}
    (he : ∀ t t', evictOne iter t = some t' → P t → P t') (fuel : ℕ) (h : P s) :
    P (makeRoom iter fuel s).2 := by
  induction fuel generalizing s with
  | zero => exact h
  | succ fuel ih =>
    simp only [makeRoom]
    split_ifs
    · split
      · exact h
      · rename_i s' hs
        exact ih (he s s' hs h)
    · exact h

/-- Making room evicts a job or leaves it alone. -/
theorem makeRoom_job (iter : SubmissionOrder) (fuel : ℕ) (s : DeploymentRegistry) (id : DeploymentId) :
    (makeRoom iter fuel s).2.jobs.lookup id = s.jobs.lookup id ∨
      ∃ old, s.jobs.lookup id = some old ∧ ¬ old.Pinned ∧ (makeRoom iter fuel s).2.jobs.lookup id = none := by
  refine makeRoom_induct (P := fun t => t.jobs.lookup id = s.jobs.lookup id ∨
    ∃ old, s.jobs.lookup id = some old ∧ ¬ old.Pinned ∧ t.jobs.lookup id = none) ?_ fuel (.inl rfl)
  intro t t' ht h
  rcases evictOne_job id ht with he | ⟨old', ho', hp', hn'⟩
  · rwa [he]
  · rcases h with h | ⟨old, ho, hp, hn⟩
    · exact .inr ⟨old', h ▸ ho', hp', hn'⟩
    · exact .inr ⟨old, ho, hp, hn'⟩

theorem makeRoom_submission (iter : SubmissionOrder) (fuel : ℕ) (s : DeploymentRegistry)
    (requestId : DeploymentRequestId) :
    (makeRoom iter fuel s).2.submissions.lookup requestId = s.submissions.lookup requestId ∨
      ∃ old, s.submissions.lookup requestId = some old ∧ old.status ≠ .pending ∧
        (makeRoom iter fuel s).2.submissions.lookup requestId = none := by
  refine makeRoom_induct (P := fun t => t.submissions.lookup requestId = s.submissions.lookup requestId ∨
    ∃ old, s.submissions.lookup requestId = some old ∧ old.status ≠ .pending ∧
      t.submissions.lookup requestId = none) ?_ fuel (.inl rfl)
  intro t t' ht h
  rcases evictOne_submission requestId ht with he | ⟨old', ho', hp', hn'⟩
  · rwa [he]
  · rcases h with h | ⟨old, ho, hp, hn⟩
    · exact .inr ⟨old', h ▸ ho', hp', hn'⟩
    · exact .inr ⟨old, ho, hp, hn'⟩

/-! ### The operations -/

theorem reserveSubmission_effect (requestId : DeploymentRequestId) (id : DeploymentId) {iter : SubmissionOrder}
    {plan : PlanFingerprint} :
    (Operation.reserveSubmission iter requestId' id' plan).JobEffect id (s.jobs.lookup id)
        ((reserveSubmission iter requestId' id' plan s).2.jobs.lookup id) ∧
      (Operation.reserveSubmission iter requestId' id' plan).SubmissionEffect requestId
        (s.submissions.lookup requestId)
        ((reserveSubmission iter requestId' id' plan s).2.submissions.lookup requestId) := by
  have hj := makeRoom_job iter s.submissions.len s id
  have hs := makeRoom_submission iter s.submissions.len s requestId
  unfold reserveSubmission
  dsimp only
  split
  · exact ⟨.inl rfl, .inl rfl⟩
  · rename_i hnone
    split <;> rename_i s' he <;> rw [he] at hj hs
    · exact ⟨hj.imp_right .inl, hs.imp_right .inl⟩
    · refine ⟨hj.imp_right .inl, ?_⟩
      simp only [DeploymentRegistry.putSubmission, Table.lookup_insert_ite]
      split_ifs with hr
      · subst hr
        exact .inr (.inr (.inr ⟨hnone, _, iter, id', plan, rfl, rfl, rfl, rfl⟩))
      · exact hs.imp_right .inl

theorem rejectSubmission_effect (requestId : DeploymentRequestId) {message : String} :
    (rejectSubmission requestId' message s).jobs = s.jobs ∧
      (Operation.rejectSubmission requestId' message).SubmissionEffect requestId
        (s.submissions.lookup requestId)
        ((rejectSubmission requestId' message s).submissions.lookup requestId) := by
  unfold rejectSubmission
  split
  · rename_i record hr
    exact ⟨rfl, submissionEffect_putSubmission hr rfl fun hd => absurd rfl hd⟩
  · exact ⟨rfl, .inl rfl⟩

theorem acknowledgeSubmission_effect (requestId : DeploymentRequestId) :
    (acknowledgeSubmission requestId' s).2.jobs = s.jobs ∧
      (Operation.acknowledgeSubmission requestId').SubmissionEffect requestId
        (s.submissions.lookup requestId)
        ((acknowledgeSubmission requestId' s).2.submissions.lookup requestId) := by
  unfold acknowledgeSubmission
  split
  · exact ⟨rfl, .inl rfl⟩
  · rename_i record hr
    split_ifs
    · exact ⟨rfl, .inl rfl⟩
    · exact ⟨rfl, submissionEffect_putSubmission hr rfl fun _ => rfl⟩

theorem register_effect (requestId : DeploymentRequestId) (id : DeploymentId) {reserved : Except String ResourceReservation} :
    (Operation.register requestId' id' reserved).JobEffect id (s.jobs.lookup id)
        ((register requestId' id' reserved s).2.jobs.lookup id) ∧
      (Operation.register requestId' id' reserved).SubmissionEffect requestId
        (s.submissions.lookup requestId)
        ((register requestId' id' reserved s).2.submissions.lookup requestId) := by
  unfold register
  split
  · exact ⟨.inl rfl, .inl rfl⟩
  · rename_i submission hsub
    split_ifs with _ _ hmem
    · exact ⟨.inl rfl, .inl rfl⟩
    · exact ⟨.inl rfl, .inl rfl⟩
    · exact ⟨.inl rfl, .inl rfl⟩
    · split
      · exact ⟨.inl rfl, .inl rfl⟩
      · rename_i reservation
        dsimp only
        have hjob : ∀ record : DeploymentRecord, record.requestId = requestId' → record.status = .running →
            record.claim = .held → (Operation.register requestId' id' (.ok reservation)).JobEffect id
              (s.jobs.lookup id) ((s.bump.putJob id' record).jobs.lookup id) := by
          intro record hr hrun hh
          simp only [DeploymentRegistry.putJob, Table.lookup_insert_ite]
          split_ifs with hid
          · subst hid
            have hnone : s.jobs.lookup id = none := AList.lookup_eq_none.mpr hmem
            exact .inr (.inr (.inr ⟨hnone, record, requestId', _, rfl, rfl, hr, hrun, hh⟩))
          · exact .inl rfl
        split
        · exact ⟨hjob _ rfl rfl rfl, .inl rfl⟩
        · rename_i submission' hsub'
          exact ⟨hjob _ rfl rfl rfl, submissionEffect_putSubmission hsub' rfl fun hd => absurd rfl hd⟩

theorem observeStatus_effect (id : DeploymentId) {status : DeploymentStatus} :
    (Operation.observeStatus id' status).JobEffect id (s.jobs.lookup id)
        ((observeStatus id' status s).2.jobs.lookup id) ∧
      (observeStatus id' status s).2.submissions = s.submissions := by
  unfold observeStatus
  split_ifs
  · exact ⟨.inl rfl, rfl⟩
  · split
    · exact ⟨.inl rfl, rfl⟩
    · rename_i record hr
      split_ifs
      · exact ⟨.inl rfl, rfl⟩
      all_goals exact ⟨jobEffect_putJob hr rfl fun ho => absurd rfl ho, rfl⟩

theorem finalize_effect (id : DeploymentId) {status : DeploymentStatus} {claimStatus : DeploymentClaimStatus} :
    (Operation.finalize id' status claimStatus).JobEffect id (s.jobs.lookup id)
        ((finalize id' status claimStatus s).2.jobs.lookup id) ∧
      (finalize id' status claimStatus s).2.submissions = s.submissions := by
  unfold finalize
  split
  · exact ⟨.inl rfl, rfl⟩
  · split
    · exact ⟨.inl rfl, rfl⟩
    · rename_i record hr
      split_ifs
      · exact ⟨.inl rfl, rfl⟩
      · exact ⟨.inl rfl, rfl⟩
      all_goals exact ⟨jobEffect_putJob hr rfl fun ho => absurd rfl ho, rfl⟩

theorem cancel_effect (id : DeploymentId) :
    (Operation.cancel id').JobEffect id (s.jobs.lookup id) ((cancel id' s).2.jobs.lookup id) ∧
      (cancel id' s).2.submissions = s.submissions := by
  unfold cancel
  split
  · exact ⟨.inl rfl, rfl⟩
  · rename_i record hr
    split_ifs
    · exact ⟨.inl rfl, rfl⟩
    all_goals exact ⟨jobEffect_putJob hr rfl fun _ => ⟨rfl, rfl, .inl rfl⟩, rfl⟩

theorem acknowledge_effect (id : DeploymentId) :
    (Operation.acknowledge id').JobEffect id (s.jobs.lookup id) ((acknowledge id' s).2.jobs.lookup id) ∧
      (acknowledge id' s).2.submissions = s.submissions := by
  unfold acknowledge
  split
  · exact ⟨.inl rfl, rfl⟩
  · split_ifs
    · exact ⟨.inl rfl, rfl⟩
    · exact ⟨.inl rfl, rfl⟩
    · dsimp only
      split
      · exact ⟨.inl rfl, rfl⟩
      · split_ifs
        · exact ⟨.inl rfl, rfl⟩
        · split
          · exact ⟨.inl rfl, rfl⟩
          · rename_i record hr
            exact ⟨jobEffect_putJob hr rfl fun _ => ⟨rfl, rfl, .inl rfl⟩, rfl⟩

theorem releaseUnresolved_effect (id : DeploymentId) {confirmed : Bool} :
    (Operation.releaseUnresolved id' confirmed).JobEffect id (s.jobs.lookup id)
        ((releaseUnresolved id' confirmed s).2.jobs.lookup id) ∧
      (releaseUnresolved id' confirmed s).2.submissions = s.submissions := by
  unfold releaseUnresolved
  split_ifs
  · exact ⟨.inl rfl, rfl⟩
  · split
    · exact ⟨.inl rfl, rfl⟩
    · rename_i record hr
      split_ifs with hc
      · exact ⟨.inl rfl, rfl⟩
      · have hrr : record.claim = .reconciliationRequired := by
          simpa using fun hn => hc (.inr hn)
        exact ⟨jobEffect_putJob hr rfl fun _ => ⟨rfl, rfl, .inr ⟨hrr, .inr rfl⟩⟩, rfl⟩

theorem reconcile_effect (id : DeploymentId) {manifestPresent : Bool} :
    (Operation.reconcile id' manifestPresent).JobEffect id (s.jobs.lookup id)
        ((reconcile id' manifestPresent s).2.jobs.lookup id) ∧
      (reconcile id' manifestPresent s).2.submissions = s.submissions := by
  unfold reconcile
  split
  · exact ⟨.inl rfl, rfl⟩
  · rename_i record hr
    split
    · exact ⟨.inl rfl, rfl⟩
    · split
      · exact ⟨.inl rfl, rfl⟩
      · rename_i hc
        dsimp only
        refine ⟨jobEffect_putJob hr (by split_ifs <;> rfl) fun _ => ?_, rfl⟩
        split_ifs
        · exact ⟨rfl, rfl, .inr ⟨hc, .inl rfl⟩⟩
        · exact .refl
      · exact ⟨.inl rfl, rfl⟩

theorem registerStream_effect (id : DeploymentId) :
    (Operation.registerStream id').JobEffect id (s.jobs.lookup id) ((registerStream id' s).2.jobs.lookup id) ∧
      (registerStream id' s).2.submissions = s.submissions := by
  unfold registerStream
  split
  · exact ⟨.inl rfl, rfl⟩
  · rename_i record hr
    exact ⟨jobEffect_putJob (s := s) hr rfl fun ho => absurd rfl ho, rfl⟩

theorem releaseStream_effect (id : DeploymentId) :
    (Operation.releaseStream id').JobEffect id (s.jobs.lookup id) ((releaseStream id' s).jobs.lookup id) ∧
      (releaseStream id' s).submissions = s.submissions := by
  unfold releaseStream
  split
  · exact ⟨.inl rfl, rfl⟩
  · rename_i record hr
    exact ⟨jobEffect_putJob (s := s) hr rfl fun ho => absurd rfl ho, rfl⟩

end Effects

section Operation
variable {s : DeploymentRegistry} {op : Operation} {id : DeploymentId} {job : DeploymentRecord}

theorem Operation.apply_job (op : Operation) (id : DeploymentId) (s : DeploymentRegistry) :
    op.JobEffect id (s.jobs.lookup id) ((op.apply s).jobs.lookup id) := by
  cases op with
  | reserveSubmission iter requestId deploymentId plan =>
    exact (reserveSubmission_effect requestId id).1
  | rejectSubmission requestId message =>
    exact .inl (by rw [apply, (rejectSubmission_effect requestId).1])
  | register requestId deploymentId reserved => exact (register_effect requestId id).1
  | observeStatus deploymentId status => exact (observeStatus_effect id).1
  | finalize deploymentId status claimStatus => exact (finalize_effect id).1
  | cancel deploymentId => exact (cancel_effect id).1
  | acknowledge deploymentId => exact (acknowledge_effect id).1
  | acknowledgeSubmission requestId =>
    exact .inl (by rw [apply, (acknowledgeSubmission_effect requestId).1])
  | registerStream deploymentId => exact (registerStream_effect id).1
  | releaseStream deploymentId => exact (releaseStream_effect id).1
  | releaseUnresolved deploymentId confirmed => exact (releaseUnresolved_effect id).1
  | reconcile deploymentId manifestPresent => exact (reconcile_effect id).1

theorem Operation.apply_submission (op : Operation) (requestId : DeploymentRequestId)
    (s : DeploymentRegistry) :
    op.SubmissionEffect requestId (s.submissions.lookup requestId)
      ((op.apply s).submissions.lookup requestId) := by
  cases op with
  | reserveSubmission iter requestId' deploymentId plan =>
    exact (reserveSubmission_effect requestId deploymentId).2
  | rejectSubmission requestId' message => exact (rejectSubmission_effect requestId).2
  | register requestId' deploymentId reserved => exact (register_effect requestId deploymentId).2
  | observeStatus deploymentId status =>
    exact .inl (by rw [apply, (observeStatus_effect deploymentId).2])
  | finalize deploymentId status claimStatus =>
    exact .inl (by rw [apply, (finalize_effect deploymentId).2])
  | cancel deploymentId => exact .inl (by rw [apply, (cancel_effect deploymentId).2])
  | acknowledge deploymentId => exact .inl (by rw [apply, (acknowledge_effect deploymentId).2])
  | acknowledgeSubmission requestId' => exact (acknowledgeSubmission_effect requestId).2
  | registerStream deploymentId =>
    exact .inl (by rw [apply, (registerStream_effect deploymentId).2])
  | releaseStream deploymentId =>
    exact .inl (by rw [apply, (releaseStream_effect deploymentId).2])
  | releaseUnresolved deploymentId confirmed =>
    exact .inl (by rw [apply, (releaseUnresolved_effect deploymentId).2])
  | reconcile deploymentId manifestPresent =>
    exact .inl (by rw [apply, (reconcile_effect deploymentId).2])

/-- Whatever other callers do, a pinned job stays, with its status and its leases. -/
theorem Operation.apply_keeps (ho : ¬ op.Owned id) (h : s.jobs.lookup id = some job) (hp : job.Pinned) :
    ∃ job', (op.apply s).jobs.lookup id = some job' ∧ job'.requestId = job.requestId ∧ job.Evolves job' := by
  have he := op.apply_job id s
  rw [h] at he
  rcases he with he | ⟨old, ho', hn, -⟩ | ⟨old, new, ho', hn, hr, he⟩ | ⟨hn, -⟩
  · exact ⟨job, he, rfl, .refl⟩
  · cases ho'
    exact absurd hp hn
  · cases ho'
    exact ⟨new, hn, hr, he ho⟩
  · cases hn

end Operation

/-! ### Calls that succeed -/

theorem register_ok {requestId : DeploymentRequestId} {id : DeploymentId}
    {reserved : Except String ResourceReservation} {s t : DeploymentRegistry}
    (h : register requestId id reserved s = (.ok (), t)) :
    (∃ job, t.jobs.lookup id = some job ∧ job.requestId = requestId ∧ job.status = .running ∧ job.claim = .held) ∧
      ∃ record, t.submissions.lookup requestId = some record ∧ record.status = .accepted id := by
  unfold register at h
  split at h
  · cases h
  · split_ifs at h
    · cases h
    · cases h
    · cases h
    · split at h
      · cases h
      · dsimp only at h
        split at h
        · cases h
        · cases h
          exact ⟨⟨_, AList.lookup_insert _, rfl, rfl, rfl⟩, _, AList.lookup_insert _, rfl⟩

section Results
variable {s : DeploymentRegistry} {id : DeploymentId} {job : DeploymentRecord}

theorem finalize_ok {terminal : DeploymentTerminal} {claim : DeploymentClaimState}
    (hj : s.jobs.lookup id = some job) (hn : job.status.isFinished = false)
    (hc : terminalClaimState terminal.status terminal.claimStatus = .ok claim) :
    ∃ snapshot registry job', finalize id terminal.status terminal.claimStatus s = (.ok snapshot, registry) ∧
      registry.jobs.lookup id = some job' ∧ job'.status = terminal.status ∧ job'.claim = claim ∧
      job'.streamLeases = job.streamLeases ∧ job'.requestId = job.requestId := by
  simp only [finalize, hc, hj, hn]
  exact ⟨_, _, _, rfl, AList.lookup_insert _, rfl, rfl, rfl, rfl⟩

theorem observeStatus_ok {status : DeploymentStatus} (hj : s.jobs.lookup id = some job)
    (hn : job.status.isFinished = false) (hs : status.isFinished = false) :
    ∃ snapshot registry job', observeStatus id status s = (.ok snapshot, registry) ∧
      snapshot.status = status ∧ registry.jobs.lookup id = some job' ∧ job'.status = status ∧
      job'.claim = job.claim ∧ job'.streamLeases = job.streamLeases ∧ job'.requestId = job.requestId := by
  by_cases he : status = job.status
  · refine ⟨snapshotOf id job, s.bump.putJob id job, job, ?_, he.symm, AList.lookup_insert _, he.symm,
      rfl, rfl, rfl⟩
    subst he
    simp [observeStatus, hj, hn]
  · let record : DeploymentRecord := { job with
      revision := saturatingAdd u64Max job.revision 1
      status := status
      sequence := s.bump.nextSequence }
    refine ⟨snapshotOf id record, s.bump.putJob id record, record, ?_, rfl, AList.lookup_insert _, rfl,
      rfl, rfl, rfl⟩
    simp [observeStatus, hj, hn, hs, he, record]

/-- A finished status, or a finished job, is not observed. -/
theorem observeStatus_late (status : DeploymentStatus) (hj : s.jobs.lookup id = some job)
    (hn : job.status.isFinished = true) :
    ∃ failure, (observeStatus id status s).1 = .error failure ∧ (observeStatus id status s).2.jobs = s.jobs := by
  unfold observeStatus
  split_ifs
  · exact ⟨_, rfl, rfl⟩
  · rw [hj]
    simp only [hn, if_true]
    exact ⟨_, rfl, rfl⟩

end Results

end Lasper.Jobs
