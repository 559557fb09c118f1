import Lasper.Jobs.Registry
import Lasper.Lib.Runs

/-! The registry's representation invariant. A job's status, claim and
reservation agree; jobs and accepted submissions name each other one to one;
and the submission table bounds the job table. Every operation keeps it, so it
holds after every sequence of operations, and the `expect` calls and the
capacity check of `register` never fire. -/

namespace Lasper.Jobs

open Lib DeploymentRegistry

/-- Status, claim and reservation of one job. -/
structure JobConsistent (job : DeploymentRecord) : Prop where
  finished_iff : job.status.isFinished = true ↔ job.claim ≠ .held
  reserved_iff : job.reservation.isSome = true ↔
    job.claim = .held ∨ job.claim = .reconciliationRequired

/-- Submission `requestId` is accepted for `deploymentId`. -/
def Accepted (s : DeploymentRegistry) (requestId : DeploymentRequestId)
    (deploymentId : DeploymentId) : Prop :=
  ∃ submission, s.submissions.lookup requestId = some submission ∧
    submission.status = .accepted deploymentId

structure Consistent (s : DeploymentRegistry) : Prop where
  job : ∀ id job, s.jobs.lookup id = some job → JobConsistent job
  accepted_iff : ∀ id job, s.jobs.lookup id = some job →
    ∀ requestId, Accepted s requestId id ↔ requestId = job.requestId
  accepted_mem : ∀ requestId id, Accepted s requestId id → id ∈ s.jobs
  submissions_le : s.submissions.len ≤ maxDeploymentRecords

theorem consistent_empty : Consistent {} where
  job id job h := by simp at h
  accepted_iff id job h := by simp at h
  accepted_mem requestId id h := by obtain ⟨_, h, _⟩ := h; simp at h
  submissions_le := by simp [maxDeploymentRecords]

namespace Consistent

variable {s : DeploymentRegistry}

theorem submission_mem (h : Consistent s) {id : DeploymentId} {job : DeploymentRecord}
    (hj : s.jobs.lookup id = some job) : job.requestId ∈ s.submissions := by
  obtain ⟨submission, hs, -⟩ := (h.accepted_iff id job hj job.requestId).mpr rfl
  exact Table.mem_of_lookup hs

/-- The request named by a job, as a map from job ids to submissions. -/
private def owner (s : DeploymentRegistry) (fallback : DeploymentRequestId) (id : DeploymentId) :
    DeploymentRequestId :=
  ((s.jobs.lookup id).map DeploymentRecord.requestId).getD fallback

private theorem owner_mem (h : Consistent s) (fallback : DeploymentRequestId) {id : DeploymentId}
    (hid : id ∈ s.jobs) : Accepted s (owner s fallback id) id := by
  obtain ⟨job, hj⟩ := Table.lookup_of_mem hid
  simpa [owner, hj] using (h.accepted_iff id job hj job.requestId).mpr rfl

private theorem owner_inj (h : Consistent s) (fallback : DeploymentRequestId) {a b : DeploymentId}
    (ha : a ∈ s.jobs) (hb : b ∈ s.jobs) (he : owner s fallback a = owner s fallback b) : a = b := by
  obtain ⟨x, hx, hxs⟩ := owner_mem h fallback ha
  obtain ⟨y, hy, hys⟩ := owner_mem h fallback hb
  rw [he, hy] at hx
  cases hx
  rw [hys] at hxs
  cases hxs
  rfl

theorem jobs_le (h : Consistent s) : s.jobs.len ≤ s.submissions.len := by
  refine Table.len_le_of_injOn (owner s ⟨0⟩) (fun a ha => ?_) fun a ha b hb => owner_inj h ⟨0⟩ ha hb
  obtain ⟨submission, hs, -⟩ := owner_mem h ⟨0⟩ ha
  exact Table.mem_of_lookup hs

/-- A submission that is not accepted leaves room for one more job. -/
theorem jobs_lt (h : Consistent s) {requestId : DeploymentRequestId}
    {submission : DeploymentSubmissionRecord} (hs : s.submissions.lookup requestId = some submission)
    (hn : ∀ id, submission.status ≠ .accepted id) : s.jobs.len < s.submissions.len := by
  refine Table.len_lt_of_injOn (owner s ⟨0⟩) (fun a ha => ?_) (fun a ha b hb => owner_inj h ⟨0⟩ ha hb)
    (Table.mem_of_lookup hs) fun a ha he => ?_
  · obtain ⟨x, hx, -⟩ := owner_mem h ⟨0⟩ ha
    exact Table.mem_of_lookup hx
  · obtain ⟨x, hx, hxs⟩ := owner_mem h ⟨0⟩ ha
    rw [he, hs] at hx
    cases hx
    exact hn a hxs

/-! ### What the operations do to the tables -/

theorem bump (h : Consistent s) : Consistent s.bump := ⟨h.job, h.accepted_iff, h.accepted_mem, h.submissions_le⟩

/-- Rewriting a job's record, keeping the submission it names. -/
theorem putJob (h : Consistent s) {id : DeploymentId} {old new : DeploymentRecord}
    (ho : s.jobs.lookup id = some old) (hn : JobConsistent new) (hr : new.requestId = old.requestId) :
    Consistent (s.putJob id new) where
  job id' job hj := by
    simp only [DeploymentRegistry.putJob, Table.lookup_insert_ite] at hj
    split_ifs at hj with he
    · cases hj; exact hn
    · exact h.job id' job hj
  accepted_iff id' job hj requestId := by
    simp only [DeploymentRegistry.putJob, Table.lookup_insert_ite] at hj
    split_ifs at hj with he
    · cases hj
      rw [he, hr]
      exact h.accepted_iff id old ho requestId
    · exact h.accepted_iff id' job hj requestId
  accepted_mem requestId id' ha := (AList.mem_insert _).mpr (.inr (h.accepted_mem requestId id' ha))
  submissions_le := h.submissions_le

/-- Rewriting a submission without changing what it is accepted for. -/
theorem putSubmission (h : Consistent s) {requestId : DeploymentRequestId}
    {old new : DeploymentSubmissionRecord} (ho : s.submissions.lookup requestId = some old)
    (hn : ∀ id, new.status = .accepted id ↔ old.status = .accepted id) :
    Consistent (s.putSubmission requestId new) := by
  have hacc : ∀ r id, Accepted (s.putSubmission requestId new) r id ↔ Accepted s r id := by
    intro r id
    simp only [Accepted, DeploymentRegistry.putSubmission, Table.lookup_insert_ite]
    split_ifs with he
    · subst he; simp [ho, hn]
    · rfl
  refine ⟨h.job, fun id job hj r => (hacc r id).trans (h.accepted_iff id job hj r),
    fun r id ha => h.accepted_mem r id ((hacc r id).mp ha), ?_⟩
  simpa only [DeploymentRegistry.putSubmission, Table.len_insert_of_mem (Table.mem_of_lookup ho)]
    using h.submissions_le

/-- A fresh submission that is not accepted for anything yet. -/
theorem insertSubmission (h : Consistent s) {requestId : DeploymentRequestId}
    {new : DeploymentSubmissionRecord} (ho : s.submissions.lookup requestId = none)
    (hn : ∀ id, new.status ≠ .accepted id) (hl : s.submissions.len < maxDeploymentRecords) :
    Consistent (s.putSubmission requestId new) := by
  have hacc : ∀ r id, Accepted (s.putSubmission requestId new) r id ↔ Accepted s r id := by
    intro r id
    simp only [Accepted, DeploymentRegistry.putSubmission, Table.lookup_insert_ite]
    split_ifs with he
    · subst he; simp [ho, hn]
    · rfl
  refine ⟨h.job, fun id job hj r => (hacc r id).trans (h.accepted_iff id job hj r),
    fun r id ha => h.accepted_mem r id ((hacc r id).mp ha), ?_⟩
  simp only [DeploymentRegistry.putSubmission,
    Table.len_insert_of_notMem (AList.lookup_eq_none.mp ho)]
  omega

/-- Accepting a pending submission for a new job. -/
theorem accept (h : Consistent s) {requestId : DeploymentRequestId} {id : DeploymentId}
    {old new : DeploymentSubmissionRecord} {job : DeploymentRecord}
    (ho : s.submissions.lookup requestId = some old) (hp : old.status = .pending)
    (hn : new.status = .accepted id) (hid : id ∉ s.jobs) (hj : JobConsistent job)
    (hr : job.requestId = requestId) :
    Consistent ((s.putJob id job).putSubmission requestId new) := by
  have hacc : ∀ r id', Accepted ((s.putJob id job).putSubmission requestId new) r id' ↔
      (r = requestId ∧ id' = id) ∨ Accepted s r id' := by
    intro r id'
    simp only [Accepted, DeploymentRegistry.putSubmission, DeploymentRegistry.putJob,
      Table.lookup_insert_ite]
    split_ifs with he
    · subst he; simp [ho, hp, hn, eq_comm]
    · simp [he]
  refine ⟨fun id' job' hj' => ?_, fun id' job' hj' r => ?_, fun r id' ha => ?_, ?_⟩
  · simp only [DeploymentRegistry.putSubmission, DeploymentRegistry.putJob,
      Table.lookup_insert_ite] at hj'
    split_ifs at hj'
    · cases hj'; exact hj
    · exact h.job id' job' hj'
  · rw [hacc]
    simp only [DeploymentRegistry.putSubmission, DeploymentRegistry.putJob,
      Table.lookup_insert_ite] at hj'
    split_ifs at hj' with he
    · cases hj'
      subst he
      have : ¬ Accepted s r id' := fun ha => hid (h.accepted_mem r id' ha)
      simp [this, hr]
    · simp [he, h.accepted_iff id' job' hj' r]
  · rcases (hacc r id').mp ha with ⟨-, rfl⟩ | ha
    · exact (AList.mem_insert _).mpr (.inl rfl)
    · exact (AList.mem_insert _).mpr (.inr (h.accepted_mem r id' ha))
  · simpa only [DeploymentRegistry.putSubmission, DeploymentRegistry.putJob,
      Table.len_insert_of_mem (Table.mem_of_lookup ho)] using h.submissions_le

/-- Dropping a submission that has no job. -/
theorem dropSubmission (h : Consistent s) {requestId : DeploymentRequestId}
    (hn : ∀ id, ¬ Accepted s requestId id) :
    Consistent { s with submissions := s.submissions.erase requestId } := by
  have hacc : ∀ r id, Accepted { s with submissions := s.submissions.erase requestId } r id ↔
      Accepted s r id := by
    intro r id
    simp only [Accepted, Table.lookup_erase_ite]
    split_ifs with he
    · subst he; simpa [Accepted] using hn id
    · rfl
  refine ⟨h.job, fun id job hj r => (hacc r id).trans (h.accepted_iff id job hj r),
    fun r id ha => h.accepted_mem r id ((hacc r id).mp ha), le_trans ?_ h.submissions_le⟩
  simpa only [Table.len, AList.keys_erase] using List.length_erase_le

/-- Dropping an accepted submission together with its job. -/
theorem dropJob (h : Consistent s) {requestId : DeploymentRequestId} {id : DeploymentId}
    (ha : Accepted s requestId id) :
    Consistent { s with
      submissions := s.submissions.erase requestId
      jobs := s.jobs.erase id } := by
  obtain ⟨job, hj⟩ := Table.lookup_of_mem (h.accepted_mem requestId id ha)
  have hacc : ∀ r id', Accepted { s with
      submissions := s.submissions.erase requestId
      jobs := s.jobs.erase id } r id' ↔ r ≠ requestId ∧ Accepted s r id' := by
    intro r id'
    simp only [Accepted, Table.lookup_erase_ite]
    split_ifs with he <;> simp [he]
  refine ⟨fun id' job' hj' => ?_, fun id' job' hj' r => ?_, fun r id' ha' => ?_, le_trans ?_ h.submissions_le⟩
  · simp only [Table.lookup_erase_ite] at hj'
    split_ifs at hj'
    exact h.job id' job' hj'
  · simp only [Table.lookup_erase_ite] at hj'
    split_ifs at hj' with he
    rw [hacc, h.accepted_iff id' job' hj' r]
    refine ⟨And.right, fun hr => ⟨fun hq => he ?_, hr⟩⟩
    -- `requestId` cannot be accepted for two jobs
    have hb := (h.accepted_iff id' job' hj' requestId).mpr (hq ▸ hr)
    obtain ⟨x, hx, hxs⟩ := ha
    obtain ⟨y, hy, hys⟩ := hb
    rw [hx] at hy
    cases hy
    rw [hxs] at hys
    cases hys
    rfl
  · obtain ⟨hne, hb⟩ := (hacc r id').mp ha'
    refine AList.mem_erase.mpr ⟨fun he => hne ?_, h.accepted_mem r id' hb⟩
    subst he
    rw [(h.accepted_iff id' job hj r).mp hb, (h.accepted_iff id' job hj requestId).mp ha]
  · simpa only [Table.len, AList.keys_erase] using List.length_erase_le

end Consistent

/-! ### Operations -/

section Operations
variable {s : DeploymentRegistry} {requestId : DeploymentRequestId} {id : DeploymentId}

theorem mem_of_evictionCandidate {iter : SubmissionOrder}
    {entry : Σ _ : DeploymentRequestId, DeploymentSubmissionRecord}
    (h : evictionCandidate iter s = some entry) :
    s.submissions.lookup entry.1 = some entry.2 ∧ evictable s entry.2 = true := by
  obtain ⟨hm, he⟩ := List.mem_filter.mp (minByKey_mem _ h)
  refine ⟨?_, he⟩
  have := (iter.perm s.submissions.entries).mem_iff.mp hm
  exact AList.mem_lookup_iff.mpr this

theorem evictOne_consistent {iter : SubmissionOrder} {s' : DeploymentRegistry} (h : Consistent s)
    (he : evictOne iter s = some s') : Consistent s' := by
  simp only [evictOne, Option.map_eq_some_iff] at he
  obtain ⟨entry, hc, rfl⟩ := he
  obtain ⟨hl, -⟩ := mem_of_evictionCandidate hc
  rw [hl]
  split
  · rename_i identity id acknowledged sequence heq
    exact h.dropJob ⟨_, hl, by rw [Option.some.inj heq]⟩
  · rename_i hna
    refine h.dropSubmission fun id ⟨x, hx, hxs⟩ => ?_
    rw [hl] at hx
    cases hx
    exact hna entry.2.identity id entry.2.acknowledged entry.2.sequence (by rw [← hxs])

theorem evictOne_len {iter : SubmissionOrder} {s' : DeploymentRegistry}
    (he : evictOne iter s = some s') : s'.submissions.len + 1 = s.submissions.len := by
  simp only [evictOne, Option.map_eq_some_iff] at he
  obtain ⟨entry, hc, rfl⟩ := he
  have hm := Table.mem_of_lookup (mem_of_evictionCandidate hc).1
  split <;> exact Table.len_erase_of_mem hm

/-- Evictions only remove submissions. -/
theorem evictOne_lookup {iter : SubmissionOrder} {s' : DeploymentRegistry}
    (he : evictOne iter s = some s') (hn : s.submissions.lookup requestId = none) :
    s'.submissions.lookup requestId = none := by
  simp only [evictOne, Option.map_eq_some_iff] at he
  obtain ⟨entry, -, rfl⟩ := he
  split <;> simp [Table.lookup_erase_ite, hn]

theorem makeRoom_spec (iter : SubmissionOrder) (fuel : ℕ) (h : Consistent s)
    (hn : s.submissions.lookup requestId = none) :
    Consistent (makeRoom iter fuel s).2 ∧
      (makeRoom iter fuel s).2.submissions.lookup requestId = none ∧
      ((makeRoom iter fuel s).1 = true → (makeRoom iter fuel s).2.submissions.len < maxDeploymentRecords) := by
  induction fuel generalizing s with
  | zero => exact ⟨h, hn, fun hl => by simpa [makeRoom] using hl⟩
  | succ fuel ih =>
    simp only [makeRoom]
    split_ifs with hc
    · split
      · exact ⟨h, hn, by simp⟩
      · rename_i s' he
        exact ih (evictOne_consistent h he) (evictOne_lookup he hn)
    · exact ⟨h, hn, fun _ => Nat.lt_of_not_le hc⟩

theorem reserveSubmission_consistent {iter : SubmissionOrder} {plan : PlanFingerprint}
    (h : Consistent s) : Consistent (reserveSubmission iter requestId id plan s).2 := by
  unfold reserveSubmission
  dsimp only
  split
  · exact h
  · rename_i hn
    obtain ⟨hc, hl, hlt⟩ := makeRoom_spec iter s.submissions.len h hn
    split
    · rename_i s' he
      simpa [he] using hc
    · rename_i s' he
      rw [he] at hc hl hlt
      exact hc.bump.insertSubmission hl (by simp) (hlt rfl)

theorem rejectSubmission_consistent {message : String} {submission : DeploymentSubmissionRecord}
    (h : Consistent s) (hs : s.submissions.lookup requestId = some submission)
    (hp : submission.status = .pending) : Consistent (rejectSubmission requestId message s) := by
  simp only [rejectSubmission, hs]
  exact h.bump.putSubmission hs (by simp [hp])

theorem acknowledgeSubmission_consistent (h : Consistent s) :
    Consistent (acknowledgeSubmission requestId s).2 := by
  unfold acknowledgeSubmission
  split
  · exact h.bump
  · rename_i record hs
    split_ifs
    · exact h.bump
    · exact h.bump.putSubmission hs (fun _ => Iff.rfl)

theorem register_consistent {reserved : Except String ResourceReservation} (h : Consistent s) :
    Consistent (register requestId id reserved s).2 := by
  unfold register
  split
  · exact h
  · rename_i submission hs
    split_ifs with hp hl hm
    · exact h
    · exact h
    · exact h
    · split
      · exact h
      · rename_i reservation
        have hp' : submission.status = .pending := by
          by_contra hc
          exact hp (.inl hc)
        have hlook : (s.bump.putJob id ⟨requestId, 1, .running, .held, false, some reservation, false, 0,
            s.bump.nextSequence⟩).submissions.lookup requestId = some submission := hs
        simp only [hlook]
        exact h.bump.accept hs hp' rfl hm ⟨by simp [DeploymentStatus.isFinished], by simp⟩ rfl

/-- A record that stays unfinished and held. -/
theorem JobConsistent.running {job : DeploymentRecord} (h : JobConsistent job)
    (hf : ¬ job.status.isFinished = true) : job.claim = .held := by
  by_contra hc
  exact hf (h.finished_iff.mpr hc)

theorem observeStatus_consistent {status : DeploymentStatus} (h : Consistent s) :
    Consistent (observeStatus id status s).2 := by
  unfold observeStatus
  split_ifs with hf
  · exact h
  · split
    · exact h.bump
    · rename_i record hj
      split_ifs with hr hne
      · exact h.bump
      · have hc := (h.job id record hj).running hr
        exact h.bump.putJob hj ⟨by simp [hf, hc], by simpa using (h.job id record hj).reserved_iff⟩ rfl
      · exact h.bump.putJob hj (h.job id record hj) rfl

theorem finalize_consistent {status : DeploymentStatus} {claimStatus : DeploymentClaimStatus}
    (h : Consistent s) : Consistent (finalize id status claimStatus s).2 := by
  unfold finalize
  split
  · exact h
  · rename_i claim hclaim
    obtain ⟨hfin, hheld, -⟩ := terminalClaimState_ok hclaim
    split
    · exact h.bump
    · rename_i record hj
      split_ifs with hr heq hrec
      · exact h.bump
      · exact h.bump
      · exact h.bump.putJob hj ⟨by simp [hfin, hheld], by simp [hheld, hrec]⟩ rfl
      · have hc := (h.job id record hj).running hr
        have hs := (h.job id record hj).reserved_iff.mpr (.inl hc)
        exact h.bump.putJob hj ⟨by simp [hfin, hheld], by simp_all⟩ rfl

theorem cancel_consistent (h : Consistent s) : Consistent (cancel id s).2 := by
  unfold cancel
  split
  · exact h.bump
  · rename_i record hj
    have hc := h.job id record hj
    split_ifs
    · exact h.bump
    · exact h.bump.putJob hj ⟨hc.finished_iff, hc.reserved_iff⟩ rfl
    · exact h.bump.putJob hj hc rfl

theorem acknowledge_consistent (h : Consistent s) : Consistent (acknowledge id s).2 := by
  unfold acknowledge
  split
  · exact h
  · rename_i record hj
    have hc := h.job id record hj
    split_ifs
    · exact h
    · exact h
    · dsimp only
      split
      · exact h
      · split_ifs
        · exact h
        · have hj' : s.bump.jobs.lookup id = some record := hj
          simp only [hj']
          exact h.bump.putJob hj ⟨hc.finished_iff, hc.reserved_iff⟩ rfl

theorem releaseUnresolved_consistent {confirmed : Bool} (h : Consistent s) :
    Consistent (releaseUnresolved id confirmed s).2 := by
  unfold releaseUnresolved
  split_ifs
  · exact h
  · split
    · exact h.bump
    · rename_i record hj
      split_ifs with hr
      · exact h.bump
      · have hfin : record.status.isFinished = true := by
          by_contra hc
          exact hr (.inl (by simpa using hc))
        exact h.bump.putJob hj ⟨by simp [hfin], by simp⟩ rfl

theorem reconcile_consistent {manifestPresent : Bool} (h : Consistent s) :
    Consistent (reconcile id manifestPresent s).2 := by
  unfold reconcile
  split
  · exact h.bump
  · rename_i record hj
    have hc := h.job id record hj
    split
    · exact h.bump
    · split
      · exact h.bump
      · rename_i hclaim
        have hfin : record.status.isFinished = true := hc.finished_iff.mpr (by simp [hclaim])
        dsimp only
        split_ifs
        · exact h.bump.putJob hj ⟨by simp [hfin], by simp⟩ rfl
        · exact h.bump.putJob hj hc rfl
      · exact h.bump

theorem registerStream_consistent (h : Consistent s) : Consistent (registerStream id s).2 := by
  unfold registerStream
  split
  · exact h
  · rename_i record hj
    have hc := h.job id record hj
    exact h.putJob hj ⟨hc.finished_iff, hc.reserved_iff⟩ rfl

theorem releaseStream_consistent (h : Consistent s) : Consistent (releaseStream id s) := by
  unfold releaseStream
  split
  · exact h
  · rename_i record hj
    have hc := h.job id record hj
    exact h.putJob hj ⟨hc.finished_iff, hc.reserved_iff⟩ rfl

/-! ### Failures that cannot happen -/

/-- A failure other than a panic or the job table's capacity error. -/
def Failure.Ordinary (failure : Failure) : Prop :=
  failure ≠ capacityError ∧ ∀ message, failure ≠ .panic message

theorem Failure.ordinary_of {kind : ErrorKind} {message : String} (h : kind ≠ .other) :
    (Failure.of kind message).Ordinary := by
  simp [Failure.Ordinary, Failure.of, capacityError, h]

theorem terminalClaimState_failure {status : DeploymentStatus} {claimStatus : DeploymentClaimStatus}
    {failure : Failure} (h : terminalClaimState status claimStatus = .error failure) :
    failure.Ordinary := by
  cases status <;> cases claimStatus <;> cases h <;> exact Failure.ordinary_of (by decide)

variable {failure : Failure}

theorem reserveSubmission_failure {iter : SubmissionOrder} {plan : PlanFingerprint}
    (h : (reserveSubmission iter requestId id plan s).1 = .error failure) : failure.Ordinary := by
  unfold reserveSubmission at h
  dsimp only at h
  split at h
  · cases h; exact Failure.ordinary_of (by decide)
  · split at h
    · cases h; simp [Failure.Ordinary, Failure.of, capacityError]
    · cases h

theorem acknowledgeSubmission_failure (h : (acknowledgeSubmission requestId s).1 = .error failure) :
    failure.Ordinary := by
  unfold acknowledgeSubmission at h
  (repeat' split at h) <;> cases h <;> exact Failure.ordinary_of (by decide)

theorem observeStatus_failure {status : DeploymentStatus}
    (h : (observeStatus id status s).1 = .error failure) : failure.Ordinary := by
  unfold observeStatus at h
  (repeat' split at h) <;> cases h <;> exact Failure.ordinary_of (by decide)

theorem finalize_failure {status : DeploymentStatus} {claimStatus : DeploymentClaimStatus}
    (h : (finalize id status claimStatus s).1 = .error failure) : failure.Ordinary := by
  unfold finalize at h
  split at h
  · rename_i e he
    cases h
    exact terminalClaimState_failure he
  · (repeat' split at h) <;> cases h <;> exact Failure.ordinary_of (by decide)

theorem cancel_failure (h : (cancel id s).1 = .error failure) : failure.Ordinary := by
  unfold cancel at h
  (repeat' split at h) <;> cases h
  exact Failure.ordinary_of (by decide)

theorem releaseUnresolved_failure {confirmed : Bool}
    (h : (releaseUnresolved id confirmed s).1 = .error failure) : failure.Ordinary := by
  unfold releaseUnresolved at h
  (repeat' split at h) <;> cases h <;> exact Failure.ordinary_of (by decide)

theorem reconcile_failure {manifestPresent : Bool}
    (h : (reconcile id manifestPresent s).1 = .error failure) : failure.Ordinary := by
  unfold reconcile at h
  (repeat' split at h) <;> cases h <;> exact Failure.ordinary_of (by decide)

theorem registerStream_failure (h : (registerStream id s).1 = .error failure) :
    failure.Ordinary := by
  unfold registerStream at h
  split at h <;> cases h
  exact Failure.ordinary_of (by decide)

/-- The pending submission keeps the job table below its bound, and stays registered. -/
theorem register_failure {reserved : Except String ResourceReservation} (hc : Consistent s)
    (h : (register requestId id reserved s).1 = .error failure) : failure.Ordinary := by
  unfold register at h
  split at h
  · cases h; exact Failure.ordinary_of (by decide)
  · rename_i submission hs
    split_ifs at h with hp hl hm
    · cases h; exact Failure.ordinary_of (by decide)
    · have hlt := hc.jobs_lt hs fun id' ha => hp (.inl (by simp [ha]))
      have := hc.submissions_le
      omega
    · cases h; exact Failure.ordinary_of (by decide)
    · split at h
      · cases h; exact Failure.ordinary_of (by decide)
      · rename_i reservation
        have hlook : (s.bump.putJob id ⟨requestId, 1, .running, .held, false, some reservation, false, 0,
            s.bump.nextSequence⟩).submissions.lookup requestId = some submission := hs
        simp only [hlook] at h
        cases h

/-- The job's submission is registered, and so is the job it has just looked up. -/
theorem acknowledge_failure (hc : Consistent s) (h : (acknowledge id s).1 = .error failure) :
    failure.Ordinary := by
  unfold acknowledge at h
  split at h
  · cases h; exact Failure.ordinary_of (by decide)
  · rename_i record hj
    obtain ⟨submission, hs⟩ := Table.lookup_of_mem (hc.submission_mem hj)
    have hj' : s.bump.jobs.lookup id = some record := hj
    simp only [hs, hj'] at h
    split_ifs at h <;> cases h <;> exact Failure.ordinary_of (by decide)

end Operations

end Lasper.Jobs
