import Lasper.Jobs.Transitions

/-! Room for a new submission is made by evicting old ones. The stream leases
that forwarders own are counted in the records of their jobs, so a job with a
live lease stays; what goes is acknowledged and has nothing left to resolve, the
oldest first. -/

namespace Lasper.Jobs

open Lib DeploymentRegistry

/-- A submission that may be dropped: acknowledged, and rejected or with a job
whose result was acknowledged, whose claim is given up and that nobody streams. -/
def Expendable (s : DeploymentRegistry) (leases : List DeploymentId)
    (record : DeploymentSubmissionRecord) : Prop :=
  record.acknowledged = true ∧
    ((∃ message, record.status = .rejected message) ∨
      ∃ id job, record.status = .accepted id ∧ s.jobs.lookup id = some job ∧ job.acknowledged = true ∧
        (job.claim = .released ∨ job.claim = .reconciled ∨ job.claim = .releasedUnresolved) ∧
        job.streamLeases = 0 ∧ id ∉ leases)

/-- The tables without a submission and the job it was accepted for. -/
def DeploymentRegistry.without (s : DeploymentRegistry) (requestId : DeploymentRequestId)
    (record : DeploymentSubmissionRecord) : DeploymentRegistry :=
  match record.status with
  | .accepted id => { s with submissions := s.submissions.erase requestId, jobs := s.jobs.erase id }
  | _ => { s with submissions := s.submissions.erase requestId }

/-- Evictions in the order they are made: only from a full table, only of
expendable submissions, and each the oldest of these. -/
inductive Evictions (leases : List DeploymentId) :
    DeploymentRegistry → List DeploymentRequestId → DeploymentRegistry → Prop
  | done {s : DeploymentRegistry} : Evictions leases s [] s
  | drop {s t : DeploymentRegistry} {requestId : DeploymentRequestId}
      {record : DeploymentSubmissionRecord} {rest : List DeploymentRequestId}
      (full : maxDeploymentRecords ≤ s.submissions.len)
      (found : s.submissions.lookup requestId = some record) (expendable : Expendable s leases record)
      (oldest : ∀ other record', s.submissions.lookup other = some record' →
        Expendable s leases record' → record.sequence ≤ record'.sequence)
      (next : Evictions leases (s.without requestId record) rest t) :
      Evictions leases s (requestId :: rest) t

section Leases

/-- The leases counted for a deployment; a deployment without a job has none. -/
def leasesOf (s : DeploymentRegistry) (id : DeploymentId) : ℕ :=
  ((s.jobs.lookup id).map (·.streamLeases)).getD 0

/-- The records count the leases that are alive. -/
def Counted (s : DeploymentRegistry) (leases : List DeploymentId) : Prop :=
  ∀ id, leasesOf s id = leases.count id

/-- Each lease owns a reference to the registry, and a process aborts rather than
count more than `isize::MAX` of these. -/
def CountedStep (s : System) (op : Operation) (t : System) : Prop :=
  System.Step s op t ∧ t.leases.length ≤ 2 ^ 63 - 1

variable {s t : System} {op : Operation}

theorem leasesOf_eq {s : DeploymentRegistry} {id : DeploymentId} {job : DeploymentRecord}
    (h : s.jobs.lookup id = some job) : leasesOf s id = job.streamLeases := by
  simp [leasesOf, h]

theorem leasesOf_putJob {s : DeploymentRegistry} (id id' : DeploymentId) (job : DeploymentRecord) :
    leasesOf (s.putJob id job) id' = if id' = id then job.streamLeases else leasesOf s id' := by
  simp only [leasesOf, DeploymentRegistry.putJob, Table.lookup_insert_ite]
  by_cases h : id' = id
  · simp [h]
  · simp [h]

/-- Only the operations on streams change a count: a new job starts with none
and a job with leases is not evicted. -/
theorem Operation.apply_leasesOf {s : DeploymentRegistry} (hc : Consistent s) (hop : op.streams = false)
    (id : DeploymentId) : leasesOf (op.apply s) id = leasesOf s id := by
  cases hn : (op.apply s).jobs.lookup id with
  | some new =>
    rw [leasesOf_eq hn]
    rcases op.apply_carries hc id new hn with ⟨old, ho, -, hl⟩ | ⟨ho, -, hl⟩
    · rw [leasesOf_eq ho]
      exact hl hop
    · simp [leasesOf, ho, hl]
  | none =>
    have heffect := op.apply_job id s
    rw [hn] at heffect
    rcases heffect with he | ⟨old, ho, hp, -⟩ | ⟨_, _, _, he, _⟩ | ⟨_, _, _, _, _, he, _⟩
    · simp [leasesOf, hn, ← he]
    · have hzero : old.streamLeases = 0 := by
        by_contra hne
        exact hp (.inr hne)
      simp [leasesOf, hn, ho, hzero]
    · cases he
    · cases he

theorem Operation.leases_eq (hop : op.streams = false) : op.leases s = s.leases := by
  cases op with
  | registerStream | releaseStream => cases hop
  | _ => rfl

theorem registerStream_counted {id : DeploymentId} (h : Counted s.registry s.leases)
    (hb : ((Operation.registerStream id).leases s).length ≤ 2 ^ 63 - 1) :
    Counted (registerStream id s.registry).2 ((Operation.registerStream id).leases s) := by
  intro id'
  cases hj : s.registry.jobs.lookup id with
  | none =>
    have hnot : id ∉ s.registry.jobs := AList.lookup_eq_none.mp hj
    simp only [registerStream, hj, Operation.leases, if_neg hnot]
    exact h id'
  | some job =>
    have hmem : id ∈ s.registry.jobs := Table.mem_of_lookup hj
    have hcount := h id
    rw [leasesOf_eq hj] at hcount
    simp only [Operation.leases, if_pos hmem, List.length_cons] at hb
    have hle : s.leases.count id ≤ s.leases.length := List.count_le_length
    have hadd : saturatingAdd u64Max job.streamLeases 1 = s.leases.count id + 1 := by
      unfold saturatingAdd u64Max
      omega
    simp only [registerStream, hj, Operation.leases, if_pos hmem, leasesOf_putJob, List.count_cons]
    by_cases he : id' = id
    · subst he
      simp [hadd]
    · have hne : id ≠ id' := fun heq => he heq.symm
      simp [he, hne, h id']

theorem releaseStream_counted {id : DeploymentId} (h : Counted s.registry s.leases)
    (hm : id ∈ s.leases) : Counted (releaseStream id s.registry) (s.leases.erase id) := by
  intro id'
  have hpos : 0 < s.leases.count id := List.count_pos_iff.mpr hm
  cases hj : s.registry.jobs.lookup id with
  | none =>
    have hzero := h id
    simp only [leasesOf, hj, Option.map_none, Option.getD_none] at hzero
    omega
  | some job =>
    have hcount := h id
    rw [leasesOf_eq hj] at hcount
    simp only [releaseStream, hj, leasesOf_putJob]
    by_cases he : id' = id
    · subst he
      rw [if_pos rfl, List.count_erase_self]
      omega
    · rw [if_neg he, List.count_erase_of_ne he]
      exact h id'

theorem CountedStep.counted (hs : CountedStep s op t) (hc : Consistent s.registry)
    (h : Counted s.registry s.leases) : Counted t.registry t.leases := by
  obtain ⟨hstep, hb⟩ := hs
  cases hstep with
  | mk enabled =>
    cases hop : op.streams with
    | false =>
      intro id
      show leasesOf (op.apply s.registry) id = (op.leases s).count id
      rw [Operation.leases_eq hop, op.apply_leasesOf hc hop]
      exact h id
    | true =>
      cases op with
      | registerStream id => exact registerStream_counted h hb
      | releaseStream id => exact releaseStream_counted h enabled
      | _ => cases hop

theorem counted_of_run {ops : List Operation} (h : Run CountedStep {} ops s) :
    Consistent s.registry ∧ Counted s.registry s.leases := by
  refine h.invariant (I := fun u => Consistent u.registry ∧ Counted u.registry u.leases)
    ⟨consistent_empty, fun id => by simp [leasesOf]⟩ ?_
  intro u op v hu hstep
  exact ⟨hstep.1.consistent hu.1, hstep.counted hu.1 hu.2⟩

end Leases

section Room

variable {s t : DeploymentRegistry} {leases : List DeploymentId} {requestId : DeploymentRequestId}
  {record : DeploymentSubmissionRecord} {id : DeploymentId}

/-- The code's test says exactly which submissions are expendable. -/
theorem evictable_iff (h : Counted s leases) : evictable s record = true ↔ Expendable s leases record := by
  have hlive : ∀ id job, s.jobs.lookup id = some job → job.streamLeases = 0 → id ∉ leases := by
    intro id job hj hz hm
    have hpos : 0 < leases.count id := List.count_pos_iff.mpr hm
    have hcount := h id
    rw [leasesOf_eq hj] at hcount
    omega
  unfold evictable Expendable
  cases hs : record.status with
  | pending => simp
  | rejected message => simp
  | accepted id =>
    cases hj : s.jobs.lookup id with
    | none => simp [hj]
    | some job =>
      simp only [hj, Option.any_some, DeploymentRecord.evictable, Bool.and_eq_true, Bool.or_eq_true,
        decide_eq_true_eq, reduceCtorEq, exists_false, false_or, DeploymentSubmissionStatus.accepted.injEq]
      constructor
      · rintro ⟨hack, ⟨hjob, hzero⟩, hclaim⟩
        exact ⟨hack, id, job, rfl, hj, hjob, by tauto, hzero, hlive id job hj hzero⟩
      · rintro ⟨hack, id', job', rfl, hj', hjob, hclaim, hzero, -⟩
        rw [hj] at hj'
        cases hj'
        exact ⟨hack, ⟨hjob, hzero⟩, by tauto⟩

theorem without_submissions : (s.without requestId record).submissions = s.submissions.erase requestId := by
  unfold DeploymentRegistry.without
  split <;> rfl

theorem without_jobs (id : DeploymentId) : (s.without requestId record).jobs.lookup id =
    if record.status = .accepted id then none else s.jobs.lookup id := by
  unfold DeploymentRegistry.without
  split
  · rename_i victim hv
    simp only [Table.lookup_erase_ite, hv, DeploymentSubmissionStatus.accepted.injEq, eq_comm]
  · rename_i hn
    rw [if_neg (hn id)]

theorem Counted.without (h : Counted s leases) (he : Expendable s leases record) :
    Counted (s.without requestId record) leases := by
  intro id
  rw [← h id]
  unfold leasesOf
  rw [without_jobs]
  by_cases hs : record.status = .accepted id
  · rw [if_pos hs]
    rcases he.2 with ⟨message, hm⟩ | ⟨id', job, ha, hj, -, -, hz, -⟩
    · rw [hs] at hm
      cases hm
    · rw [hs] at ha
      cases ha
      simp [hj, hz]
  · rw [if_neg hs]

/-- One call of `evict_one` that drops something. -/
theorem evictOne_some {iter : SubmissionOrder} (h : evictOne iter s = some t) :
    ∃ requestId record, s.submissions.lookup requestId = some record ∧ evictable s record = true ∧
      (∀ other record', s.submissions.lookup other = some record' → evictable s record' = true →
        record.sequence ≤ record'.sequence) ∧ t = s.without requestId record := by
  simp only [evictOne, Option.map_eq_some_iff] at h
  obtain ⟨⟨requestId, record⟩, hc, rfl⟩ := h
  obtain ⟨hl, he⟩ := mem_of_evictionCandidate hc
  refine ⟨requestId, record, hl, he, fun other record' ho he' => ?_, ?_⟩
  · have hmem : (⟨other, record'⟩ : Σ _ : DeploymentRequestId, DeploymentSubmissionRecord) ∈
        (iter.order s.submissions.entries).filter fun entry => evictable s entry.2 := by
      refine List.mem_filter.mpr ⟨(iter.perm _).mem_iff.mpr ?_, he'⟩
      exact AList.mem_lookup_iff.mp ho
    exact minByKey_le _ hc _ hmem
  · dsimp only at hl ⊢
    rw [hl]
    unfold DeploymentRegistry.without
    obtain ⟨identity, status, acknowledged, sequence⟩ := record
    cases status <;> rfl

/-- A call that drops nothing found nothing to drop. -/
theorem evictOne_none {iter : SubmissionOrder} (h : evictOne iter s = none)
    (hl : s.submissions.lookup requestId = some record) : evictable s record = false := by
  by_contra hne
  have hmem : (⟨requestId, record⟩ : Σ _ : DeploymentRequestId, DeploymentSubmissionRecord) ∈
      (iter.order s.submissions.entries).filter fun entry => evictable s entry.2 := by
    refine List.mem_filter.mpr ⟨(iter.perm _).mem_iff.mpr ?_, by simpa using hne⟩
    exact AList.mem_lookup_iff.mp hl
  simp only [evictOne, Option.map_eq_none_iff] at h
  rw [minByKey_eq_none _ h] at hmem
  cases hmem

/-- The loop ends, with room for one more submission or with nothing left to evict. -/
theorem makeRoom_evictions (iter : SubmissionOrder) (fuel : ℕ) (hf : s.submissions.len ≤ fuel)
    (hc : Counted s leases) :
    ∃ evicted t, Evictions leases s evicted t ∧
      ((makeRoom iter fuel s = (true, t) ∧ t.submissions.len < maxDeploymentRecords) ∨
        (makeRoom iter fuel s = (false, t) ∧ maxDeploymentRecords ≤ t.submissions.len ∧
          ∀ requestId record, t.submissions.lookup requestId = some record →
            ¬ Expendable t leases record)) := by
  induction fuel generalizing s with
  | zero =>
    have hroom : s.submissions.len < maxDeploymentRecords := by
      unfold maxDeploymentRecords
      omega
    exact ⟨[], s, .done, .inl ⟨by simp [makeRoom, hroom], hroom⟩⟩
  | succ fuel ih =>
    by_cases hfull : maxDeploymentRecords ≤ s.submissions.len
    · cases he : evictOne iter s with
      | none =>
        refine ⟨[], s, .done, .inr ⟨by simp [makeRoom, hfull, he], hfull, fun requestId record hl hx => ?_⟩⟩
        have hev := (evictable_iff hc).mpr hx
        rw [evictOne_none he hl] at hev
        cases hev
      | some s' =>
        obtain ⟨requestId, record, hl, hev, hmin, rfl⟩ := evictOne_some he
        have hx := (evictable_iff hc).mp hev
        have hlen := evictOne_len he
        have hrest : Counted (s.without requestId record) leases := hc.without hx
        obtain ⟨evicted, t, hchain, hend⟩ := ih (by omega) hrest
        refine ⟨requestId :: evicted, t, .drop hfull hl hx (fun other record' ho hx' => ?_) hchain, ?_⟩
        · exact hmin other record' ho ((evictable_iff hc).mpr hx')
        · simpa [makeRoom, hfull, he] using hend
    · refine ⟨[], s, .done, .inl ⟨by simp [makeRoom, hfull], by omega⟩⟩

theorem lookup_of_without {other : DeploymentRequestId} {record' : DeploymentSubmissionRecord}
    (h : (s.without requestId record).submissions.lookup other = some record') :
    s.submissions.lookup other = some record' := by
  rw [without_submissions, Table.lookup_erase_ite] at h
  split_ifs at h
  exact h

theorem job_of_without {job : DeploymentRecord}
    (h : (s.without requestId record).jobs.lookup id = some job) : s.jobs.lookup id = some job := by
  rw [without_jobs] at h
  split_ifs at h
  exact h

theorem Expendable.of_without {record' : DeploymentSubmissionRecord}
    (h : Expendable (s.without requestId record) leases record') : Expendable s leases record' := by
  obtain ⟨hack, hr | ⟨id, job, ha, hj, hrest⟩⟩ := h
  · exact ⟨hack, .inl hr⟩
  · exact ⟨hack, .inr ⟨id, job, ha, job_of_without hj, hrest⟩⟩

variable {evicted : List DeploymentRequestId}

/-- Evictions only drop records. -/
theorem Evictions.lookup_none (h : Evictions leases s evicted t) :
    (∀ requestId, s.submissions.lookup requestId = none → t.submissions.lookup requestId = none) ∧
      ∀ id, s.jobs.lookup id = none → t.jobs.lookup id = none := by
  induction h with
  | done => exact ⟨fun _ h => h, fun _ h => h⟩
  | drop full found expendable oldest next ih =>
    refine ⟨fun other hn => ih.1 other ?_, fun id hn => ih.2 id ?_⟩
    · simp [without_submissions, Table.lookup_erase_ite, hn]
    · simp [without_jobs, hn]

/-- A submission stays as it is, or was expendable and is gone. -/
theorem Evictions.submission (h : Evictions leases s evicted t) {other : DeploymentRequestId}
    {record' : DeploymentSubmissionRecord} (hl : s.submissions.lookup other = some record') :
    t.submissions.lookup other = some record' ∨ (t.submissions.lookup other = none ∧ other ∈ evicted ∧
      Expendable s leases record') := by
  induction h with
  | done => exact .inl hl
  | @drop s t requestId record rest full found expendable oldest next ih =>
    by_cases he : other = requestId
    · subst he
      rw [found] at hl
      cases hl
      refine .inr ⟨next.lookup_none.1 other ?_, List.mem_cons_self, expendable⟩
      simp [without_submissions]
    · have hkept : (s.without requestId record).submissions.lookup other = some record' := by
        rw [without_submissions, Table.lookup_erase_ite, if_neg he, hl]
      rcases ih hkept with ht | ⟨ht, hm, hx⟩
      · exact .inl ht
      · exact .inr ⟨ht, List.mem_cons_of_mem _ hm, hx.of_without⟩

/-- A job stays as it is, or goes with the submission it was accepted for. -/
theorem Evictions.job (h : Evictions leases s evicted t) {job : DeploymentRecord}
    (hj : s.jobs.lookup id = some job) :
    t.jobs.lookup id = some job ∨ (t.jobs.lookup id = none ∧ ∃ requestId ∈ evicted, ∃ record,
      s.submissions.lookup requestId = some record ∧ record.status = .accepted id ∧
        Expendable s leases record) := by
  induction h with
  | done => exact .inl hj
  | @drop s t requestId record rest full found expendable oldest next ih =>
    by_cases ha : record.status = .accepted id
    · refine .inr ⟨next.lookup_none.2 id (by rw [without_jobs, if_pos ha]), requestId, List.mem_cons_self,
        record, found, ha, expendable⟩
    · have hkept : (s.without requestId record).jobs.lookup id = some job := by
        rw [without_jobs, if_neg ha, hj]
      rcases ih hkept with ht | ⟨ht, other, hm, record', hl, ha', hx⟩
      · exact .inl ht
      · exact .inr ⟨ht, other, List.mem_cons_of_mem _ hm, record', lookup_of_without hl, ha',
          hx.of_without⟩

end Room

/-- In every reachable state a new submission is inserted, or the call fails,
after finitely many evictions, each of the oldest expendable submission. All
other submissions and jobs stay as they are. -/
theorem eviction_safety {ops : List Operation} {s : System} (h : Run CountedStep {} ops s)
    (iter : SubmissionOrder) (requestId : DeploymentRequestId) (deploymentId : DeploymentId)
    (plan : PlanFingerprint) :
    ∃ evicted t, Evictions s.leases s.registry evicted t ∧
      (((reserveSubmission iter requestId deploymentId plan s.registry).1 = .ok () ∧
          t.submissions.lookup requestId = none ∧ t.submissions.len < maxDeploymentRecords ∧
          (reserveSubmission iter requestId deploymentId plan s.registry).2 =
            t.bump.putSubmission requestId
              ⟨⟨deploymentId, plan⟩, .pending, false, t.bump.nextSequence⟩) ∨
        ((∃ failure, (reserveSubmission iter requestId deploymentId plan s.registry).1 = .error failure) ∧
          (reserveSubmission iter requestId deploymentId plan s.registry).2 = t)) ∧
      (∀ other record, s.registry.submissions.lookup other = some record →
        t.submissions.lookup other = some record ∨ (t.submissions.lookup other = none ∧
          other ∈ evicted ∧ Expendable s.registry s.leases record)) ∧
      ∀ id job, s.registry.jobs.lookup id = some job →
        t.jobs.lookup id = some job ∨ (t.jobs.lookup id = none ∧ ∃ other ∈ evicted, ∃ record,
          s.registry.submissions.lookup other = some record ∧ record.status = .accepted id ∧
            Expendable s.registry s.leases record) := by
  obtain ⟨hc, hcount⟩ := counted_of_run h
  cases hl : s.registry.submissions.lookup requestId with
  | some existing =>
    refine ⟨[], s.registry, .done, .inr ?_, fun _ _ hr => .inl hr, fun _ _ hj => .inl hj⟩
    simp [reserveSubmission, hl]
  | none =>
    obtain ⟨evicted, t, hchain, hend⟩ := makeRoom_evictions iter _ (le_refl _) hcount
    refine ⟨evicted, t, hchain, ?_, fun _ _ hr => hchain.submission hr, fun _ _ hj => hchain.job hj⟩
    rcases hend with ⟨hroom, hlt⟩ | ⟨hfull, -⟩
    · exact .inl ⟨by simp [reserveSubmission, hl, hroom], hchain.lookup_none.1 requestId hl, hlt,
        by simp [reserveSubmission, hl, hroom]⟩
    · exact .inr (by simp [reserveSubmission, hl, hfull])

private def reservation (n : ℕ) : Operation := .reserveSubmission (.stored _ _) ⟨n⟩ ⟨n⟩ ⟨"plan"⟩

/-- The table is filled, its first submission is refused and the refusal acknowledged. -/
private def filling : List Operation :=
  (List.range maxDeploymentRecords).map reservation ++ [.rejectSubmission ⟨0⟩ "busy", .acknowledgeSubmission ⟨0⟩]

private def filled : System :=
  filling.foldl (fun s op => ⟨op.apply s.registry, op.leases s⟩) {}

private theorem run_reservations (ns : List ℕ) :
    let s : System := (ns.map reservation).foldl (fun s op => ⟨op.apply s.registry, op.leases s⟩) {}
    Run CountedStep {} (ns.map reservation) s ∧ s.leases = [] := by
  induction ns using List.reverseRecOn with
  | nil => exact ⟨.nil, rfl⟩
  | append_singleton ns n ih =>
    obtain ⟨hrun, hleases⟩ := ih
    simp only [List.map_append, List.map_singleton, List.foldl_append, List.foldl_cons, List.foldl_nil]
    exact ⟨.snoc hrun ⟨⟨trivial⟩, le_of_eq_of_le (congrArg List.length hleases) (Nat.zero_le _)⟩, hleases⟩

/-- With every record taken, the refused one gives way to the next submission. -/
theorem eviction_safety_refused :
    Run CountedStep {} filling filled ∧ filled.registry.submissions.len = maxDeploymentRecords ∧
      ∃ evicted t, Evictions filled.leases filled.registry evicted t ∧ ⟨0⟩ ∈ evicted ∧
        t.submissions.lookup ⟨0⟩ = none ∧ t.submissions.len < maxDeploymentRecords ∧
        (reserveSubmission (.stored _ _) ⟨64⟩ ⟨64⟩ ⟨"plan"⟩ filled.registry).1 = .ok () := by
  have hrun : Run CountedStep {} filling filled := by
    obtain ⟨hrun, hleases⟩ := run_reservations (List.range maxDeploymentRecords)
    have hpending : (System.registry ((List.range maxDeploymentRecords |>.map reservation).foldl
        (fun s op => ⟨op.apply s.registry, op.leases s⟩) {})).submissions.lookup ⟨0⟩ =
          some ⟨⟨⟨0⟩, ⟨"plan"⟩⟩, .pending, false, 1⟩ := by decide +kernel
    exact Run.append hrun (.snoc (.snoc .nil ⟨⟨⟨_, hpending, rfl⟩⟩, by decide +kernel⟩) ⟨⟨trivial⟩, by decide +kernel⟩)
  obtain ⟨hfull, hthere, hresult⟩ : filled.registry.submissions.len = maxDeploymentRecords ∧
      filled.registry.submissions.lookup ⟨0⟩ = some ⟨⟨⟨0⟩, ⟨"plan"⟩⟩, .rejected "busy", true, 66⟩ ∧
      failureOf (reserveSubmission (.stored _ _) ⟨64⟩ ⟨64⟩ ⟨"plan"⟩ filled.registry).1 = none ∧
      (reserveSubmission (.stored _ _) ⟨64⟩ ⟨64⟩ ⟨"plan"⟩ filled.registry).2.submissions.lookup ⟨0⟩ = none := by
    decide +kernel
  obtain ⟨evicted, t, hchain, hend, hsub, -⟩ := eviction_safety hrun (.stored _ _) ⟨64⟩ ⟨64⟩ ⟨"plan"⟩
  rcases hend with ⟨hok, -, hroom, hstate⟩ | ⟨⟨failure, hfailure⟩, -⟩
  · rcases hsub ⟨0⟩ _ hthere with hkept | ⟨hgone, hevicted, -⟩
    · rw [hstate] at hresult
      exact absurd (hkept.symm.trans ((Table.lookup_insert_ite _ _ _ _).symm.trans hresult.2)) nofun
    · exact ⟨hrun, hfull, evicted, t, hchain, hevicted, hgone, hroom, hok⟩
  · rw [hfailure] at hresult
    cases hresult.1

end Lasper.Jobs
