import Lasper.Jobs.Submission

/-! Client and daemon agree on how a submission ended. The daemon's side of the
submission only moves forward, so what the client once learned of a finished
job stays true; the one thing it can learn too early is that the daemon has no
record of the submission. -/

namespace Lasper.Jobs

open Lib DeploymentRegistry

variable {requestId : DeploymentRequestId} {id : DeploymentId}

def DeploymentClaimState.unresolved (claim : DeploymentClaimState) : Prop :=
  claim = .held ∨ claim = .reconciliationRequired

/-! ### What other callers do to the submission and its job -/

section Strangers
variable {op : Operation} {s : DeploymentRegistry}

theorem not_owned (h : ¬ op.Names requestId id) : ¬ op.Owned id := by
  intro howned
  cases op <;> first | exact h howned | exact False.elim howned

theorem not_decides (h : ¬ op.Names requestId id) : ¬ op.Decides requestId := by
  intro hdecides
  cases op <;> first | exact h hdecides | exact h (.inl hdecides) | exact False.elim hdecides

theorem job_before (h : ¬ op.Names requestId id) {job : DeploymentRecord}
    (hj : (op.apply s).jobs.lookup id = some job) :
    ∃ old, s.jobs.lookup id = some old ∧ job.requestId = old.requestId ∧ old.Evolves job := by
  rcases op.apply_job id s with he | ⟨_, _, _, hn⟩ | ⟨old, new, ho, hn, hr, he⟩ | ⟨-, new, r, res, rfl, -⟩
  · exact ⟨job, he ▸ hj, rfl, .refl⟩
  · rw [hn] at hj
    cases hj
  · rw [hn] at hj
    cases hj
    exact ⟨old, ho, hr, he (not_owned h)⟩
  · exact absurd (.inr rfl) h

theorem no_job (h : ¬ op.Names requestId id) (hn : s.jobs.lookup id = none) :
    (op.apply s).jobs.lookup id = none := by
  by_contra hj
  obtain ⟨job, hj⟩ := Option.ne_none_iff_exists'.mp hj
  obtain ⟨old, ho, -⟩ := job_before h hj
  rw [hn] at ho
  cases ho

theorem submission_before (h : ¬ op.Names requestId id) {record : DeploymentSubmissionRecord}
    (hs : (op.apply s).submissions.lookup requestId = some record) :
    ∃ old, s.submissions.lookup requestId = some old ∧ record.status = old.status := by
  rcases op.apply_submission requestId s with he | ⟨_, _, _, hn⟩ | ⟨old, new, ho, hn, -, he⟩ |
    ⟨-, new, iter, d, plan, rfl, -⟩
  · exact ⟨record, he ▸ hs, rfl⟩
  · rw [hn] at hs
    cases hs
  · rw [hn] at hs
    cases hs
    exact ⟨old, ho, he (not_decides h)⟩
  · exact absurd (.inl rfl) h

theorem no_submission (h : ¬ op.Names requestId id) (hn : s.submissions.lookup requestId = none) :
    (op.apply s).submissions.lookup requestId = none := by
  by_contra hs
  obtain ⟨record, hs⟩ := Option.ne_none_iff_exists'.mp hs
  obtain ⟨old, ho, -⟩ := submission_before h hs
  rw [hn] at ho
  cases ho

/-- A pending submission waits for the handler that reserved it. -/
theorem submission_pending (h : ¬ op.Names requestId id) {record : DeploymentSubmissionRecord}
    (hs : s.submissions.lookup requestId = some record) (hp : record.status = .pending) :
    ∃ record', (op.apply s).submissions.lookup requestId = some record' ∧ record'.status = .pending ∧
      record'.identity = record.identity := by
  have he := op.apply_submission requestId s
  rw [hs] at he
  rcases he with he | ⟨old, ho, hn, -⟩ | ⟨old, new, ho, hn, hi, he⟩ | ⟨hn, -⟩
  · exact ⟨record, he, hp, rfl⟩
  · cases ho
    exact absurd hp hn
  · cases ho
    exact ⟨new, hn, (he (not_decides h)).trans hp, hi⟩
  · cases hn

end Strangers

namespace World

variable {w v : World} {a : Action}

/-! ### Invariant -/

/-- What the registry holds at each stage of the daemon's side. -/
def Stage (requestId : DeploymentRequestId) (id : DeploymentId) (handler : Handler)
    (s : DeploymentRegistry) : Prop :=
  match handler with
  | .unsent | .inFlight | .lost => s.submissions.lookup requestId = none ∧ s.jobs.lookup id = none
  | .reserved | .rejecting _ =>
    (∃ record, s.submissions.lookup requestId = some record ∧ record.status = .pending ∧
      record.identity.deploymentId = id) ∧ s.jobs.lookup id = none
  | .refused => s.jobs.lookup id = none
  | .registered | .running =>
    (∀ record, s.submissions.lookup requestId = some record → record.status = .accepted id) ∧
      ∃ job, s.jobs.lookup id = some job ∧ job.requestId = requestId ∧ job.claim = .held
  | .settled status =>
    (∀ record, s.submissions.lookup requestId = some record → record.status = .accepted id) ∧
      status.isFinished = true ∧ ∀ job, s.jobs.lookup id = some job →
        job.requestId = requestId ∧ job.status = status ∧ job.claim ≠ .held

/-- The daemon's side is over and holds no claim any more. -/
def Clear (id : DeploymentId) (w : World) : Prop :=
  (w.handler = .lost ∨ w.handler = .refused ∨ ∃ status, w.handler = .settled status) ∧
    ∀ job, w.registry.jobs.lookup id = some job → ¬ job.claim.unresolved

/-- What a snapshot of a finished job tells. -/
def Told (id : DeploymentId) (w : World) (snapshot : DeploymentJobSnapshot) : Prop :=
  snapshot.status.isFinished = true →
    w.handler = .settled snapshot.status ∧ (¬ snapshot.claim.unresolved → Clear id w)

/-- What a result of the client tells. -/
def ResultTold (id : DeploymentId) (w : World) : Except DeploymentError Unit → Prop
  | .ok () => w.handler = .settled .succeeded
  | .error error => error.retainsResourceClaim = false → Clear id w

def ReplyTold (id : DeploymentId) (w : World) : Reply → Prop
  | .submission none => Clear id w
  | .submission (some snapshot) => ∀ message, snapshot.status = .rejected message → Clear id w
  | .job (some snapshot) | .reconciled snapshot => Told id w snapshot
  | .job none | .failure _ => True

def ClientTold (id : DeploymentId) (w : World) : Client → Prop
  | .acknowledging (.fail error) => ResultTold id w (.error error)
  | .acknowledging (.finish snapshot) => snapshot.status.isFinished = true ∧
      claimMatches snapshot.status snapshot.claim = true ∧ Told id w snapshot
  | .closing result | .returned result => ResultTold id w result
  | _ => True

structure Sound (requestId : DeploymentRequestId) (id : DeploymentId) (w : World) : Prop where
  consistent : Consistent w.registry
  stage : Stage requestId id w.handler w.registry
  sent : w.handler = .unsent ↔ w.client = .preparing
  accepted : w.accepted = true → w.handler = .running ∨ ∃ status, w.handler = .settled status
  stream : ∀ snapshot ∈ w.stream, Told id w snapshot
  reply : ∀ reply, w.reply = some reply → ReplyTold id w reply
  client : ClientTold id w w.client

/-- When the daemon answers that it has no record of the submission, the message is not still
on its way. -/
def Punctual (requestId : DeploymentRequestId) (w : World) : Action → Prop
  | .answer => w.registry.submissions.lookup requestId = none → w.handler ≠ .inFlight
  | _ => True

/-! ### What the client knows stays true -/

/-- The daemon's side has not gone back. -/
structure Later (id : DeploymentId) (w v : World) : Prop where
  settled : ∀ status, w.handler = .settled status → v.handler = .settled status
  clear : Clear id w → Clear id v

theorem Later.told (h : Later id w v) {snapshot : DeploymentJobSnapshot} (ht : Told id w snapshot) :
    Told id v snapshot :=
  fun hf => ⟨h.settled _ (ht hf).1, fun hc => h.clear ((ht hf).2 hc)⟩

theorem Later.resultTold (h : Later id w v) {result : Except DeploymentError Unit}
    (ht : ResultTold id w result) : ResultTold id v result := by
  cases result with
  | ok => exact h.settled _ ht
  | error error => exact fun hr => h.clear (ht hr)

theorem Later.replyTold (h : Later id w v) {reply : Reply} (ht : ReplyTold id w reply) :
    ReplyTold id v reply := by
  cases reply with
  | submission snapshot =>
    cases snapshot with
    | none => exact h.clear ht
    | some snapshot => exact fun message hm => h.clear (ht message hm)
  | job snapshot =>
    cases snapshot with
    | none => trivial
    | some snapshot => exact h.told ht
  | reconciled snapshot => exact h.told ht
  | failure message => trivial

theorem Later.clientTold (h : Later id w v) {client : Client} (ht : ClientTold id w client) :
    ClientTold id v client := by
  cases client with
  | acknowledging next =>
    cases next with
    | fail error => exact fun hr => h.clear (ht hr)
    | finish snapshot => exact ⟨ht.1, ht.2.1, h.told ht.2.2⟩
    | _ => trivial
  | closing result => exact h.resultTold ht
  | returned result => exact h.resultTold ht
  | _ => trivial

/-- A side that is not over cannot go back. -/
theorem Later.of_open (hs : ∀ status, w.handler ≠ .settled status) (hl : w.handler ≠ .lost)
    (hr : w.handler ≠ .refused) : Later id w v := by
  refine ⟨fun status h => absurd h (hs status), fun h => ?_⟩
  rcases h.1 with h | h | ⟨status, h⟩
  · exact absurd h hl
  · exact absurd h hr
  · exact absurd h (hs status)

/-- The daemon's side has not moved, and its job, if it is still there, has kept its claim. -/
theorem Later.of_claims (hh : v.handler = w.handler)
    (hj : ∀ job, v.registry.jobs.lookup id = some job → ∃ old, w.registry.jobs.lookup id = some old ∧
      (¬ old.claim.unresolved → ¬ job.claim.unresolved)) : Later id w v := by
  refine ⟨fun status h => hh.trans h, fun h => ⟨hh ▸ h.1, fun job hv => ?_⟩⟩
  obtain ⟨old, ho, hc⟩ := hj job hv
  exact hc (h.2 old ho)

theorem Later.of_registry (hh : v.handler = w.handler) (hr : v.registry = w.registry) : Later id w v :=
  .of_claims hh fun job hj => ⟨job, hr ▸ hj, fun hc => hc⟩

/-- One step: the new state of the daemon's side, and whatever is newly told. -/
theorem Sound.step (h : Sound requestId id w) (hl : Later id w v) (hc : Consistent v.registry)
    (hs : Stage requestId id v.handler v.registry) (hsent : v.handler = .unsent ↔ v.client = .preparing)
    (hacc : v.accepted = true → v.handler = .running ∨ ∃ status, v.handler = .settled status)
    (hstream : ∀ snapshot ∈ v.stream, snapshot ∈ w.stream ∨ Told id v snapshot)
    (hreply : ∀ reply, v.reply = some reply → w.reply = some reply ∨ ReplyTold id v reply)
    (hclient : v.client = w.client ∨ ClientTold id v v.client) : Sound requestId id v where
  consistent := hc
  stage := hs
  sent := hsent
  accepted := hacc
  stream snapshot hm := (hstream snapshot hm).elim (fun hw => hl.told (h.stream snapshot hw)) fun ht => ht
  reply reply hr := (hreply reply hr).elim (fun hw => hl.replyTold (h.reply reply hw)) fun ht => ht
  client := hclient.elim (fun he => he ▸ hl.clientTold h.client) fun ht => ht

/-- A step of the daemon's side that the client does not see yet. -/
theorem Sound.daemon (h : Sound requestId id w) (hl : Later id w v) (hc : Consistent v.registry)
    (hs : Stage requestId id v.handler v.registry) (hn : v.handler = .unsent ↔ w.handler = .unsent)
    (hacc : v.accepted = true → v.handler = .running ∨ ∃ status, v.handler = .settled status)
    (hstream : v.stream = w.stream) (hreply : v.reply = w.reply) (hclient : v.client = w.client) :
    Sound requestId id v :=
  h.step hl hc hs (by rw [hn, hclient, h.sent]) hacc (fun _ hm => .inl (hstream ▸ hm))
    (fun _ hr => .inl (hreply ▸ hr)) (.inl hclient)

/-- A step of the client alone. -/
theorem Sound.client_step (h : Sound requestId id w) (hsys : v.system = w.system)
    (hh : v.handler = w.handler) (hsent : w.client ≠ .preparing) (hv : v.client ≠ .preparing) (hacc : v.accepted = w.accepted)
    (hstream : ∀ snapshot ∈ v.stream, snapshot ∈ w.stream) (hreply : v.reply = w.reply ∨ v.reply = none)
    (hclient : ClientTold id w v.client) : Sound requestId id v := by
  have hr : v.registry = w.registry := by rw [registry, hsys]; rfl
  have hl : Later id w v := .of_registry hh hr
  refine h.step hl (hr ▸ h.consistent) (by rw [hh, hr]; exact h.stage) ⟨fun hu => ?_, fun hp => absurd hp hv⟩ ?_
    (fun s hm => .inl (hstream s hm)) (fun reply hre => ?_) (.inr (hl.clientTold hclient))
  · exact absurd (h.sent.mp (hh ▸ hu)) hsent
  · rw [hacc, hh]
    exact h.accepted
  · rcases hreply with he | he
    · exact .inl (he ▸ hre)
    · rw [he] at hre
      cases hre

/-! ### The client's steps -/

theorem statusIntoResult_told {snapshot : DeploymentJobSnapshot} (hf : snapshot.status.isFinished = true)
    (ht : Told id w snapshot) (hc : claimMatches snapshot.status snapshot.claim = true) :
    ResultTold id w (statusIntoResult snapshot.status snapshot.claim) := by
  obtain ⟨hh, hclear⟩ := ht hf
  cases hs : snapshot.status with
  | running => simp [hs, DeploymentStatus.isFinished] at hf
  | rollingBack => simp [hs, DeploymentStatus.isFinished] at hf
  | succeeded => rwa [hs] at hh
  | failed message =>
    intro _
    exact hclear (by simp_all [claimMatches, DeploymentClaimState.unresolved])
  | cancelled message =>
    intro _
    exact hclear (by simp_all [claimMatches, DeploymentClaimState.unresolved])
  | reconciliationRequired message =>
    unfold statusIntoResult
    dsimp only
    split_ifs with hcl
    · intro _
      refine hclear ?_
      rcases hcl with hcl | hcl <;> simp [hcl, DeploymentClaimState.unresolved]
    · intro hr
      simp [DeploymentError.retainsResourceClaim] at hr

theorem validateSnapshot_ok {snapshot : DeploymentJobSnapshot} (h : validateSnapshot id snapshot = .ok ()) :
    claimMatches snapshot.status snapshot.claim = true := by
  unfold validateSnapshot at h
  split_ifs at h with _ _ hc
  exact hc

theorem validateSnapshot_error {snapshot : DeploymentJobSnapshot} {error : DeploymentError}
    (h : validateSnapshot id snapshot = .error error) : error.retainsResourceClaim = true := by
  unfold validateSnapshot at h
  split_ifs at h <;> cases h <;> rfl

/-- An error that retains the claim tells nothing. -/
theorem resultTold_retained {error : DeploymentError} (h : error.retainsResourceClaim = true) :
    ResultTold id w (.error error) := fun hr => by simp [h] at hr

/-- A step that changes nothing but the client, and the call it waits for. -/
theorem Sound.call (h : Sound requestId id w) {client : Client} (hsent : w.client ≠ .preparing)
    (hv : client ≠ .preparing) (hclient : ClientTold id w client) : Sound requestId id (w.call client) :=
  h.client_step rfl rfl hsent hv rfl (fun _ hm => hm) (.inr rfl) hclient

theorem Sound.goto (h : Sound requestId id w) {client : Client} (hsent : w.client ≠ .preparing)
    (hv : client ≠ .preparing) (hclient : ClientTold id w client) : Sound requestId id { w with client := client } :=
  h.client_step rfl rfl hsent hv rfl (fun _ hm => hm) (.inl rfl) hclient

theorem Sound.resolved (h : Sound requestId id w) {error : String} (hsent : w.client ≠ .preparing)
    {snapshot : Option DeploymentSubmissionSnapshot} (ht : ReplyTold id w (.submission snapshot)) :
    Sound requestId id (w.resolved requestId id error snapshot) := by
  unfold World.resolved
  split
  · exact h.goto hsent nofun fun _ => ht
  · rename_i snapshot
    split_ifs
    · exact h.goto hsent nofun (resultTold_retained rfl)
    · split
      · exact h.call hsent nofun trivial
      · split_ifs
        · exact h.goto hsent nofun trivial
        · exact h.goto hsent nofun (resultTold_retained rfl)
      · rename_i message hm
        exact h.goto hsent nofun fun _ => ht message hm

theorem Sound.polled (h : Sound requestId id w) (hsent : w.client ≠ .preparing)
    {snapshot : Option DeploymentJobSnapshot} (ht : ReplyTold id w (.job snapshot)) :
    Sound requestId id (w.polled id snapshot) := by
  unfold World.polled
  split
  · exact h.goto hsent nofun (resultTold_retained rfl)
  · rename_i snapshot
    split
    · rename_i error he
      exact h.goto hsent nofun (resultTold_retained (validateSnapshot_error he))
    · rename_i hv
      split_ifs with hf
      · exact h.goto hsent nofun ⟨hf, validateSnapshot_ok hv, ht⟩
      · exact h.call hsent nofun trivial

theorem Sound.finish (h : Sound requestId id w) (hsent : w.client ≠ .preparing)
    {snapshot : DeploymentJobSnapshot} (hf : snapshot.status.isFinished = true)
    (hc : claimMatches snapshot.status snapshot.claim = true) (ht : Told id w snapshot) :
    Sound requestId id (w.finish snapshot) := by
  unfold World.finish
  split_ifs
  · split
    · exact h.call hsent nofun trivial
    · exact h.goto hsent nofun (resultTold_retained rfl)
  · exact h.goto hsent nofun (statusIntoResult_told hf ht hc)

theorem Sound.reconciled (h : Sound requestId id w) (hsent : w.client ≠ .preparing) {message : String}
    {snapshot : DeploymentJobSnapshot} (ht : Told id w snapshot) :
    Sound requestId id (w.reconciled id message snapshot) := by
  unfold World.reconciled
  split
  · rename_i error he
    exact h.goto hsent nofun (resultTold_retained (validateSnapshot_error he))
  · rename_i hv
    split_ifs with hrr hrc
    · exact h.goto hsent nofun (resultTold_retained rfl)
    · exact h.goto hsent nofun (resultTold_retained rfl)
    · -- a reconciled claim is only valid with a terminal status
      have hrc : snapshot.claim = .reconciled := not_not.mp hrc
      have hcm := validateSnapshot_ok hv
      refine h.goto hsent nofun fun _ => (ht ?_).2 (by simp [hrc, DeploymentClaimState.unresolved])
      cases hs : snapshot.status <;> simp_all [claimMatches, DeploymentStatus.isFinished]

theorem Sound.consumed (h : Sound requestId id w) (hsent : w.client ≠ .preparing) {lastRevision : ℕ}
    {snapshot : DeploymentJobSnapshot} (ht : Told id w snapshot) :
    Sound requestId id (w.consumed id lastRevision snapshot) := by
  unfold World.consumed
  split
  · exact h.call hsent nofun trivial
  · rename_i hv
    split_ifs with _ hf
    · exact h.call hsent nofun trivial
    · exact h.goto hsent nofun ⟨hf, validateSnapshot_ok hv, ht⟩
    · exact h.goto hsent nofun trivial

theorem Sound.rpcFailed (h : Sound requestId id w) {message : String}
    (hs : w.rpcFailed id message = some v) : Sound requestId id v := by
  unfold World.rpcFailed at hs
  split at hs <;> cases hs <;> rename_i hc
  all_goals exact h.goto (by rw [hc]; nofun) nofun (resultTold_retained rfl)

/-- The daemon's side before anything was sent. -/
theorem Sound.unsent_step (h : Sound requestId id w) (hp : w.client = .preparing) {client : Client}
    {handler : Handler} (hr : v.registry = w.registry) (hh : handler = .inFlight ∨ handler = .lost)
    (hv : v.handler = handler) (hvc : v.client = client) (hc : client ≠ .preparing)
    (hacc : v.accepted = w.accepted) (hstream : v.stream = w.stream) (hreply : v.reply = w.reply ∨ v.reply = none)
    (hclient : ClientTold id v client) : Sound requestId id v := by
  have hu := h.sent.mpr hp
  have hst := h.stage
  rw [hu] at hst
  refine h.step (.of_open (by simp [hu]) (by simp [hu]) (by simp [hu])) (hr ▸ h.consistent) ?_ ?_ ?_
    (fun s hm => .inl (hstream ▸ hm)) (fun reply hre => ?_) (.inr (hvc ▸ hclient))
  · rw [hr, hv]
    rcases hh with rfl | rfl <;> exact hst
  · rw [hv, hvc]
    refine ⟨fun he => ?_, fun he => absurd he hc⟩
    rcases hh with hh | hh <;> rw [hh] at he <;> cases he
  · intro ha
    have := h.accepted (hacc ▸ ha)
    simp [hu] at this
  · rcases hreply with he | he
    · exact .inl (he ▸ hre)
    · rw [he] at hre
      cases hre

theorem Sound.clientStep (h : Sound requestId id w) (hs : w.clientStep requestId id a = some v) :
    Sound requestId id v := by
  unfold World.clientStep at hs
  split at hs
  · split at hs <;> cases hs
    rename_i hc
    refine h.unsent_step hc rfl (.inr rfl) rfl rfl nofun rfl rfl (.inl rfl) fun _ => ⟨.inl rfl, ?_⟩
    have hst := h.stage
    rw [h.sent.mpr hc] at hst
    intro job hj
    exact absurd (hst.2.symm.trans hj) nofun
  · split at hs <;> cases hs
    rename_i hc
    exact h.unsent_step hc rfl (.inl rfl) rfl rfl nofun rfl rfl (.inl rfl) trivial
  · split at hs <;> cases hs
    rename_i hc
    exact h.unsent_step hc rfl (.inr rfl) rfl rfl nofun rfl rfl (.inr rfl) trivial
  · split at hs
    · rename_i hc
      split_ifs at hs
      cases hs
      exact h.goto (by rw [hc]; nofun) nofun trivial
    · cases hs
  · split at hs <;> cases hs
    rename_i hc
    exact h.call (by rw [hc]; nofun) nofun trivial
  · split at hs <;> cases hs
    rename_i next hc
    have hsent : w.client ≠ .preparing := by rw [hc]; nofun
    have ht := h.client
    rw [hc] at ht
    cases next with
    | attach => exact h.goto hsent nofun trivial
    | poll => exact h.call hsent nofun trivial
    | fail error => exact h.goto hsent nofun ht
    | finish snapshot => exact h.finish hsent ht.1 ht.2.1 ht.2.2
  · split at hs
    · rename_i error snapshot hc hr
      cases hs
      exact h.resolved (by rw [hc]; nofun) (h.reply _ hr)
    · rename_i snapshot hc hr
      cases hs
      exact h.polled (by rw [hc]; nofun) (h.reply _ hr)
    · rename_i message snapshot hc hr
      cases hs
      exact h.reconciled (by rw [hc]; nofun) (h.reply _ hr)
    · exact h.rpcFailed hs
    · cases hs
  · exact h.rpcFailed hs
  · split at hs <;> cases hs
    rename_i lastRevision snapshot rest hc hst
    have hsent : w.client ≠ .preparing := by rw [hc]; nofun
    have ht : Told id w snapshot := h.stream snapshot (hst ▸ List.mem_cons_self)
    have h' : Sound requestId id { w with stream := rest } :=
      h.client_step rfl rfl hsent hsent rfl (fun s hm => hst ▸ List.mem_cons_of_mem _ hm) (.inl rfl) h.client
    exact h'.consumed hsent ht
  · split at hs <;> cases hs
    rename_i hc
    exact h.call (by rw [hc]; nofun) nofun trivial
  · split at hs <;> cases hs
    rename_i result hc
    have ht := h.client
    rw [hc] at ht
    exact h.goto (by rw [hc]; nofun) nofun ht
  · cases hs

/-! ### Other callers -/

theorem Stage.other {op : Operation} {handler : Handler} {s : DeploymentRegistry}
    (h : Stage requestId id handler s) (hn : ¬ op.Names requestId id) :
    Stage requestId id handler (op.apply s) := by
  have hacc : (∀ record, s.submissions.lookup requestId = some record → record.status = .accepted id) →
      ∀ record, (op.apply s).submissions.lookup requestId = some record → record.status = .accepted id := by
    intro hs record hr
    obtain ⟨old, ho, he⟩ := submission_before hn hr
    exact he.trans (hs old ho)
  have hfresh : s.submissions.lookup requestId = none ∧ s.jobs.lookup id = none →
      (op.apply s).submissions.lookup requestId = none ∧ (op.apply s).jobs.lookup id = none :=
    fun hs => ⟨no_submission hn hs.1, no_job hn hs.2⟩
  have hpending : (∃ record, s.submissions.lookup requestId = some record ∧ record.status = .pending ∧
      record.identity.deploymentId = id) ∧ s.jobs.lookup id = none →
      (∃ record, (op.apply s).submissions.lookup requestId = some record ∧ record.status = .pending ∧
        record.identity.deploymentId = id) ∧ (op.apply s).jobs.lookup id = none := by
    rintro ⟨⟨record, hr, hp, hid⟩, hj⟩
    obtain ⟨record', hr', hp', hi'⟩ := submission_pending hn hr hp
    exact ⟨⟨record', hr', hp', hi' ▸ hid⟩, no_job hn hj⟩
  have hheld : (∃ job, s.jobs.lookup id = some job ∧ job.requestId = requestId ∧ job.claim = .held) →
      ∃ job, (op.apply s).jobs.lookup id = some job ∧ job.requestId = requestId ∧ job.claim = .held := by
    rintro ⟨job, hj, hr, hh⟩
    obtain ⟨job', hj', hr', he⟩ := op.apply_keeps (not_owned hn) hj (.inl hh)
    exact ⟨job', hj', hr'.trans hr, he.held hh⟩
  cases handler with
  | unsent => exact hfresh h
  | inFlight => exact hfresh h
  | lost => exact hfresh h
  | reserved => exact hpending h
  | rejecting message => exact hpending h
  | refused => exact no_job hn h
  | registered => exact ⟨hacc h.1, hheld h.2⟩
  | running => exact ⟨hacc h.1, hheld h.2⟩
  | settled status =>
    refine ⟨hacc h.1, h.2.1, fun job hj => ?_⟩
    obtain ⟨old, ho, hr, he⟩ := job_before hn hj
    obtain ⟨hr', hs', hc'⟩ := h.2.2 old ho
    refine ⟨hr.trans hr', he.status_eq.trans hs', ?_⟩
    rcases he.claim with hc | ⟨-, hc | hc⟩
    · rwa [hc]
    · simp [hc]
    · simp [hc]

/-- A claim given up is not taken again. -/
theorem evolves_resolved {old new : DeploymentRecord} (h : old.Evolves new) (hc : ¬ old.claim.unresolved) :
    ¬ new.claim.unresolved := by
  rcases h.claim with he | ⟨he, -⟩
  · rwa [he]
  · exact absurd (.inr he) hc

theorem Later.other {op : Operation} (hn : ¬ op.Names requestId id) (hh : v.handler = w.handler)
    (hr : v.registry = op.apply w.registry) : Later id w v := by
  refine .of_claims hh fun job hj => ?_
  rw [hr] at hj
  obtain ⟨old, ho, -, he⟩ := job_before hn hj
  exact ⟨old, ho, evolves_resolved he⟩

theorem Sound.other (h : Sound requestId id w) (op : Operation) (he : op.Enabled w.system)
    (hn : ¬ op.Names requestId id) :
    Sound requestId id { w with system := ⟨op.apply w.registry, op.leases w.system⟩ } :=
  h.daemon (.other hn rfl rfl) (op.apply_consistent he h.consistent) (h.stage.other hn) Iff.rfl h.accepted
    rfl rfl rfl

/-! ### The daemon's steps -/

/-- The daemon's side moves on from a stage that is not its last. -/
theorem Sound.advance (h : Sound requestId id w) {handler : Handler}
    (ho : (∀ status, w.handler ≠ .settled status) ∧ w.handler ≠ .lost ∧ w.handler ≠ .refused ∧ w.handler ≠ .unsent)
    (hv : v.handler = handler) (hu : handler ≠ .unsent) (hc : Consistent v.registry)
    (hs : Stage requestId id handler v.registry)
    (hacc : v.accepted = true → handler = .running ∨ ∃ status, handler = .settled status)
    (hstream : v.stream = w.stream) (hreply : v.reply = w.reply) (hclient : v.client = w.client) :
    Sound requestId id v :=
  h.daemon (.of_open ho.1 ho.2.1 ho.2.2.1) hc (hv ▸ hs)
    ⟨fun he => absurd (hv ▸ he) hu, fun he => absurd he ho.2.2.2⟩ (hv ▸ hacc) hstream hreply hclient

theorem Sound.not_accepted (h : Sound requestId id w) (hr : w.handler ≠ .running)
    (hs : ∀ status, w.handler ≠ .settled status) : w.accepted = false := by
  by_contra ha
  rcases h.accepted (by simpa using ha) with he | ⟨status, he⟩
  · exact hr he
  · exact hs status he

theorem reserveSubmission_ok {iter : SubmissionOrder} {plan : PlanFingerprint} {s t : DeploymentRegistry}
    (h : reserveSubmission iter requestId id plan s = (.ok (), t)) :
    ∃ record, t.submissions.lookup requestId = some record ∧ record.status = .pending ∧
      record.identity.deploymentId = id := by
  unfold reserveSubmission at h
  dsimp only at h
  split at h
  · cases h
  · split at h <;> cases h
    exact ⟨_, AList.lookup_insert _, rfl, rfl⟩

theorem Sound.deliver (h : Sound requestId id w) (hh : w.handler = .inFlight) (valid : Bool)
    (iter : SubmissionOrder) (plan : PlanFingerprint) :
    Sound requestId id (w.deliver requestId id valid iter plan) := by
  have hst := h.stage
  rw [hh] at hst
  have hna := h.not_accepted (by simp [hh]) (by simp [hh])
  -- a reservation registers no job
  have hjob : (reserveSubmission iter requestId id plan w.registry).2.jobs.lookup id = none := by
    rcases (reserveSubmission_effect requestId id).1 with he | ⟨_, ho, -⟩ | ⟨_, _, ho, -⟩ | ⟨-, _, _, _, he, -⟩
    · exact he.trans hst.2
    · rw [hst.2] at ho
      cases ho
    · rw [hst.2] at ho
      cases ho
    · cases he
  unfold World.deliver
  split_ifs
  · exact h.advance (by simp [hh]) rfl nofun h.consistent hst.2 (by simp [hna]) rfl rfl rfl
  · have hcons : Consistent (reserveSubmission iter requestId id plan w.registry).2 :=
      reserveSubmission_consistent h.consistent
    split <;> rename_i registry he <;> rw [he] at hjob hcons
    · exact h.advance (by simp [hh]) rfl nofun hcons ⟨reserveSubmission_ok he, hjob⟩ (by simp [setRegistry, hna])
        rfl rfl rfl
    · exact h.advance (by simp [hh]) rfl nofun hcons hjob (by simp [setRegistry, hna]) rfl rfl rfl

theorem Sound.reject (h : Sound requestId id w) (hh : w.handler = .reserved ∨ ∃ m, w.handler = .rejecting m)
    (message : String) :
    Sound requestId id { w.setRegistry (rejectSubmission requestId message w.registry) with handler := .refused } := by
  have hst : (∃ record, w.registry.submissions.lookup requestId = some record ∧ record.status = .pending ∧
      record.identity.deploymentId = id) ∧ w.registry.jobs.lookup id = none := by
    have hst := h.stage
    rcases hh with hh | ⟨m, hh⟩ <;> rw [hh] at hst <;> exact hst
  have ho : (∀ status, w.handler ≠ .settled status) ∧ w.handler ≠ .lost ∧ w.handler ≠ .refused ∧
      w.handler ≠ .unsent ∧ w.handler ≠ .running := by
    rcases hh with hh | ⟨m, hh⟩ <;> simp [hh]
  have hna := h.not_accepted ho.2.2.2.2 ho.1
  obtain ⟨⟨record, hr, hp, -⟩, hj⟩ := hst
  refine h.advance ⟨ho.1, ho.2.1, ho.2.2.1, ho.2.2.2.1⟩ rfl nofun (rejectSubmission_consistent h.consistent hr hp) ?_
    (by simp [setRegistry, hna]) rfl rfl rfl
  show (rejectSubmission requestId message w.registry).jobs.lookup id = none
  rw [(rejectSubmission_effect requestId).1]
  exact hj

theorem register_error {reserved : Except String ResourceReservation} {failure : Failure}
    {s t : DeploymentRegistry} (h : register requestId id reserved s = (.error failure, t)) : t = s := by
  unfold register at h
  split at h
  · cases h; rfl
  · rename_i submission hsub
    split_ifs at h
    · cases h; rfl
    · cases h; rfl
    · cases h; rfl
    · split at h
      · cases h; rfl
      · dsimp only at h
        split at h
        · rename_i hnone
          exact absurd (hsub.symm.trans hnone) nofun
        · cases h

theorem Sound.register (h : Sound requestId id w) (hh : w.handler = .reserved)
    {reserved : Except String ResourceReservation}
    (hs : w.daemonStep requestId id (.register reserved) = some v) : Sound requestId id v := by
  have hst := h.stage
  rw [hh] at hst
  have hna := h.not_accepted (by simp [hh]) (by simp [hh])
  have hcons : Consistent (Jobs.register requestId id reserved w.registry).2 := register_consistent h.consistent
  have hs : (if w.handler = .reserved then _ else none) = some v := hs
  rw [if_pos hh] at hs
  split at hs <;> rename_i registry he <;> rw [he] at hcons <;> cases hs
  · obtain ⟨⟨job, hj, hr, -, hc⟩, record, hrec, hacc⟩ := register_ok he
    refine h.advance (by simp [hh]) rfl nofun hcons ⟨fun record' hr' => ?_, job, hj, hr, hc⟩ (by simp [setRegistry, hna])
      rfl rfl rfl
    have hr' : registry.submissions.lookup requestId = some record' := hr'
    rw [hrec] at hr'
    cases hr'
    exact hacc
  · have := register_error he
    subst this
    exact h.advance (by simp [hh]) rfl nofun hcons hst (by simp [setRegistry, hna]) rfl rfl rfl

theorem registerStream_ok {s : DeploymentRegistry} {job : DeploymentRecord} (hj : s.jobs.lookup id = some job) :
    ∃ t job', registerStream id s = (.ok (), t) ∧ t.submissions = s.submissions ∧ t.jobs.lookup id = some job' ∧
      job'.requestId = job.requestId ∧ job'.claim = job.claim := by
  let record := { job with streamLeases := saturatingAdd u64Max job.streamLeases 1 }
  refine ⟨s.putJob id record, record, ?_, rfl, AList.lookup_insert s.jobs, rfl, rfl⟩
  simp only [registerStream, hj]
  rfl

theorem Sound.attach (h : Sound requestId id w) (hh : w.handler = .registered)
    (hs : w.daemonStep requestId id .attach = some v) : Sound requestId id v := by
  have hst := h.stage
  rw [hh] at hst
  obtain ⟨hacc, job, hj, hr, hc⟩ := hst
  have hcons : Consistent (registerStream id w.registry).2 := registerStream_consistent h.consistent
  obtain ⟨t, job', he, hsub, hj', hr', hc'⟩ := registerStream_ok hj
  have hs : (if w.handler = .registered then _ else none) = some v := hs
  simp only [if_pos hh, he] at hs
  rw [he] at hcons
  cases hs
  exact h.advance (by simp [hh]) rfl nofun hcons ⟨hsub ▸ hacc, job', hj', hr'.trans hr, hc'.trans hc⟩
    (fun _ => .inl rfl) rfl rfl rfl

/-- A held claim belongs to a job that is not finished. -/
theorem Sound.unfinished (h : Sound requestId id w) {job : DeploymentRecord}
    (hj : w.registry.jobs.lookup id = some job) (hc : job.claim = .held) : job.status.isFinished = false := by
  by_contra hf
  exact (h.consistent.job id job hj).finished_iff.mp (by simpa using hf) hc

theorem Sound.finalize (h : Sound requestId id w) (hh : w.handler = .running)
    {result : Option (Except DeploymentError Unit)}
    (hs : w.daemonStep requestId id (.finalize result) = some v) : Sound requestId id v := by
  have hst := h.stage
  rw [hh] at hst
  obtain ⟨hacc, job, hj, hr, hc⟩ := hst
  obtain ⟨claim, hclaim⟩ := runDeploymentExecutor_terminal result
  obtain ⟨snapshot, registry, job', he, hj', hs', hc', -, hr'⟩ := finalize_ok hj (h.unfinished hj hc) hclaim
  have hcons : Consistent (Jobs.finalize id (runDeploymentExecutor result).status
      (runDeploymentExecutor result).claimStatus w.registry).2 := finalize_consistent h.consistent
  have hsub : (Jobs.finalize id (runDeploymentExecutor result).status
      (runDeploymentExecutor result).claimStatus w.registry).2.submissions = w.registry.submissions :=
    (finalize_effect id).2
  have hs : (if w.handler = .running then _ else none) = some v := hs
  simp only [if_pos hh, he] at hs
  rw [he] at hcons hsub
  cases hs
  have hterm := terminalClaimState_ok hclaim
  refine h.advance (by simp [hh]) rfl nofun hcons ⟨hsub ▸ hacc, hterm.1, fun job'' hj'' => ?_⟩
    (fun _ => .inr ⟨_, rfl⟩) rfl rfl rfl
  have hj'' : registry.jobs.lookup id = some job'' := hj''
  rw [hj'] at hj''
  cases hj''
  exact ⟨hr'.trans hr, hs', hc' ▸ hterm.2.1⟩

/-- The registry rewrites the job without touching what the stage says of it. -/
theorem Stage.of_same {handler : Handler} {s t : DeploymentRegistry} (h : Stage requestId id handler s)
    (hs : t.submissions = s.submissions)
    (hn : s.jobs.lookup id = none → t.jobs.lookup id = none)
    (hj : ∀ job, s.jobs.lookup id = some job → ∃ job', t.jobs.lookup id = some job' ∧
      job'.requestId = job.requestId ∧ job'.claim = job.claim ∧
      (job.status.isFinished = true → job'.status = job.status)) : Stage requestId id handler t := by
  have hheld : (∃ job, s.jobs.lookup id = some job ∧ job.requestId = requestId ∧ job.claim = .held) →
      ∃ job, t.jobs.lookup id = some job ∧ job.requestId = requestId ∧ job.claim = .held := by
    rintro ⟨job, hjob, hr, hc⟩
    obtain ⟨job', hj', hr', hc', -⟩ := hj job hjob
    exact ⟨job', hj', hr'.trans hr, hc'.trans hc⟩
  cases handler with
  | unsent => exact ⟨hs ▸ h.1, hn h.2⟩
  | inFlight => exact ⟨hs ▸ h.1, hn h.2⟩
  | lost => exact ⟨hs ▸ h.1, hn h.2⟩
  | reserved => exact ⟨hs ▸ h.1, hn h.2⟩
  | rejecting message => exact ⟨hs ▸ h.1, hn h.2⟩
  | refused => exact hn h
  | registered => exact ⟨hs ▸ h.1, hheld h.2⟩
  | running => exact ⟨hs ▸ h.1, hheld h.2⟩
  | settled status =>
    refine ⟨hs ▸ h.1, h.2.1, fun job' hj' => ?_⟩
    cases hjob : s.jobs.lookup id with
    | none =>
      rw [hn hjob] at hj'
      cases hj'
    | some job =>
      obtain ⟨job'', hj'', hr, hc, hst⟩ := hj job hjob
      rw [hj'] at hj''
      cases hj''
      obtain ⟨hr', hs', hc'⟩ := h.2.2 job hjob
      exact ⟨hr.trans hr', (hst (hs' ▸ h.2.1)).trans hs', hc ▸ hc'⟩

theorem releaseStream_same (id : DeploymentId) (s : DeploymentRegistry) :
    (releaseStream id s).submissions = s.submissions ∧
      (s.jobs.lookup id = none → (releaseStream id s).jobs.lookup id = none) ∧
      ∀ job, s.jobs.lookup id = some job → ∃ job', (releaseStream id s).jobs.lookup id = some job' ∧
        job'.requestId = job.requestId ∧ job'.claim = job.claim ∧
        (job.status.isFinished = true → job'.status = job.status) := by
  unfold releaseStream
  refine ⟨by split <;> rfl, fun hn => by rw [hn]; exact hn, fun job hj => ?_⟩
  rw [hj]
  exact ⟨_, AList.lookup_insert _, rfl, rfl, fun _ => rfl⟩

/-- The same for the claim, from the job after to the job before. -/
theorem Later.of_same (hh : v.handler = w.handler)
    (hn : w.registry.jobs.lookup id = none → v.registry.jobs.lookup id = none)
    (hj : ∀ job, w.registry.jobs.lookup id = some job → ∃ job', v.registry.jobs.lookup id = some job' ∧
      job'.claim = job.claim) : Later id w v := by
  refine .of_claims hh fun job' hj' => ?_
  cases hjob : w.registry.jobs.lookup id with
  | none =>
    rw [hn hjob] at hj'
    cases hj'
  | some job =>
    obtain ⟨job'', hj'', hc⟩ := hj job hjob
    rw [hj'] at hj''
    cases hj''
    exact ⟨job, rfl, fun h => hc ▸ h⟩

theorem Sound.closeStream (h : Sound requestId id w) :
    Sound requestId id { w with system := ⟨releaseStream id w.registry, w.system.leases.erase id⟩ } := by
  obtain ⟨hs, hn, hj⟩ := releaseStream_same id w.registry
  refine h.daemon (.of_same rfl hn fun job hjob => ?_) (releaseStream_consistent h.consistent)
    (h.stage.of_same hs hn hj) Iff.rfl h.accepted rfl rfl rfl
  obtain ⟨job', hj', -, hc, -⟩ := hj job hjob
  exact ⟨job', hj', hc⟩

theorem observeStatus_same (id : DeploymentId) (status : DeploymentStatus) (s : DeploymentRegistry) :
    (s.jobs.lookup id = none → (observeStatus id status s).2.jobs.lookup id = none) ∧
      (∀ job, s.jobs.lookup id = some job → ∃ job', (observeStatus id status s).2.jobs.lookup id = some job' ∧
        job'.requestId = job.requestId ∧ job'.claim = job.claim ∧
        (job.status.isFinished = true → job'.status = job.status)) ∧
      ∀ snapshot, (observeStatus id status s).1 = .ok snapshot → snapshot.status.isFinished = false := by
  by_cases hf : status.isFinished = true
  · simp only [observeStatus, hf, if_true]
    refine ⟨fun hn => hn, fun job hj => ⟨job, hj, rfl, rfl, fun _ => rfl⟩, fun snapshot he => ?_⟩
    cases he
  · refine ⟨fun hn => by simp only [observeStatus, hf, hn]; exact hn, fun job hj => ?_, fun snapshot he => ?_⟩
    · by_cases hn : job.status.isFinished = true
      · obtain ⟨-, -, he⟩ := observeStatus_late status hj hn
        exact ⟨job, by rw [he, hj], rfl, rfl, fun _ => rfl⟩
      · obtain ⟨_, registry, job', he, -, hj', -, hc, -, hr⟩ :=
          observeStatus_ok hj (by simpa using hn) (by simpa using hf)
        exact ⟨job', by rw [he]; exact hj', hr, hc, fun h => absurd h hn⟩
    · cases hj : s.jobs.lookup id with
      | none => simp [observeStatus, hf, hj] at he
      | some job =>
        by_cases hn : job.status.isFinished = true
        · obtain ⟨_, hfail, -⟩ := observeStatus_late status hj hn
          rw [hfail] at he
          cases he
        · obtain ⟨_, _, _, heq, hs, -⟩ := observeStatus_ok hj (by simpa using hn) (by simpa using hf)
          rw [heq] at he
          cases he
          rw [hs]
          simpa using hf

theorem Sound.observe (h : Sound requestId id w) {status : DeploymentStatus}
    (hs : w.daemonStep requestId id (.observe status) = some v) : Sound requestId id v := by
  obtain ⟨hn, hj, hsnap⟩ := observeStatus_same id status w.registry
  have hcons : Consistent (observeStatus id status w.registry).2 := observeStatus_consistent h.consistent
  have hsub : (observeStatus id status w.registry).2.submissions = w.registry.submissions :=
    (observeStatus_effect id).2
  have hs : (if w.accepted then _ else none) = some v := hs
  split_ifs at hs
  have hclaim : ∀ job, w.registry.jobs.lookup id = some job →
      ∃ job', (observeStatus id status w.registry).2.jobs.lookup id = some job' ∧ job'.claim = job.claim := by
    intro job hjob
    obtain ⟨job', hj', -, hc, -⟩ := hj job hjob
    exact ⟨job', hj', hc⟩
  have hstage := h.stage.of_same hsub hn hj
  split at hs <;> rename_i registry he <;> rw [he] at hcons hn hclaim hstage hsnap <;> cases hs
  · refine h.step (.of_same rfl hn hclaim) hcons hstage h.sent h.accepted (fun s hm => ?_) (fun _ hr => .inl hr) (.inl rfl)
    rcases List.mem_append.mp hm with hm | hm
    · exact .inl hm
    · rw [List.mem_singleton.mp hm]
      exact .inr fun hf => by simp [hsnap _ rfl] at hf
  · exact h.daemon (.of_same rfl hn hclaim) hcons hstage Iff.rfl h.accepted rfl rfl rfl

/-- A snapshot of the registry's current record. -/
theorem Sound.told_snapshot (h : Sound requestId id w) {snapshot : DeploymentJobSnapshot}
    (hs : Jobs.snapshot id w.registry = .ok snapshot) : Told id w snapshot := by
  unfold Jobs.snapshot at hs
  split at hs <;> cases hs
  rename_i job hj
  intro hf
  have hf : job.status.isFinished = true := hf
  have hst := h.stage
  have hheld : ∀ job', w.registry.jobs.lookup id = some job' → job'.claim ≠ .held := by
    intro job' hj' hc
    rw [hj] at hj'
    cases hj'
    simp [h.unfinished hj hc] at hf
  have hnone : w.registry.jobs.lookup id ≠ none := by simp [hj]
  cases hh : w.handler with
  | settled status =>
    rw [hh] at hst
    obtain ⟨hr, hs', hc⟩ := hst.2.2 job hj
    refine ⟨by rw [← hs']; rfl, fun hcl => ⟨.inr (.inr ⟨status, hh⟩), fun job' hj' => ?_⟩⟩
    rw [hj] at hj'
    cases hj'
    exact hcl
  | registered =>
    rw [hh] at hst
    obtain ⟨-, job', hj', -, hc⟩ := hst
    exact absurd hc (hheld job' hj')
  | running =>
    rw [hh] at hst
    obtain ⟨-, job', hj', -, hc⟩ := hst
    exact absurd hc (hheld job' hj')
  | unsent => rw [hh] at hst; exact absurd hst.2 hnone
  | inFlight => rw [hh] at hst; exact absurd hst.2 hnone
  | lost => rw [hh] at hst; exact absurd hst.2 hnone
  | reserved => rw [hh] at hst; exact absurd hst.2 hnone
  | rejecting message => rw [hh] at hst; exact absurd hst.2 hnone
  | refused => rw [hh] at hst; exact absurd hst hnone

theorem Sound.report (h : Sound requestId id w) (hs : w.daemonStep requestId id .report = some v) :
    Sound requestId id v := by
  have hs : (if w.accepted then _ else none) = some v := hs
  split_ifs at hs
  split at hs <;> cases hs
  rename_i snapshot he
  have hl : Later id w { w with stream := w.stream ++ [snapshot] } := .of_registry rfl rfl
  refine h.step hl h.consistent h.stage h.sent h.accepted (fun s hm => ?_) (fun _ hr => .inl hr) (.inl rfl)
  rcases List.mem_append.mp hm with hm | hm
  · exact .inl hm
  · rw [List.mem_singleton.mp hm]
    exact .inr (hl.told (h.told_snapshot he))

/-- An answer that leaves the registry alone. -/
theorem Sound.reply_with (h : Sound requestId id w) {reply : Reply} (ht : ReplyTold id w reply) :
    Sound requestId id { w with reply := some reply } := by
  have hl : Later id w { w with reply := some reply } := .of_registry rfl rfl
  refine h.step hl h.consistent h.stage h.sent h.accepted (fun _ hm => .inl hm) (fun r hr => ?_) (.inl rfl)
  cases hr
  exact .inr (hl.replyTold ht)

/-- The daemon has no record of the submission, and the message is not on its way. -/
theorem Sound.clear_of_none (h : Sound requestId id w) (hc : w.client ≠ .preparing)
    (hn : w.registry.submissions.lookup requestId = none) (hf : w.handler ≠ .inFlight) : Clear id w := by
  have hst := h.stage
  -- a job would name the submission
  have hjob : ∀ job, w.registry.jobs.lookup id = some job → job.requestId = requestId → False := by
    intro job hj hr
    obtain ⟨record, hrec⟩ := Table.lookup_of_mem (h.consistent.submission_mem hj)
    rw [hr, hn] at hrec
    cases hrec
  cases hh : w.handler with
  | unsent => exact absurd (h.sent.mp hh) hc
  | inFlight => exact absurd hh hf
  | lost =>
    rw [hh] at hst
    exact ⟨.inl hh, fun job hj => absurd (hst.2.symm.trans hj) nofun⟩
  | reserved =>
    rw [hh] at hst
    obtain ⟨⟨record, hr, -⟩, -⟩ := hst
    exact absurd (hn.symm.trans hr) nofun
  | rejecting message =>
    rw [hh] at hst
    obtain ⟨⟨record, hr, -⟩, -⟩ := hst
    exact absurd (hn.symm.trans hr) nofun
  | refused =>
    rw [hh] at hst
    exact ⟨.inr (.inl hh), fun job hj => absurd ((show _ = none from hst).symm.trans hj) nofun⟩
  | registered =>
    rw [hh] at hst
    obtain ⟨-, job, hj, hr, -⟩ := hst
    exact (hjob job hj hr).elim
  | running =>
    rw [hh] at hst
    obtain ⟨-, job, hj, hr, -⟩ := hst
    exact (hjob job hj hr).elim
  | settled status =>
    rw [hh] at hst
    exact ⟨.inr (.inr ⟨status, hh⟩), fun job hj => (hjob job hj (hst.2.2 job hj).1).elim⟩

/-- A rejected submission has no job and will get none. -/
theorem Sound.clear_of_rejected (h : Sound requestId id w) {record : DeploymentSubmissionRecord}
    {message : String} (hr : w.registry.submissions.lookup requestId = some record)
    (hs : record.status = .rejected message) : Clear id w := by
  have hst := h.stage
  have hacc : (∀ r, w.registry.submissions.lookup requestId = some r → r.status = .accepted id) → False := by
    intro hall
    have := hall record hr
    rw [hs] at this
    cases this
  have hpend : (∃ r, w.registry.submissions.lookup requestId = some r ∧ r.status = .pending ∧
      r.identity.deploymentId = id) → False := by
    rintro ⟨r, hr', hp, -⟩
    rw [hr] at hr'
    cases hr'
    rw [hs] at hp
    cases hp
  cases hh : w.handler with
  | unsent => rw [hh] at hst; exact absurd (hst.1.symm.trans hr) nofun
  | inFlight => rw [hh] at hst; exact absurd (hst.1.symm.trans hr) nofun
  | lost => rw [hh] at hst; exact absurd (hst.1.symm.trans hr) nofun
  | reserved => rw [hh] at hst; exact (hpend hst.1).elim
  | rejecting m => rw [hh] at hst; exact (hpend hst.1).elim
  | refused =>
    rw [hh] at hst
    exact ⟨.inr (.inl hh), fun job hj => absurd ((show _ = none from hst).symm.trans hj) nofun⟩
  | registered => rw [hh] at hst; exact (hacc hst.1).elim
  | running => rw [hh] at hst; exact (hacc hst.1).elim
  | settled status => rw [hh] at hst; exact (hacc hst.1).elim

theorem Sound.answerQuery (h : Sound requestId id w) (hp : w.Punctual requestId .answer)
    (hs : w.answerQuery requestId id = some v) : Sound requestId id v := by
  unfold World.answerQuery at hs
  split at hs
  · rename_i error hc hr
    cases hs
    refine h.reply_with ?_
    unfold resolveSubmission
    split
    · rename_i hn
      exact h.clear_of_none (by rw [hc]; nofun) hn (hp hn)
    · rename_i record hrec
      exact fun message hm => h.clear_of_rejected hrec hm
  · cases hs
    refine h.reply_with ?_
    cases he : Jobs.snapshot id w.registry with
    | ok snapshot => exact h.told_snapshot he
    | error failure => trivial
  · split at hs
    · split_ifs at hs <;> cases hs
      · exact h.daemon (.of_registry rfl rfl) h.consistent h.stage Iff.rfl h.accepted rfl rfl rfl
      · exact h.reply_with trivial
    · cases hs
      exact h.reply_with trivial
  · cases hs

/-- `reconcile` returns the record it leaves. -/
theorem reconcile_snapshot {manifestPresent : Bool} {s t : DeploymentRegistry}
    {snapshot : DeploymentJobSnapshot} (h : Jobs.reconcile id manifestPresent s = (.ok snapshot, t)) :
    Jobs.snapshot id t = .ok snapshot := by
  unfold Jobs.reconcile at h
  split at h
  · cases h
  · rename_i record hr
    split at h
    · cases h
    · split at h
      · cases h
        have hr : s.bump.jobs.lookup id = some record := hr
        simp [Jobs.snapshot, hr]
      · dsimp only at h
        cases h
        simp [Jobs.snapshot, DeploymentRegistry.putJob]
      · cases h

theorem Sound.applyReconcile (h : Sound requestId id w) {manifestPresent : Bool}
    (hs : w.daemonStep requestId id (.applyReconcile manifestPresent) = some v) : Sound requestId id v := by
  have h' : Sound requestId id (w.setRegistry (Jobs.reconcile id manifestPresent w.registry).2) :=
    h.other (.reconcile id manifestPresent) trivial (by simp [Operation.Names])
  simp only [World.daemonStep] at hs
  split at hs
  · split at hs <;> rename_i he <;> rw [he] at h' <;> cases hs
    · exact h'.reply_with (h'.told_snapshot (reconcile_snapshot he))
    · exact h'.reply_with trivial
  · cases hs

theorem Sound.daemonStep (h : Sound requestId id w) (hp : w.Punctual requestId a)
    (hs : w.daemonStep requestId id a = some v) : Sound requestId id v := by
  cases a with
  | deliver valid iter plan =>
    simp only [World.daemonStep] at hs
    split_ifs at hs with hh
    cases hs
    exact h.deliver hh valid iter plan
  | lose =>
    simp only [World.daemonStep] at hs
    split_ifs at hs with hh
    cases hs
    have hst := h.stage
    rw [hh] at hst
    exact h.advance (by simp [hh]) rfl nofun h.consistent hst
      (by simp [h.not_accepted (by simp [hh]) (by simp [hh])]) rfl rfl rfl
  | reject message =>
    simp only [World.daemonStep] at hs
    split_ifs at hs with hh
    cases hs
    exact h.reject (.inl hh) message
  | register reserved =>
    refine h.register ?_ hs
    by_contra hh
    simp [World.daemonStep, hh] at hs
  | rejectFailed =>
    simp only [World.daemonStep] at hs
    split at hs <;> cases hs
    rename_i message hh
    exact h.reject (.inr ⟨message, hh⟩) message
  | attach =>
    refine h.attach ?_ hs
    by_contra hh
    simp [World.daemonStep, hh] at hs
  | finalize result =>
    refine h.finalize ?_ hs
    by_contra hh
    simp [World.daemonStep, hh] at hs
  | observe status => exact h.observe hs
  | report => exact h.report hs
  | closeStream =>
    simp only [World.daemonStep] at hs
    split_ifs at hs
    cases hs
    exact h.closeStream
  | answer => exact h.answerQuery hp hs
  | applyReconcile manifestPresent => exact h.applyReconcile hs
  | _ => cases hs

end World

/-- The steps of a run in which no query overtakes the submission it asks about. -/
inductive PunctualStep (requestId : DeploymentRequestId) (id : DeploymentId) : World → Action → World → Prop
  | mk {w v : World} {a : Action} (step : WorldStep requestId id w a v) (punctual : w.Punctual requestId a) :
      PunctualStep requestId id w a v

open World

theorem PunctualStep.sound {w v : World} {a : Action} (h : Sound requestId id w)
    (hs : PunctualStep requestId id w a v) : Sound requestId id v := by
  obtain ⟨hs, hp⟩ := hs
  cases hs with
  | client hs => exact h.clientStep hs
  | daemon hs => exact h.daemonStep hp hs
  | other enabled names => exact h.other _ enabled names

theorem Fresh.sound {system : System} (h : Fresh requestId id system) :
    Sound requestId id { system := system } where
  consistent := h.reachable.elim fun _ hrun => consistent_of_run hrun
  stage := ⟨h.request, h.job⟩
  sent := ⟨fun _ => rfl, fun _ => rfl⟩
  accepted := nofun
  stream := nofun
  reply := nofun
  client := trivial

/-- In every run in which the daemon never answers a query about the submission while the
submission itself is still on its way: if the client has returned `Ok`, the daemon finalized the
job as succeeded and its record, while it is kept, says so; and if the client has returned an
error that does not retain its claim, then from then on the daemon is through with the submission
and has no job of that id with a claim that is held or requires reconciliation. -/
theorem submission_agreement {system : System} {as : List Action} {w : World}
    (hf : Fresh requestId id system) (h : Run (PunctualStep requestId id) { system := system } as w) :
    (w.client = .returned (.ok ()) → w.handler = .settled .succeeded ∧
      ∀ job, w.registry.jobs.lookup id = some job → job.status = .succeeded) ∧
    (∀ error, w.client = .returned (.error error) → error.retainsResourceClaim = false →
      (w.handler = .lost ∨ w.handler = .refused ∨ ∃ status, w.handler = .settled status) ∧
      ∀ job, w.registry.jobs.lookup id = some job →
        job.claim ≠ .held ∧ job.claim ≠ .reconciliationRequired) := by
  have hs : Sound requestId id w := h.invariant hf.sound fun _ _ _ hi hs => hs.sound hi
  have hc := hs.client
  refine ⟨fun he => ?_, fun error he hr => ?_⟩
  · rw [he] at hc
    have hh : w.handler = .settled .succeeded := hc
    have hst := hs.stage
    rw [hh] at hst
    exact ⟨hh, fun job hj => (hst.2.2 job hj).2.1⟩
  · rw [he] at hc
    exact ⟨(hc hr).1, fun job hj => not_or.mp ((hc hr).2 job hj)⟩

/-! ### A run for each case -/

private def start : World := { system := {} }

private theorem fresh_start : Fresh ⟨1⟩ ⟨2⟩ {} := ⟨⟨[], .nil⟩, rfl, rfl⟩

/-- The message arrives, the job runs, and the client reads its end from the stream. -/
private def deliveredSubmission : List Action :=
  [.send, .deliver true (.stored _ _) ⟨"plan"⟩, .register (.ok ⟨1, ["machine"]⟩), .attach, .submitOk,
    .acknowledged, .finalize (some (.ok ())), .report, .frame, .acknowledged, .close]

/-- The client gives up on the reply and asks while the message is still on its way. -/
private def overtakenSubmission : List Action :=
  [.send, .submitError "timed out", .answer, .receive, .deliver true (.stored _ _) ⟨"plan"⟩,
    .register (.ok ⟨1, ["machine"]⟩)]

private def proceed (w : World) (a : Action) : Option World :=
  w.clientStep ⟨1⟩ ⟨2⟩ a <|> w.daemonStep ⟨1⟩ ⟨2⟩ a

private theorem proceed_step (w : World) (a : Action) (v : World) (h : proceed w a = some v) :
    WorldStep ⟨1⟩ ⟨2⟩ w a v := by
  unfold proceed at h
  cases he : w.clientStep ⟨1⟩ ⟨2⟩ a with
  | some u =>
    rw [he] at h
    cases h
    exact .client he
  | none =>
    rw [he] at h
    exact .daemon h

/-- A step other than an answer. -/
private def proceedUnasked (w : World) : Action → Option World
  | .answer => none
  | a => proceed w a

private theorem proceedUnasked_step (w : World) (a : Action) (v : World)
    (h : proceedUnasked w a = some v) : PunctualStep ⟨1⟩ ⟨2⟩ w a v := by
  cases a with
  | answer => cases h
  | _ => exact ⟨proceed_step w _ v h, trivial⟩

private theorem delivered_runs : (deliveredSubmission.foldlM proceedUnasked start).isSome = true := by decide

private theorem overtaken_runs : (overtakenSubmission.foldlM proceed start).isSome = true := by decide

theorem submission_agreement_delivered :
    ∃ w, Run (PunctualStep ⟨1⟩ ⟨2⟩) start deliveredSubmission w ∧ w.client = .returned (.ok ()) ∧
      w.handler = .settled .succeeded := by
  have h := Run.of_foldlM proceedUnasked_step (Option.some_get delivered_runs).symm
  exact ⟨_, h, rfl, ((submission_agreement fresh_start h).1 rfl).1⟩

theorem submission_overtaken :
    ¬ ∀ (requestId : DeploymentRequestId) (id : DeploymentId) (system : System) (as : List Action) (w : World),
      Fresh requestId id system → Run (WorldStep requestId id) { system := system } as w →
        ∀ error, w.client = .returned (.error error) → error.retainsResourceClaim = false →
          ∀ job, w.registry.jobs.lookup id = some job →
            job.claim ≠ .held ∧ job.claim ≠ .reconciliationRequired := by
  intro hall
  have h := Run.of_foldlM proceed_step (Option.some_get overtaken_runs).symm
  exact (hall _ _ _ _ _ fresh_start h _ rfl rfl _ rfl).1 rfl

end Lasper.Jobs
