import Lasper.X11.Access
import Lasper.X11.Lifecycle

/-! What the log must show before an ACL entry may be removed, and the invariant
of the store that carries this evidence from pass to pass: a stored pending
phase stands for an absence in the log that no stored observation of the claim
has disturbed since. -/

namespace Lasper.X11

open Lib Traced

/-- An observation that found the claim's machine present, or could not be made,
and whose transition was stored. -/
def Event.Disturbs (claimId : String) : Event → Prop
  | .observed observedId registration _ stored =>
    observedId = claimId ∧ stored = true ∧ registration ≠ .absent
  | .removed .. | .sent _ => False

/-- The machine of the claim was found absent at clock reading `since`, and
nothing disturbed that finding. -/
def AbsentSince (log : List Event) (claimId : String) (since : ℕ) : Prop :=
  ∃ earlier later, log = earlier ++ .observed claimId .absent since true :: later ∧
    ∀ event ∈ later, ¬ event.Disturbs claimId

/-- The machine of the claim was found absent at `since` and, the grace period
later, found absent again, with nothing disturbing in between or afterwards. -/
def AbsentTwice (log : List Event) (claimId : String) (since : ℕ) : Prop :=
  ∃ now earlier between later,
    log = earlier ++ .observed claimId .absent since true ::
      (between ++ .observed claimId .absent now true :: later) ∧
    since + claimReconcileGraceMillis ≤ now ∧
    ∀ event ∈ between ++ later, ¬ event.Disturbs claimId

/-- Every unresolved claim that is concerned by a removal was ready for it. -/
def Justified (concerned : ManagedX11GrantKey → String → ManagedX11MachineClaim → Prop)
    (log : List Event) : Prop :=
  ∀ earlier key bootId claims later, log = earlier ++ .removed key bootId claims :: later →
    ∀ claim ∈ claims, concerned key bootId claim → claim.phase ≠ .ended →
      ∃ since, claim.phase = .cleanupPending since ∧ claim.bootId = bootId ∧
        AbsentTwice earlier claim.claimId since

/-- Claims on exactly the grant whose entry is removed. -/
def SameGrant (key : ManagedX11GrantKey) (_ : String) (claim : ManagedX11MachineClaim) : Prop :=
  claim.key = key

/-- Claims of this boot on the same server process and ACL address, through
whichever endpoint. -/
def SameServer (key : ManagedX11GrantKey) (bootId : String) (claim : ManagedX11MachineClaim) : Prop :=
  claim.bootId = bootId ∧ claim.key.serverPeer = key.serverPeer ∧
    claim.key.serverPeerStartTime = key.serverPeerStartTime ∧ claim.key.aclEntry = key.aclEntry

structure Sound (claims : List ManagedX11MachineClaim) (log : List Event) : Prop where
  distinct : (claims.map (·.claimId)).Nodup
  backed : ∀ claim ∈ claims, ∀ since, claim.phase = .cleanupPending since →
    AbsentSince log claim.claimId since
  justified : Justified SameGrant log

def X11State.Sound (s : X11State) : Prop := X11.Sound s.claims s.log

section Log

variable {log events : List Event} {claimId : String} {since now : ℕ}

theorem AbsentSince.append (h : AbsentSince log claimId since)
    (he : ∀ event ∈ events, ¬ event.Disturbs claimId) : AbsentSince (log ++ events) claimId since := by
  obtain ⟨earlier, later, rfl, hl⟩ := h
  refine ⟨earlier, later ++ events, by simp, ?_⟩
  intro event hm
  rcases List.mem_append.mp hm with hm | hm
  · exact hl event hm
  · exact he event hm

theorem AbsentSince.started : AbsentSince (log ++ [.observed claimId .absent since true]) claimId since :=
  ⟨log, [], rfl, by simp⟩

/-- A second absence after the grace period completes the evidence. -/
theorem AbsentSince.again (h : AbsentSince log claimId since)
    (hg : since + claimReconcileGraceMillis ≤ now) :
    AbsentTwice (log ++ [.observed claimId .absent now true]) claimId since := by
  obtain ⟨earlier, later, rfl, hl⟩ := h
  exact ⟨now, earlier, later, [], by simp, hg, by simpa using hl⟩

theorem AbsentTwice.append (h : AbsentTwice log claimId since)
    (he : ∀ event ∈ events, ¬ event.Disturbs claimId) : AbsentTwice (log ++ events) claimId since := by
  obtain ⟨now, earlier, between, later, rfl, hg, hl⟩ := h
  refine ⟨now, earlier, between, later ++ events, by simp, hg, ?_⟩
  intro event hm
  rw [← List.append_assoc] at hm
  rcases List.mem_append.mp hm with hm | hm
  · exact hl event hm
  · exact he event hm

/-- Where a removal stands in a log with one more entry at its end. -/
theorem removed_split {event : Event} {earlier later : List Event} {key : ManagedX11GrantKey}
    {bootId : String} {claims : List ManagedX11MachineClaim}
    (h : log ++ [event] = earlier ++ .removed key bootId claims :: later) :
    (earlier = log ∧ event = .removed key bootId claims) ∨
      ∃ rest, log = earlier ++ .removed key bootId claims :: rest := by
  rcases List.eq_nil_or_concat later with rfl | ⟨rest, last, rfl⟩
  · have h' := List.append_inj' h rfl
    exact .inl ⟨h'.1.symm, by simpa using h'.2⟩
  · refine .inr ⟨rest, ?_⟩
    have h' : log ++ [event] = (earlier ++ .removed key bootId claims :: rest) ++ [last] := by
      rw [h]; simp
    exact (List.append_inj' h' rfl).1

theorem Justified.append (h : Justified SameGrant log) {event : Event}
    (he : ∀ key bootId claims, event ≠ .removed key bootId claims) : Justified SameGrant (log ++ [event]) := by
  intro earlier key bootId claims later hl
  rcases removed_split hl with ⟨-, hr⟩ | ⟨rest, hr⟩
  · exact absurd hr (he key bootId claims)
  · exact h earlier key bootId claims rest hr

end Log

section Store

variable {claims : List ManagedX11MachineClaim} {log : List Event} {claim : ManagedX11MachineClaim}
  {phase : MachineClaimPhase}

/-- A write that leaves no pending phase behind needs no evidence. -/
theorem Sound.put (h : Sound claims log) (hp : ∀ since, claim.phase ≠ .cleanupPending since) :
    Sound (Directory.put (·.claimId) claim claims) log where
  distinct := Directory.nodup_put h.distinct
  backed := by
    intro c hc since hs
    rcases Directory.mem_put h.distinct hc with rfl | ⟨hc, -⟩
    · exact absurd hs (hp since)
    · exact h.backed c hc since hs
  justified := h.justified

/-- An observation whose transition was not stored. -/
theorem Sound.unstored (h : Sound claims log) {claimId : String}
    {registration : SystemMachineRegistration} {now : ℕ} :
    Sound claims (log ++ [.observed claimId registration now false]) where
  distinct := h.distinct
  backed := by
    intro c hc since hs
    refine (h.backed c hc since hs).append ?_
    intro event he hd
    rw [List.mem_singleton.mp he] at hd
    exact Bool.noConfusion hd.2.1
  justified := h.justified.append fun _ _ _ => by simp

/-- Other claims do not mind an observation of this one. -/
theorem Sound.others_backed (h : Sound claims log) {c : ManagedX11MachineClaim} {claimId : String}
    (hc : c ∈ claims) (hn : c.claimId ≠ claimId) {registration : SystemMachineRegistration}
    {now since : ℕ} {stored : Bool} (hs : c.phase = .cleanupPending since) :
    AbsentSince (log ++ [.observed claimId registration now stored]) c.claimId since := by
  refine (h.backed c hc since hs).append ?_
  intro event he hd
  rw [List.mem_singleton.mp he] at hd
  exact hn hd.1.symm

/-- An observation that changes nothing: the stored phase is still good. -/
theorem Sound.observed (h : Sound claims log) (hc : claim ∈ claims)
    {registration : SystemMachineRegistration} {now : ℕ}
    (ha : ∀ since, claim.phase = .cleanupPending since → registration = .absent) :
    Sound claims (log ++ [.observed claim.claimId registration now true]) where
  distinct := h.distinct
  backed := by
    intro c hm since hs
    by_cases hn : c.claimId = claim.claimId
    · have hce : c = claim := Directory.eq_of_name_eq h.distinct hm hc hn
      subst hce
      refine (h.backed c hm since hs).append ?_
      intro event he hd
      rw [List.mem_singleton.mp he] at hd
      exact hd.2.2 (ha since hs)
    · exact h.others_backed hm hn hs
  justified := h.justified.append fun _ _ _ => by simp

/-- An observation whose transition was stored with it. -/
theorem Sound.stored (h : Sound claims log) {registration : SystemMachineRegistration} {now : ℕ}
    (ha : ∀ since, phase = .cleanupPending since → registration = .absent ∧ since = now) :
    Sound (Directory.put (·.claimId) { claim with phase } claims)
      (log ++ [.observed claim.claimId registration now true]) where
  distinct := Directory.nodup_put h.distinct
  backed := by
    intro c hm since hs
    rcases Directory.mem_put h.distinct hm with rfl | ⟨hc, hn⟩
    · obtain ⟨rfl, rfl⟩ := ha since hs
      exact .started
    · exact h.others_backed hc hn hs
  justified := h.justified.append fun _ _ _ => by simp

theorem Sound.removed (h : Sound claims log) {key : ManagedX11GrantKey} {bootId : String}
    (hj : ∀ claim ∈ claims, claim.key = key → claim.phase ≠ .ended →
      ∃ since, claim.phase = .cleanupPending since ∧ claim.bootId = bootId ∧
        AbsentTwice log claim.claimId since) :
    Sound claims (log ++ [.removed key bootId claims]) where
  distinct := h.distinct
  backed := by
    intro c hc since hs
    refine (h.backed c hc since hs).append ?_
    intro event he hd
    rw [List.mem_singleton.mp he] at hd
    exact hd
  justified := by
    intro earlier key' bootId' claims' later hl
    rcases removed_split hl with ⟨rfl, he⟩ | ⟨rest, hr⟩
    · cases he
      exact hj
    · exact h.justified earlier key' bootId' claims' rest hr

theorem Sound.sent (question : ℕ) (h : Sound claims log) : Sound claims (log ++ [.sent question]) where
  distinct := h.distinct
  backed := by
    intro c hc since hs
    refine (h.backed c hc since hs).append ?_
    intro event he hd
    rw [List.mem_singleton.mp he] at hd
    exact hd
  justified := h.justified.append fun _ _ _ => by simp

end Store

section Questions

variable {env : Environment} {s : X11State} {I : X11State → Prop}

/-- The state after one question. -/
def X11State.asked (s : X11State) : X11State := { s with calls := s.calls + 1 }

theorem ensures_ask {α : Type} {answer : ℕ → α} {E : String → X11State → Prop} (hI : I s.asked) :
    Ensures I (ask answer) (fun a t => a = answer s.calls ∧ t = s.asked) E s :=
  ensures_bind (ensures_read (Q := fun n t => n = s.calls ∧ t = s) ⟨rfl, rfl⟩) fun n t ht => by
    rw [ht.1, ht.2]
    exact ensures_bind (ensures_update (R := fun _ t => t = s.asked) hI rfl) fun _ t ht =>
      ensures_pure ⟨rfl, ht⟩

theorem ensures_askResult {α : Type} {answer : ℕ → Except String α} {E : String → X11State → Prop}
    (hI : I s.asked) (hE : ∀ e, E e s.asked) :
    Ensures I (askResult answer) (fun a t => answer s.calls = .ok a ∧ t = s.asked) E s := by
  refine ensures_bind (ensures_ask hI) ?_
  rintro result t ⟨rfl, rfl⟩
  exact ensures_ofExcept (fun a ha => ⟨ha, rfl⟩) fun e _ => hE e

theorem catalogOf_entries {α : Type} {name : α → String} {limit : ℕ} {exceeded : ℕ → String}
    {answer : Except String Unit} {files : List α}
    (h : (catalogOf name limit exceeded answer files).complete = true) :
    (catalogOf name limit exceeded answer files).entries = Directory.list name files := by
  unfold catalogOf at h ⊢
  split at h
  · cases h
  · split at h
    · cases h
    · rename_i hlength
      rw [if_neg hlength]

/-- What the claims of a state look like to an operation. -/
def X11State.listedClaims (s : X11State) (available : Bool) : List ManagedX11MachineClaim :=
  if available then Directory.list (·.claimId) s.claims else []

def X11State.listedRecords (s : X11State) : List ManagedX11GrantRecord := Directory.list (·.recordId) s.records

theorem X11State.mem_of_listedClaims {available : Bool} {claim : ManagedX11MachineClaim}
    (h : claim ∈ s.listedClaims available) : claim ∈ s.claims := by
  unfold X11State.listedClaims at h
  split at h
  · exact Directory.mem_list.mp h
  · cases h

theorem require_complete {α : Type} {catalog : Catalog α} {describe : String → String}
    {missing : String} {entries : List α} (h : catalog.require describe missing = .ok entries) :
    catalog.complete = true ∧ entries = catalog.entries := by
  unfold Catalog.require at h
  split at h
  · rename_i hc
    exact ⟨hc, (Except.ok.inj h).symm⟩
  · cases h

theorem loadClaims_spec (available : Bool) {E : String → X11State → Prop} (hI : I s.asked) :
    Ensures I (loadClaims env available)
      (fun catalog t => t = s.asked ∧ (catalog.complete = true → catalog.entries = s.listedClaims available))
      E s := by
  refine ensures_bind (ensures_ask hI) ?_
  rintro answer t ⟨rfl, rfl⟩
  refine ensures_read ⟨rfl, fun hcomplete => ?_⟩
  cases available with
  | false => rfl
  | true =>
    simp only [if_true] at hcomplete ⊢
    exact catalogOf_entries hcomplete

theorem loadRecords_spec {E : String → X11State → Prop} (hI : I s.asked) :
    Ensures I (loadRecords env)
      (fun catalog t => t = s.asked ∧ (catalog.complete = true → catalog.entries = s.listedRecords)) E s := by
  refine ensures_bind (ensures_ask hI) ?_
  rintro answer t ⟨rfl, rfl⟩
  exact ensures_read ⟨rfl, fun hcomplete => catalogOf_entries hcomplete⟩

/-- A complete catalog yields its entries. -/
theorem require_spec {α : Type} {catalog : Catalog α} {describe : String → String} {missing : String}
    {listed : List α} {E : String → X11State → Prop} (hc : catalog.complete = true → catalog.entries = listed)
    (hE : ∀ e, E e s) :
    Ensures I (ofExcept (catalog.require describe missing) : Desktop (List α))
      (fun entries t => t = s ∧ entries = listed) E s := by
  refine ensures_ofExcept (fun entries he => ⟨rfl, ?_⟩) fun e _ => hE e
  obtain ⟨hcomplete, rfl⟩ := require_complete he
  exact hc hcomplete

end Questions

section Preserved

variable {env : Environment}

/-- What only depends on the claims and the log survives every question. -/
theorem ask_keeps {P : List ManagedX11MachineClaim → List Event → Prop} {α : Type} (answer : ℕ → α) :
    Preserves (fun s => P s.claims s.log) (ask answer) :=
  preserves_bind preserves_read fun _ =>
    preserves_bind (preserves_update fun _ hs => hs) fun _ => preserves_pure

theorem askResult_keeps {P : List ManagedX11MachineClaim → List Event → Prop} {α : Type}
    (answer : ℕ → Except String α) : Preserves (fun s => P s.claims s.log) (askResult answer) :=
  preserves_bind (ask_keeps answer) fun _ => preserves_ofExcept

theorem writeRecord_keeps {P : List ManagedX11MachineClaim → List Event → Prop}
    (record : ManagedX11GrantRecord) : Preserves (fun s => P s.claims s.log) (writeRecord env record) :=
  preserves_bind (ask_keeps _) fun _ =>
    preserves_bind (preserves_update fun _ hs => hs) fun _ => preserves_ofExcept

theorem markRecordPhaseSync_keeps {P : List ManagedX11MachineClaim → List Event → Prop}
    (recordId : String) (phase : GrantRecordPhase) :
    Preserves (fun s => P s.claims s.log) (markRecordPhaseSync env recordId phase) := by
  refine preserves_bind (askResult_keeps _) fun _ => preserves_bind preserves_read fun found => ?_
  split
  · exact preserves_fail
  · exact writeRecord_keeps _

theorem ask_sound {α : Type} (answer : ℕ → α) : Preserves X11State.Sound (ask answer) :=
  ask_keeps answer

theorem askResult_sound {α : Type} (answer : ℕ → Except String α) :
    Preserves X11State.Sound (askResult answer) :=
  askResult_keeps answer

theorem writeRecord_sound (record : ManagedX11GrantRecord) :
    Preserves X11State.Sound (writeRecord env record) :=
  writeRecord_keeps record

theorem loadClaims_sound (available : Bool) : Preserves X11State.Sound (loadClaims env available) :=
  preserves_bind (ask_sound _) fun _ => preserves_read

theorem loadRecords_sound : Preserves X11State.Sound (loadRecords env) :=
  preserves_bind (ask_sound _) fun _ => preserves_read

theorem writeClaim_sound {available : Bool} {claim : ManagedX11MachineClaim}
    (hp : ∀ since, claim.phase ≠ .cleanupPending since) :
    Preserves X11State.Sound (writeClaim env available claim fun _ => []) := by
  refine preserves_bind (ask_sound _) fun outcome => preserves_bind ?_ fun _ => preserves_pure
  refine preserves_update fun s hs => ?_
  unfold X11State.Sound
  rw [List.append_nil]
  dsimp only
  split
  · exact Sound.put hs hp
  · exact hs

theorem markClaimPhaseSync_sound {available : Bool} {claim : ManagedX11MachineClaim}
    {phase : MachineClaimPhase} (hp : ∀ since, phase ≠ .cleanupPending since) :
    Preserves X11State.Sound (markClaimPhaseSync env available claim phase) :=
  writeClaim_sound hp

theorem endClaims_sound (available : Bool) (recordId : String) :
    Preserves X11State.Sound (endClaims env available recordId) := by
  refine preserves_bind (loadClaims_sound _) fun _ => preserves_bind preserves_ofExcept fun _ => ?_
  refine preserves_forEach fun claim => ?_
  unfold endClaim
  split
  · exact preserves_bind (markClaimPhaseSync_sound fun _ => by simp) fun _ => preserves_ofExcept
  · exact preserves_pure

theorem leaveUncertain_sound {α : Type} (record : ManagedX11GrantRecord)
    (operation reason kept : String) :
    Preserves X11State.Sound (leaveUncertain env record operation reason kept : Desktop α) := by
  refine preserves_bind (preserves_attempt (writeRecord_sound _)) fun result => ?_
  split
  · exact preserves_fail
  · exact preserves_fail

theorem joinGrant_sound (request : X11AuthorizationRequest) (record : ManagedX11GrantRecord) :
    Preserves X11State.Sound (joinGrant env request record) :=
  preserves_bind (ask_sound _) fun _ => preserves_bind (askResult_sound _) fun _ =>
    preserves_bind (writeClaim_sound fun _ => by
      simp [ManagedX11MachineClaim.activeForGrant]) fun _ => preserves_ofExcept

theorem confirmGrant_sound (record : ManagedX11GrantRecord) :
    Preserves X11State.Sound (confirmGrant env record) := by
  refine preserves_bind (preserves_mapFailure (writeRecord_sound _)) fun _ => ?_
  refine preserves_bind (writeClaim_sound fun _ => by
    simp [ManagedX11MachineClaim.activeFromRecord, ManagedX11MachineClaim.activeForGrant]) fun result => ?_
  split
  · exact preserves_pure
  · exact preserves_bind (preserves_attempt (writeRecord_sound _)) fun _ => preserves_fail

theorem addGrant_sound (request : X11AuthorizationRequest) (serverPeerStartTime : ℕ) :
    Preserves X11State.Sound (addGrant env request serverPeerStartTime) := by
  refine preserves_bind (ask_sound _) fun _ => preserves_bind (askResult_sound _) fun _ => ?_
  refine preserves_bind (askResult_sound _) fun _ => preserves_bind (writeRecord_sound _) fun _ => ?_
  refine preserves_bind (ask_sound _) fun _ => preserves_bind (ask_sound _) fun _ => ?_
  refine preserves_bind (ask_sound _) fun _ => preserves_bind (ask_sound _) fun _ => ?_
  dsimp only
  split
  · exact confirmGrant_sound _
  · exact leaveUncertain_sound _ _ _ _

theorem reuseManagedGrantSync_sound (records : List ManagedX11GrantRecord)
    (claims : List ManagedX11MachineClaim) (request : X11AuthorizationRequest)
    (serverPeerStartTime : ℕ) (bootId : String) : Preserves X11State.Sound
      (reuseManagedGrantSync env records claims request serverPeerStartTime bootId) := by
  unfold reuseManagedGrantSync
  dsimp only
  split
  · exact preserves_pure
  · exact preserves_bind (preserves_onlyIf (joinGrant_sound _ _)) fun _ => preserves_pure

theorem authorizeEnabled_sound (request : X11AuthorizationRequest)
    (claims : List ManagedX11MachineClaim) (before : X11AclSnapshot) :
    Preserves X11State.Sound (authorizeEnabled env request claims before) := by
  refine preserves_bind (askResult_sound _) fun _ => preserves_bind loadRecords_sound fun _ => ?_
  refine preserves_bind preserves_ofExcept fun _ => preserves_bind (askResult_sound _) fun _ => ?_
  split
  · exact reuseManagedGrantSync_sound _ _ _ _ _
  · exact preserves_bind preserves_ofExcept fun _ => addGrant_sound _ _

theorem ensureLocked_sound (request : X11AuthorizationRequest) :
    Preserves X11State.Sound (ensureLocked env request) := by
  refine preserves_bind (askResult_sound _) fun _ => preserves_bind (askResult_sound _) fun _ => ?_
  refine preserves_bind (loadClaims_sound _) fun _ => preserves_bind preserves_ofExcept fun _ => ?_
  refine preserves_bind (askResult_sound _) fun _ => preserves_bind (askResult_sound _) fun _ => ?_
  split
  · exact preserves_pure
  · exact preserves_fail
  · exact authorizeEnabled_sound _ _ _

theorem ensureAccessSync_sound (request : X11AuthorizationRequest) :
    Preserves X11State.Sound (ensureAccessSync env request) := by
  refine preserves_bind (askResult_sound _) fun _ => preserves_bind (askResult_sound _) fun _ => ?_
  refine preserves_bind (askResult_sound _) fun _ => ?_
  split
  · exact preserves_pure
  · exact preserves_fail
  · exact ensureLocked_sound _

theorem finishRevocation_sound (available : Bool) (claims : List ManagedX11MachineClaim)
    (record : ManagedX11GrantRecord) (unfinalized unended : String → String) :
    Preserves X11State.Sound (finishRevocation env available claims record unfinalized unended) :=
  preserves_bind (preserves_mapFailure (writeRecord_sound _)) fun _ =>
    preserves_onlyIf (preserves_mapFailure (endClaims_sound _ _))

theorem removeGrant_sound (available : Bool) (claims : List ManagedX11MachineClaim)
    (record : ManagedX11GrantRecord) :
    Preserves X11State.Sound (removeGrant env available claims record) := by
  refine preserves_bind (ask_sound _) fun _ => preserves_bind (ask_sound _) fun _ => ?_
  refine preserves_bind (ask_sound _) fun _ => preserves_bind (ask_sound _) fun _ => ?_
  dsimp only
  split
  · exact preserves_bind (finishRevocation_sound _ _ _ _ _) fun _ => preserves_pure
  · exact leaveUncertain_sound _ _ _ _

theorem revokeRecord_sound (available : Bool) (claims : List ManagedX11MachineClaim)
    (record : ManagedX11GrantRecord) :
    Preserves X11State.Sound (revokeRecord env available claims record) := by
  refine preserves_bind (askResult_sound _) fun _ => preserves_bind (preserves_onlyIf preserves_fail) fun _ => ?_
  refine preserves_bind (askResult_sound _) fun _ => preserves_bind (askResult_sound _) fun _ => ?_
  refine preserves_bind (preserves_onlyIf preserves_fail) fun _ => preserves_bind (askResult_sound _) fun _ => ?_
  refine preserves_bind (askResult_sound _) fun _ => preserves_bind preserves_ofExcept fun _ => ?_
  split
  · exact preserves_bind (preserves_onlyIf preserves_fail) fun _ => removeGrant_sound _ _ _
  · exact preserves_bind (finishRevocation_sound _ _ _ _ _) fun _ => preserves_pure

theorem revokeAccessSync_sound (request : X11RevokeRequest) :
    Preserves X11State.Sound (revokeAccessSync env request) := by
  refine preserves_bind (askResult_sound _) fun opened => ?_
  split
  · exact preserves_fail
  · refine preserves_bind (askResult_sound _) fun _ => preserves_bind loadRecords_sound fun _ => ?_
    refine preserves_bind preserves_ofExcept fun _ => preserves_bind (loadClaims_sound _) fun _ => ?_
    refine preserves_bind preserves_ofExcept fun _ => ?_
    refine preserves_bind (preserves_onlyIf preserves_fail) fun _ => ?_
    refine preserves_bind (askResult_sound _) fun _ => preserves_bind preserves_read fun found => ?_
    split
    · exact preserves_fail
    · exact preserves_bind preserves_ofExcept fun _ => revokeRecord_sound _ _ _

end Preserved

end Lasper.X11
