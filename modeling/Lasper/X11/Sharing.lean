import Lasper.X11.Finalization

/-! Who else holds the ACL entry that a manual revocation takes away. Claims are
counted on the revoked record only, and another record may carry the same key;
where the entry is gone already they are not counted at all. -/

namespace Lasper.X11

open Lib Traced

section Decision

/-- What a revocation has settled when it has looked at the ACL. -/
inductive RevocationDecision
  | remove (available : Bool) (claims : List ManagedX11MachineClaim) (record : ManagedX11GrantRecord)
  | absent (available : Bool) (claims : List ManagedX11MachineClaim) (record : ManagedX11GrantRecord)

variable (env : Environment)

def decideRecord (available : Bool) (claims : List ManagedX11MachineClaim)
    (record : ManagedX11GrantRecord) : Desktop RevocationDecision := do
  let bootId ← askResult env.hostBootId
  onlyIf (record.bootId ≠ bootId) (fail "X11 grant record belongs to another host boot")
  askResult env.connectCurrentSocket
  let current ← askResult env.peerStartTime
  onlyIf (current ≠ record.key.serverPeerStartTime)
    (fail "X11 server generation changed since the grant was created")
  let before ← askResult env.readAcl
  askResult env.requireCurrentSocket
  ofExcept (revokeMode before)
  if before.contains record.key.aclEntry then do
    let shared := (unresolvedClaims claims record.recordId).length
    onlyIf (shared > 1) (fail s!"X11 grant record {record.recordId} is shared by {shared} unresolved machine claims; stop the machines and let lifecycle cleanup revoke the shared entry")
    return .remove available claims record
  else return .absent available claims record

def decideOpened (request : X11RevokeRequest) (available : Bool) : Desktop RevocationDecision := do
  askResult env.lock
  let recordCatalog ← loadRecords env
  let _ ← ofExcept (recordCatalog.require (fun detail => s!"X11 revocation was not attempted because Lasper cannot safely inspect its grant records: {detail}")
    "the grant record set is incomplete")
  let claimCatalog ← loadClaims env available
  let claims ← ofExcept (claimCatalog.require (fun detail => s!"X11 revocation was not attempted because Lasper cannot safely inspect its machine claims: {detail}")
    "the machine claim set is incomplete")
  onlyIf (!validRecordId request.recordId) (fail "X11 revocation record ID is invalid")
  askResult env.readRecord
  match ← read (·.records.find? (·.recordId = request.recordId)) with
  | none => fail s!"X11 grant record {request.recordId} does not exist"
  | some record => do
    ofExcept (checkRevocation env request record)
    decideRecord env available claims record

/-- A revocation up to the point where it removes the entry or finds it gone. -/
def decideRevocation (request : X11RevokeRequest) : Desktop RevocationDecision := do
  match ← askResult env.openExisting with
  | none => fail "X11 grant record storage does not exist"
  | some available => decideOpened env request available

/-- The rest. Only here is a removal sent to the X server. -/
def carryOut : RevocationDecision → Desktop X11RevocationDisposition
  | .remove available claims record => removeGrant env available claims record
  | .absent available claims record => do
    finishRevocation env available claims record
      (fun error => s!"the exact ACL entry was already absent, but operation record {record.recordId} could not be finalized: {error}")
      (fun error => s!"the exact ACL entry was already absent and the grant record was finalized, but its machine claim could not be ended: {error}")
    return .alreadyAbsent record.recordId

theorem revokeRecord_eq (available : Bool) (claims : List ManagedX11MachineClaim) (record : ManagedX11GrantRecord) :
    revokeRecord env available claims record = decideRecord env available claims record >>= carryOut env := by
  unfold revokeRecord decideRecord
  simp only [bind_assoc]
  repeat apply bind_congr; intro _
  split_ifs
  · simp only [bind_assoc, pure_bind]
    rfl
  · simp only [pure_bind]
    rfl

theorem revokeOpened_eq (request : X11RevokeRequest) (available : Bool) :
    revokeOpened env request available = decideOpened env request available >>= carryOut env := by
  unfold revokeOpened decideOpened
  simp only [bind_assoc]
  repeat apply bind_congr; intro _
  split
  · rfl
  · simp only [bind_assoc, revokeRecord_eq]

theorem revokeAccessSync_eq (request : X11RevokeRequest) :
    revokeAccessSync env request = decideRevocation env request >>= carryOut env := by
  unfold revokeAccessSync decideRevocation
  rw [bind_assoc]
  apply bind_congr
  intro existing
  cases existing with
  | none => rfl
  | some available => exact revokeOpened_eq env request available

end Decision

section Frame

variable {env : Environment} {s : X11State}

/-- The stores of a state are as they were. -/
def SameCatalog (s t : X11State) : Prop := t.records = s.records ∧ t.claims = s.claims ∧ t.log = s.log

theorem ask_same {α : Type} (answer : ℕ → α) : Preserves (SameCatalog s) (ask answer) :=
  preserves_bind preserves_read fun _ => preserves_bind (preserves_update fun _ ht => ht) fun _ => preserves_pure

theorem askResult_same {α : Type} (answer : ℕ → Except String α) : Preserves (SameCatalog s) (askResult answer) :=
  preserves_bind (ask_same answer) fun _ => preserves_ofExcept

theorem decideRecord_kept (available : Bool) (claims : List ManagedX11MachineClaim)
    (record : ManagedX11GrantRecord) : Preserves (SameCatalog s) (decideRecord env available claims record) := by
  apply preserves_bind (askResult_same _)
  intro bootId
  apply preserves_bind (preserves_onlyIf preserves_fail)
  intro _
  apply preserves_bind (askResult_same _)
  intro _
  apply preserves_bind (askResult_same _)
  intro current
  apply preserves_bind (preserves_onlyIf preserves_fail)
  intro _
  apply preserves_bind (askResult_same _)
  intro before
  apply preserves_bind (askResult_same _)
  intro _
  apply preserves_bind preserves_ofExcept
  intro _
  split_ifs
  · exact preserves_bind (preserves_onlyIf preserves_fail) fun _ => preserves_pure
  · exact preserves_pure

theorem decideOpened_kept (request : X11RevokeRequest) (available : Bool) :
    Preserves (SameCatalog s) (decideOpened env request available) := by
  apply preserves_bind (askResult_same _)
  intro _
  apply preserves_bind (preserves_bind (ask_same _) fun _ => preserves_read)
  intro recordCatalog
  apply preserves_bind preserves_ofExcept
  intro _
  apply preserves_bind (preserves_bind (ask_same _) fun _ => preserves_read)
  intro claimCatalog
  apply preserves_bind preserves_ofExcept
  intro claims
  apply preserves_bind (preserves_onlyIf preserves_fail)
  intro _
  apply preserves_bind (askResult_same _)
  intro _
  apply preserves_bind preserves_read
  intro found
  cases found with
  | none => exact preserves_fail
  | some record => exact preserves_bind preserves_ofExcept fun _ => decideRecord_kept available claims record

theorem decideRevocation_same (request : X11RevokeRequest) : Preserves (SameCatalog s) (decideRevocation env request) := by
  apply preserves_bind (askResult_same _)
  intro existing
  cases existing with
  | none => exact preserves_fail
  | some available => exact decideOpened_kept request available

end Frame

section Answers

variable {env : Environment} {s : X11State} {α β : Type}

theorem askResult_bind_ok {answer : ℕ → Except String α} {f : α → Desktop β} {b : β} :
    ((askResult answer >>= f) s).result = .ok b ↔ ∃ a, answer s.calls = .ok a ∧ (f a s.asked).result = .ok b := by
  unfold askResult
  rw [bind_assoc, bind_result_ok]
  constructor
  · intro ⟨a, ha, h⟩
    cases ha
    obtain ⟨value, hvalue, h⟩ := bind_result_ok.mp h
    cases hanswer : answer s.calls with
    | ok other =>
      rw [hanswer] at hvalue h
      cases hvalue
      exact ⟨_, rfl, h⟩
    | error error =>
      rw [hanswer] at hvalue
      cases hvalue
  · intro ⟨a, ha, h⟩
    refine ⟨.ok a, congrArg Except.ok ha, ?_⟩
    exact h

theorem ofExcept_bind_ok {x : Except String α} {f : α → Desktop β} {b : β} :
    ((Traced.ofExcept x >>= f) s).result = .ok b ↔ ∃ a, x = .ok a ∧ (f a s).result = .ok b := by
  rw [bind_result_ok]
  cases x with
  | ok a => exact Iff.rfl
  | error error => simp [Traced.ofExcept, fail]

theorem onlyIf_fail_bind_ok {c : Bool} {error : String} {f : Unit → Desktop β} {b : β} :
    ((onlyIf c (fail error) >>= f) s).result = .ok b ↔ c = false ∧ (f () s).result = .ok b := by
  rw [bind_result_ok]
  cases c with
  | true => simp [onlyIf, fail]
  | false =>
    simp only [onlyIf, Traced.pure, Bool.false_eq_true, if_false, true_and]
    exact ⟨fun ⟨_, h⟩ => h, fun h => ⟨(), h⟩⟩

theorem read_bind_ok {look : X11State → α} {f : α → Desktop β} {b : β} :
    ((Traced.read look >>= f) s).result = .ok b ↔ (f (look s) s).result = .ok b := by
  rw [bind_result_ok]
  simp [Traced.read]

theorem catalog_require_ok {name : α → String} {limit : ℕ} {exceeded : ℕ → String} {answer : Except String Unit}
    {files entries : List α} {describe : String → String} {missing : String} :
    (catalogOf name limit exceeded answer files).require describe missing = .ok entries ↔
      answer = .ok () ∧ files.length ≤ limit ∧ entries = Directory.list name files := by
  unfold Catalog.require catalogOf
  cases answer with
  | error error => simp
  | ok _ =>
    by_cases hmany : files.length > limit
    · simp [hmany]
    · simp [hmany, eq_comm]
      omega

theorem loadRecords_require_ok {describe : String → String} {missing : String}
    {f : List ManagedX11GrantRecord → Desktop β} {b : β} :
    (((do
      let catalog ← loadRecords env
      let records ← Traced.ofExcept (catalog.require describe missing)
      f records) : Desktop β) s).result = .ok b ↔
      env.readRecords s.calls = .ok () ∧ s.records.length ≤ maxGrantRecords ∧
        (f s.listedRecords s.asked).result = .ok b := by
  unfold loadRecords
  rw [bind_assoc, bind_result_ok]
  constructor
  · intro ⟨answer, hanswer, h⟩
    cases hanswer
    rw [read_bind_ok, ofExcept_bind_ok] at h
    obtain ⟨records, hrequire, h⟩ := h
    obtain ⟨hread, hcount, hrecords⟩ := catalog_require_ok.mp hrequire
    rw [hrecords] at h
    exact ⟨hread, hcount, h⟩
  · intro ⟨hread, hcount, h⟩
    refine ⟨.ok (), congrArg Except.ok hread, ?_⟩
    rw [read_bind_ok, ofExcept_bind_ok]
    exact ⟨_, catalog_require_ok.mpr ⟨rfl, hcount, rfl⟩, h⟩

theorem loadClaims_require_ok {describe : String → String} {missing : String}
    {f : List ManagedX11MachineClaim → Desktop β} {b : β} :
    (((do
      let catalog ← loadClaims env true
      let claims ← Traced.ofExcept (catalog.require describe missing)
      f claims) : Desktop β) s).result = .ok b ↔
      env.readClaims s.calls = .ok () ∧ s.claims.length ≤ maxMachineClaims ∧
        (f (s.listedClaims true) s.asked).result = .ok b := by
  unfold loadClaims
  simp only [if_true]
  rw [bind_assoc, bind_result_ok]
  constructor
  · intro ⟨answer, hanswer, h⟩
    cases hanswer
    rw [read_bind_ok, ofExcept_bind_ok] at h
    obtain ⟨claims, hrequire, h⟩ := h
    obtain ⟨hread, hcount, hclaims⟩ := catalog_require_ok.mp hrequire
    rw [hclaims] at h
    exact ⟨hread, hcount, h⟩
  · intro ⟨hread, hcount, h⟩
    refine ⟨.ok (), congrArg Except.ok hread, ?_⟩
    rw [read_bind_ok, ofExcept_bind_ok]
    exact ⟨_, catalog_require_ok.mpr ⟨rfl, hcount, rfl⟩, h⟩

end Answers

section Miscount

variable {env : Environment} {s : X11State} {request : X11RevokeRequest}

/-- What the record has to have in common with the request. -/
structure Revocable (uid : ℕ) (request : X11RevokeRequest) (record : ManagedX11GrantRecord) : Prop where
  phase : record.phase = .confirmedAdded
  caller : record.callerUid = uid
  target : record.target = request.target
  identity : record.identity.matches request.projection.identity = true
  display : record.key.display = request.projection.hostSocket.display
  alternate : record.key.alternateEndpoint = request.projection.hostSocket.alternate
  source : record.key.source = request.projection.hostSocket.source
  canonicalSource : record.key.canonicalSource = request.projection.hostSocket.canonicalPath
  revision : record.key.socketRevision = request.projection.hostSocket.revision
  serverPeer : record.key.serverPeer = request.projection.hostSocket.peerIdentity

theorem checkRevocation_ok {record : ManagedX11GrantRecord} :
    checkRevocation env request record = .ok () ↔ Revocable env.effectiveUid request record := by
  unfold checkRevocation
  simp only []
  split_ifs with hphase hcaller hother
  · simp only [false_iff]
    exact fun h => hphase h.phase
  · simp only [false_iff]
    exact fun h => hcaller h.caller
  · simp only [false_iff]
    intro h
    rcases hother with hother | hother | hother | hother | hother | hother | hother | hother
    · exact hother h.target
    · rw [h.identity] at hother
      cases hother
    · exact hother h.display
    · exact hother h.alternate
    · exact hother h.source
    · exact hother h.canonicalSource
    · exact hother h.revision
    · exact hother h.serverPeer
  · simp only [not_or, not_not, Bool.not_eq_false] at hphase hcaller hother
    obtain ⟨htarget, hidentity, hdisplay, halternate, hsource, hcanonical, hrevision, hpeer⟩ := hother
    simp only [true_iff]
    exact ⟨hphase, hcaller, htarget, hidentity, hdisplay, halternate, hsource, hcanonical, hrevision, hpeer⟩

/-- The unresolved claims with a key, whatever record they are attached to. -/
def sharing (claims : List ManagedX11MachineClaim) (key : ManagedX11GrantKey) : List ManagedX11MachineClaim :=
  claims.filter fun claim => claim.key = key && claim.phase.requiresReconcile

/-- The removal is sent. -/
def Removes (env : Environment) (request : X11RevokeRequest) (s : X11State) : Prop :=
  ∃ available claims record, (decideRevocation env request s).result = .ok (.remove available claims record)

/-- The entry is gone already. -/
def FindsAbsent (env : Environment) (request : X11RevokeRequest) (s : X11State) : Prop :=
  ∃ available claims record, (decideRevocation env request s).result = .ok (.absent available claims record)

/-- There are no claims without a directory for them. -/
def ClaimsAvailable (env : Environment) (s : X11State) : Prop :=
  env.openExisting s.calls = .ok (some false) → s.claims = []

theorem decideRecord_ok {available : Bool} {claims : List ManagedX11MachineClaim}
    {record : ManagedX11GrantRecord} {decision : RevocationDecision}
    (h : (decideRecord env available claims record s).result = .ok decision) :
    ∃ acl, env.readAcl (s.calls + 3) = .ok acl ∧
      (acl.contains record.key.aclEntry = true → (unresolvedClaims claims record.recordId).length ≤ 1) := by
  unfold decideRecord at h
  obtain ⟨bootId, -, h⟩ := askResult_bind_ok.mp h
  obtain ⟨-, h⟩ := onlyIf_fail_bind_ok.mp h
  obtain ⟨_, -, h⟩ := askResult_bind_ok.mp h
  obtain ⟨current, -, h⟩ := askResult_bind_ok.mp h
  obtain ⟨-, h⟩ := onlyIf_fail_bind_ok.mp h
  obtain ⟨before, hbefore, h⟩ := askResult_bind_ok.mp h
  obtain ⟨_, -, h⟩ := askResult_bind_ok.mp h
  obtain ⟨_, -, h⟩ := ofExcept_bind_ok.mp h
  refine ⟨before, hbefore, fun hcontains => ?_⟩
  rw [if_pos hcontains] at h
  obtain ⟨hshared, -⟩ := onlyIf_fail_bind_ok.mp h
  simpa using hshared

/-- The record that a revocation with readable catalogs has settled on. -/
structure Removable (uid : ℕ) (request : X11RevokeRequest) (s : X11State) (record : ManagedX11GrantRecord) : Prop where
  valid : validRecordId request.recordId = true
  found : s.records.find? (·.recordId = request.recordId) = some record
  revocable : Revocable uid request record
  recordCount : s.records.length ≤ maxGrantRecords
  claimCount : s.claims.length ≤ maxMachineClaims

theorem listedClaims_unresolved (recordId : String) :
    (unresolvedClaims (s.listedClaims true) recordId).length = (unresolvedClaims s.claims recordId).length :=
  ((List.perm_insertionSort _ s.claims).filter _).length_eq

theorem decideOpened_ok {decision : RevocationDecision}
    (h : (decideOpened env request true s).result = .ok decision) :
    ∃ record acl, Removable env.effectiveUid request s record ∧ env.readAcl (s.calls + 7) = .ok acl ∧
      (acl.contains record.key.aclEntry = true → (unresolvedClaims s.claims request.recordId).length ≤ 1) := by
  unfold decideOpened at h
  obtain ⟨_, -, h⟩ := askResult_bind_ok.mp h
  obtain ⟨-, hrecords, h⟩ := loadRecords_require_ok.mp h
  obtain ⟨-, hclaims, h⟩ := loadClaims_require_ok.mp h
  obtain ⟨hvalid, h⟩ := onlyIf_fail_bind_ok.mp h
  obtain ⟨_, -, h⟩ := askResult_bind_ok.mp h
  rw [read_bind_ok] at h
  cases hfind : s.records.find? (·.recordId = request.recordId) with
  | none =>
    have hnone : s.asked.asked.asked.asked.records.find? (·.recordId = request.recordId) = none := hfind
    rw [hnone] at h
    cases h
  | some record =>
    have hsome : s.asked.asked.asked.asked.records.find? (·.recordId = request.recordId) = some record := hfind
    rw [hsome] at h
    obtain ⟨_, hcheck, h⟩ := ofExcept_bind_ok.mp h
    obtain ⟨acl, hacl, hcount⟩ := decideRecord_ok h
    refine ⟨record, acl, ⟨by simpa using hvalid, hfind, checkRevocation_ok.mp hcheck, hrecords, hclaims⟩, hacl, ?_⟩
    have hid : record.recordId = request.recordId := by simpa using List.find?_some hfind
    have hlisted := listedClaims_unresolved (s := s) request.recordId
    rw [hid] at hcount
    exact hlisted ▸ hcount

theorem decideRevocation_ok {decision : RevocationDecision}
    (h : (decideRevocation env request s).result = .ok decision) :
    ∃ available, env.openExisting s.calls = .ok (some available) ∧
      (decideOpened env request available s.asked).result = .ok decision := by
  unfold decideRevocation at h
  obtain ⟨existing, hexisting, h⟩ := askResult_bind_ok.mp h
  cases existing with
  | none => cases h
  | some available => exact ⟨available, hexisting, h⟩

/-- An X server and a store that refuse nothing, as long as the record stands. -/
def willing (uid : ℕ) (record : ManagedX11GrantRecord) (present : Bool) : Environment where
  effectiveUid := uid
  openExisting _ := .ok (some true)
  openState _ := .ok ()
  lock _ := .ok ()
  readClaims _ := .ok ()
  readRecords _ := .ok ()
  readRecord _ := .ok ()
  write _ := .written
  connectCurrentSocket _ := .ok ()
  requireCurrentSocket _ := .ok ()
  peerStartTime _ := .ok record.key.serverPeerStartTime
  hostBootId _ := .ok record.bootId
  unixMillis _ := .ok 0
  readAcl _ := .ok ⟨.enabled, if present then [record.key.aclEntry] else []⟩
  changeHosts _ := .ok ()
  systemMachineRegistration _ _ := .absent
  newId _ := ""

theorem willing_decides {uid : ℕ} {record : ManagedX11GrantRecord} {present : Bool} {decision : RevocationDecision}
    (h : Removable uid request s record)
    (hdecision : if present then decision = .remove true (s.listedClaims true) record ∧
      (unresolvedClaims s.claims request.recordId).length ≤ 1
      else decision = .absent true (s.listedClaims true) record) :
    (decideRevocation (willing uid record present) request s).result = .ok decision := by
  have hid : record.recordId = request.recordId := by simpa using List.find?_some h.found
  unfold decideRevocation
  refine askResult_bind_ok.mpr ⟨some true, rfl, ?_⟩
  unfold decideOpened
  refine askResult_bind_ok.mpr ⟨(), rfl, ?_⟩
  refine loadRecords_require_ok.mpr ⟨rfl, h.recordCount, ?_⟩
  refine loadClaims_require_ok.mpr ⟨rfl, h.claimCount, ?_⟩
  refine onlyIf_fail_bind_ok.mpr ⟨by simpa using h.valid, ?_⟩
  refine askResult_bind_ok.mpr ⟨(), rfl, ?_⟩
  rw [read_bind_ok]
  have hfound : s.asked.asked.asked.asked.asked.records.find? (·.recordId = request.recordId) = some record := h.found
  rw [hfound]
  refine ofExcept_bind_ok.mpr ⟨(), checkRevocation_ok.mpr h.revocable, ?_⟩
  unfold decideRecord
  refine askResult_bind_ok.mpr ⟨record.bootId, rfl, ?_⟩
  refine onlyIf_fail_bind_ok.mpr ⟨by simp, ?_⟩
  refine askResult_bind_ok.mpr ⟨(), rfl, ?_⟩
  refine askResult_bind_ok.mpr ⟨record.key.serverPeerStartTime, rfl, ?_⟩
  refine onlyIf_fail_bind_ok.mpr ⟨by simp, ?_⟩
  refine askResult_bind_ok.mpr ⟨⟨.enabled, if present then [record.key.aclEntry] else []⟩, rfl, ?_⟩
  refine askResult_bind_ok.mpr ⟨(), rfl, ?_⟩
  refine ofExcept_bind_ok.mpr ⟨(), rfl, ?_⟩
  cases present with
  | true =>
    obtain ⟨rfl, hcount⟩ := hdecision
    have hlisted : (unresolvedClaims (s.listedClaims true) record.recordId).length ≤ 1 := by
      rw [listedClaims_unresolved, hid]
      exact hcount
    have hcontains : X11AclSnapshot.contains ⟨.enabled, if true then [record.key.aclEntry] else []⟩
        record.key.aclEntry = true := by
      simp [X11AclSnapshot.contains]
    rw [if_pos hcontains]
    exact onlyIf_fail_bind_ok.mpr ⟨decide_eq_false (Nat.not_lt.mpr hlisted), rfl⟩
  | false =>
    rw [hdecision]
    rfl

/-- A revocation sends the removal only when at most one unresolved claim holds
the entry. When more of them hold it, or when it neither sends the removal nor
finds the entry gone, it fails and leaves everything as it was. -/
structure RespectsSharing (env : Environment) (request : X11RevokeRequest) (s : X11State) : Prop where
  removes : ∀ record, s.records.find? (·.recordId = request.recordId) = some record → Removes env request s →
    (sharing s.claims record.key).length ≤ 1
  shared : ∀ record, s.records.find? (·.recordId = request.recordId) = some record →
    1 < (sharing s.claims record.key).length →
    ∃ error, (revokeAccessSync env request s).result = .error error ∧ SameCatalog s (revokeAccessSync env request s).state
  refuses : ¬ Removes env request s → ¬ FindsAbsent env request s →
    ∃ error, (revokeAccessSync env request s).result = .error error ∧ SameCatalog s (revokeAccessSync env request s).state

/-- What the revocation finds when it looks at the ACL for the revoked record's
entry: the ninth question it asks. -/
def ShowsEntry (env : Environment) (request : X11RevokeRequest) (s : X11State) (present : Bool) : Prop :=
  ∀ record acl, s.records.find? (·.recordId = request.recordId) = some record →
    env.readAcl (s.calls + 8) = .ok acl → acl.contains record.key.aclEntry = present

/-- More than one unresolved claim holds the key of a record that the revocation
accepts, and the entry is gone, or at most one of them names that record. -/
def Miscounted (uid : ℕ) (request : X11RevokeRequest) (s : X11State) (present : Bool) : Prop :=
  ∃ record, Removable uid request s record ∧
    (present = true → (unresolvedClaims s.claims request.recordId).length ≤ 1) ∧
    1 < (sharing s.claims record.key).length

theorem revokeAccessSync_refuses (hremoves : ¬ Removes env request s) (habsent : ¬ FindsAbsent env request s) :
    ∃ error, (revokeAccessSync env request s).result = .error error ∧
      SameCatalog s (revokeAccessSync env request s).state := by
  have hkept : SameCatalog s s := ⟨rfl, rfl, rfl⟩
  cases h : (decideRevocation env request s).result with
  | ok decision =>
    cases decision with
    | remove available claims record => exact absurd ⟨available, claims, record, h⟩ hremoves
    | absent available claims record => exact absurd ⟨available, claims, record, h⟩ habsent
  | error error =>
    have hstate := (decideRevocation_same request s hkept).failed error h
    rw [revokeAccessSync_eq, bind_run_error h]
    exact ⟨error, rfl, hstate⟩

/-- Ending claims leaves the records alone. -/
theorem endClaims_records {records : List ManagedX11GrantRecord} (available : Bool) (recordId : String) :
    Preserves (fun t => t.records = records) (endClaims env available recordId) := by
  have hask : ∀ {α : Type} (answer : ℕ → α), Preserves (fun t : X11State => t.records = records) (ask answer) :=
    fun answer => preserves_bind preserves_read fun _ => preserves_bind (preserves_update fun _ ht => ht)
      fun _ => preserves_pure
  refine preserves_bind (preserves_bind (hask _) fun _ => preserves_read) fun _ => ?_
  refine preserves_bind preserves_ofExcept fun _ => preserves_forEach fun claim => ?_
  unfold endClaim
  split
  · refine preserves_bind ?_ fun _ => preserves_ofExcept
    exact preserves_bind (hask _) fun _ => preserves_bind (preserves_update fun _ ht => ht) fun _ => preserves_pure
  · exact preserves_pure

/-- Where the record can be written it is finalized, whatever becomes of the claims. -/
theorem finishRevocation_replaces {available : Bool} {claims : List ManagedX11MachineClaim}
    {record : ManagedX11GrantRecord} (unfinalized unended : String → String) (hwrite : env.write s.calls = .written) :
    (finishRevocation env available claims record unfinalized unended s).state.records =
      Directory.put (·.recordId) record.asRevoked s.records := by
  have hall : Ensures (fun _ => True) (finishRevocation env available claims record unfinalized unended)
      (fun _ t => t.records = Directory.put (·.recordId) record.asRevoked s.records)
      (fun _ t => t.records = Directory.put (·.recordId) record.asRevoked s.records) s := by
    refine ensures_bind (ensures_mapFailure ((writeRecord_effect record.asRevoked).mono (fun _ _ h => h) ?_)) ?_
    · intro _ _ h
      exact absurd hwrite h.1
    · intro _ t h
      exact (preserves_onlyIf (preserves_mapFailure (endClaims_records available record.recordId)) t h.2.2.2).weaken
        (fun _ _ => trivial) (fun _ _ h => h) fun _ _ h => h
  cases hresult : (finishRevocation env available claims record unfinalized unended s).result with
  | ok value => exact hall.returned value hresult
  | error error => exact hall.failed error hresult

/-- A record whose entry is gone changes its phase. -/
theorem willing_finalizes {uid : ℕ} {record : ManagedX11GrantRecord} (h : Removable uid request s record) :
    (revokeAccessSync (willing uid record false) request s).state.records ≠ s.records := by
  have hdecided : (decideRevocation (willing uid record false) request s).result =
      .ok (.absent true (s.listedClaims true) record) := willing_decides h rfl
  have hsame := (decideRevocation_same request s ⟨rfl, rfl, rfl⟩).returned _ hdecided
  have hid : record.recordId = request.recordId := by simpa using List.find?_some h.found
  rw [revokeAccessSync_eq, bind_run_ok hdecided]
  intro hrecords
  have hput : Directory.put (·.recordId) record.asRevoked s.records = s.records := by
    rw [← hsame.1, ← @finishRevocation_replaces (willing uid record false) _ true (s.listedClaims true) _ _ _ rfl,
      hsame.1, ← hrecords]
    unfold carryOut
    rw [bind_pure_state]
  have hfind := @Directory.find?_put _ ManagedX11GrantRecord.recordId record.asRevoked s.records
  rw [hput] at hfind
  have hfound := h.found
  rw [← hid] at hfound
  have hequal : record = record.asRevoked := Option.some_inj.mp (hfound.symm.trans hfind)
  have hphase := h.revocable.phase
  rw [hequal] at hphase
  cases hphase

/-- Whatever else the X server and the store answer, sharing is respected, unless
more than one unresolved claim holds the key of an accepted record and the entry
is gone, or the claims that name the record are no more than one. -/
theorem revocation_respects_sharing_iff (uid : ℕ) (request : X11RevokeRequest) (s : X11State) (present : Bool) :
    (∀ env : Environment, env.effectiveUid = uid → ClaimsAvailable env s → ShowsEntry env request s present →
      RespectsSharing env request s) ↔ ¬ Miscounted uid request s present := by
  constructor
  · intro hall ⟨record, hsettled, hcount, hshared⟩
    have hshows : ShowsEntry (willing uid record present) request s present := by
      intro other acl hfound hacl
      cases Option.some_inj.mp (hsettled.found.symm.trans hfound)
      cases hacl
      cases present <;> simp [X11AclSnapshot.contains]
    have hrespects := hall (willing uid record present) rfl (by intro h; cases h) hshows
    cases present with
    | true =>
      have hremoves : Removes (willing uid record true) request s :=
        ⟨_, _, _, willing_decides hsettled ⟨rfl, hcount rfl⟩⟩
      have hfew := hrespects.removes record hsettled.found hremoves
      omega
    | false =>
      obtain ⟨error, -, hsame⟩ := hrespects.shared record hsettled.found hshared
      exact willing_finalizes hsettled hsame.1
  · intro hcounted env huid hclaims hshows
    have hmany : ∀ record decision, s.records.find? (·.recordId = request.recordId) = some record →
        (decideRevocation env request s).result = .ok decision → (sharing s.claims record.key).length ≤ 1 := by
      intro record decision hfound hdecision
      obtain ⟨opened, hopened, hdecide⟩ := decideRevocation_ok hdecision
      cases opened with
      | false =>
        rw [hclaims hopened]
        exact Nat.zero_le 1
      | true =>
        obtain ⟨settled, acl, hsettled, hacl, hcount⟩ := decideOpened_ok hdecide
        rw [huid] at hsettled
        by_contra hshared
        have hsame : settled = record := Option.some_inj.mp (hsettled.found.symm.trans hfound)
        refine hcounted ⟨settled, ⟨hsettled.valid, hsettled.found, hsettled.revocable, hsettled.recordCount,
          hsettled.claimCount⟩, fun hpresent => hcount ?_, by rw [hsame]; omega⟩
        rw [hshows settled acl hsettled.found hacl, hpresent]
    refine ⟨?_, ?_, revokeAccessSync_refuses⟩
    · intro record hfound ⟨available, claims, other, hremove⟩
      exact hmany record _ hfound hremove
    · intro record hfound hshared
      refine revokeAccessSync_refuses ?_ ?_
      · intro ⟨available, claims, other, hremove⟩
        have hfew := hmany record _ hfound hremove
        omega
      · intro ⟨available, claims, other, habsent⟩
        have hfew := hmany record _ hfound habsent
        omega

end Miscount

section Readded

/-- Machine `a` was authorized, somebody else took the entry out, and the same
entry was added again for machine `b`. -/
def readdedStore : X11State :=
  let s := (ensureAccessSync twoEndpoints (authorization ⟨"a", a_valid⟩ 7 false) {}).state
  (ensureAccessSync twoEndpoints (authorization ⟨"b", b_valid⟩ 8 false) s).state

def revokeReadded : X11RevokeRequest :=
  ⟨(authorization ⟨"b", b_valid⟩ 8 false).target, (authorization ⟨"b", b_valid⟩ 8 false).projection,
    "bbbbbbbbbbbbbbbbbbbbbbbbbbbbbbbb"⟩

def isRemoval : Except String RevocationDecision → Bool
  | .ok (.remove ..) => true
  | _ => false

theorem removes_of_isRemoval {env : Environment} {request : X11RevokeRequest} {s : X11State}
    (h : isRemoval (decideRevocation env request s).result = true) : Removes env request s := by
  unfold isRemoval at h
  split at h
  · rename_i available claims record hresult
    exact ⟨available, claims, record, hresult⟩
  · cases h

/-- The entry of machine `b` is removed, although machine `a` holds it too. -/
theorem readded_not_respected :
    ¬ ∀ (env : Environment) (request : X11RevokeRequest) (s : X11State), ClaimsAvailable env s →
      RespectsSharing env request s := by
  intro hall
  have hrespects := hall twoEndpoints revokeReadded readdedStore (by intro h; cases h)
  have hremoval : isRemoval (decideRevocation twoEndpoints revokeReadded readdedStore).result = true := by
    decide +kernel
  have hshared : (readdedStore.records.find? (·.recordId = revokeReadded.recordId)).any
      (fun record => 1 < (sharing readdedStore.claims record.key).length) = true := by decide +kernel
  cases hfind : readdedStore.records.find? (·.recordId = revokeReadded.recordId) with
  | none =>
    rw [hfind] at hshared
    cases hshared
  | some record =>
    rw [hfind] at hshared
    have hmany : 1 < (sharing readdedStore.claims record.key).length := of_decide_eq_true hshared
    have hfew := hrespects.removes record hfind (removes_of_isRemoval hremoval)
    omega

end Readded

end Lasper.X11
