import Mathlib.Data.String.Basic
import Mathlib.Data.List.Perm.Basic
import Lasper.X11.Access

/-! What the grant records, the access list of the X server and the projected
identity of a guest say together about that guest's access. -/

namespace Lasper.X11

section Evidence

structure X11GrantRecordEvidence where
  recordId : String
  phase : GrantRecordPhase
  createdUnixMillis : ℕ
  callerUid : ℕ
  bootId : String
  target : ShellTarget
  identity : MappedGuestIdentity
  display : ℕ
  alternateEndpoint : Bool
  source : String
  canonicalSource : String
  socketRevision : X11SocketRevision
  serverPeer : ℕ × ℕ × ℕ
  serverPeerStartTime : ℕ
  aclEntry : X11AclEntry

structure X11GrantRecordCatalog where
  records : List X11GrantRecordEvidence
  diagnostics : List String
  complete : Bool

structure X11DesktopObservation where
  acl : X11AclSnapshot
  callerUid : ℕ
  hostBootId : Option String
  serverPeerStartTime : Option ℕ
  records : X11GrantRecordCatalog
  diagnostics : List String

inductive X11GrantHistoryStatus
  | managed
  | historical
  | absent
  | outcomeUnknown
  deriving DecidableEq

structure X11GrantHistoryEntry where
  recordId : String
  createdUnixMillis : ℕ
  hostUid : ℕ
  status : X11GrantHistoryStatus
  detail : String

inductive X11GrantAssessmentStatus
  | accessControlDisabled
  | managed (recordId : String)
  | preExisting
  | historical
  | absent
  | outcomeUnknown
  deriving DecidableEq

structure X11GrantAssessment where
  status : X11GrantAssessmentStatus
  history : List X11GrantHistoryEntry
  diagnostics : List String
  recordsComplete : Bool

end Evidence

section Assess

inductive ServerContinuity
  | confirmed
  | changed
  | unknown
  deriving DecidableEq

variable (target : ShellTarget) (projection : X11ProjectionContext) (observation : X11DesktopObservation)

def serverContinuity (record : X11GrantRecordEvidence) : ServerContinuity :=
  if observation.hostBootId.any (· ≠ record.bootId) ∨
      observation.serverPeerStartTime.any (· ≠ record.serverPeerStartTime) ∨
      projection.hostSocket.peerIdentity ≠ record.serverPeer then .changed
  else if observation.hostBootId.isSome ∧ observation.serverPeerStartTime.isSome then .confirmed
  else .unknown

def desiredEntry : X11AclEntry := ⟨serverInterpretedFamily, numericLocalUserAddress projection.identity.hostUid⟩

def endpointChanged (record : X11GrantRecordEvidence) : Bool :=
  record.alternateEndpoint ≠ projection.hostSocket.alternate || record.source ≠ projection.hostSocket.source ||
    record.canonicalSource ≠ projection.hostSocket.canonicalPath ||
    record.socketRevision ≠ projection.hostSocket.revision

def differences (record : X11GrantRecordEvidence) : List String :=
  (if record.callerUid ≠ observation.callerUid then ["calling user changed"] else []) ++
    (if serverContinuity projection observation record ≠ .confirmed then
      ["X server continuity is not confirmed"] else []) ++
    if record.identity.matches projection.identity then []
    else ["machine instance or mapped identity changed"]

def currentKey (record : X11GrantRecordEvidence) : Bool := record.aclEntry = desiredEntry projection

/-- An authorization that was never confirmed. -/
def uncertainStatus (record : X11GrantRecordEvidence) (detail : String) : X11GrantHistoryStatus × String :=
  if serverContinuity projection observation record = .changed then
    (.historical, "uncertain authorization record belongs to a different X server generation")
  else (.outcomeUnknown, detail)

def confirmedStatus (record : X11GrantRecordEvidence) : X11GrantHistoryStatus × String :=
  let differences := differences projection observation record
  if currentKey projection record ∧ differences = [] then
    (.managed,
      if endpointChanged projection record then
        "confirmed for the current machine instance and X server; the selected listener changed"
      else "confirmed for the current machine instance and X server")
  else
    (.historical, "; ".intercalate (differences ++
      (if endpointChanged projection record then ["selected X11 endpoint changed"] else []) ++
      if currentKey projection record then [] else ["the mapped host UID changed"]))

def recordStatus (record : X11GrantRecordEvidence) : X11GrantHistoryStatus × String :=
  match record.phase with
  | .pending =>
    uncertainStatus projection observation record "authorization was recorded as pending and never confirmed"
  | .outcomeUnknown reason =>
    uncertainStatus projection observation record s!"authorization outcome is unknown: {reason}"
  | .revoked =>
    if observation.acl.contains record.aclEntry then
      (.historical, "the record was revoked, but the exact ACL entry is present again")
    else (.absent, "the exact ACL entry was revoked by Lasper and is absent")
  | .confirmedAdded =>
    if observation.acl.contains record.aclEntry then confirmedStatus projection observation record
    else (.absent, "the confirmed exact ACL entry is no longer present")

/-- The records of the target and its display. -/
def relevantRecords (records : List X11GrantRecordEvidence) : List X11GrantRecordEvidence :=
  records.filter fun record => record.target = target && record.display = projection.hostSocket.display

def historyEntry (record : X11GrantRecordEvidence) : X11GrantHistoryEntry :=
  let assessed := recordStatus projection observation record
  ⟨record.recordId, record.createdUnixMillis, record.identity.hostUid, assessed.1, assessed.2⟩

/-- The newest first, and by name where two are as old. -/
def newestFirst (left right : X11GrantHistoryEntry) : Bool :=
  right.createdUnixMillis < left.createdUnixMillis ||
    (left.createdUnixMillis = right.createdUnixMillis && right.recordId ≤ left.recordId)

def grantHistory (records : List X11GrantRecordEvidence) : List X11GrantHistoryEntry :=
  ((relevantRecords target projection records).map (historyEntry projection observation)).mergeSort newestFirst

def matchingCurrentKey (records : List X11GrantRecordEvidence) : List X11GrantHistoryStatus :=
  ((relevantRecords target projection records).filter (currentKey projection)).map fun record =>
    (recordStatus projection observation record).1

def isManaged (entry : X11GrantHistoryEntry) : Bool :=
  entry.status = .managed && entry.hostUid = projection.identity.hostUid

/-- Without a managed record: what the records for the desired entry leave open. -/
def unmanagedStatus (matching : List X11GrantHistoryStatus) (complete : Bool) : X11GrantAssessmentStatus :=
  if .outcomeUnknown ∈ matching ∨ complete = false then .outcomeUnknown
  else if .historical ∈ matching then .historical
  else .preExisting

def grantStatus (records : List X11GrantRecordEvidence) : X11GrantAssessmentStatus :=
  match observation.acl.mode with
  | .disabled => .accessControlDisabled
  | .unknown _ => .outcomeUnknown
  | .enabled =>
    if ¬ observation.acl.hasNumericLocalUser projection.identity.hostUid then .absent
    else match (grantHistory target projection observation records).find? (isManaged projection) with
      | some managed => .managed managed.recordId
      | none =>
        unmanagedStatus (matchingCurrentKey target projection observation records) observation.records.complete

def assessGrants : X11GrantAssessment where
  status := grantStatus target projection observation observation.records.records
  history := grantHistory target projection observation observation.records.records
  diagnostics := observation.records.diagnostics ++ observation.diagnostics
  recordsComplete := observation.records.complete

end Assess

section Soundness

variable {target : ShellTarget} {projection : X11ProjectionContext} {observation : X11DesktopObservation}

/-- The record of an authorization that still stands. -/
structure Manages (target : ShellTarget) (projection : X11ProjectionContext) (observation : X11DesktopObservation)
    (record : X11GrantRecordEvidence) : Prop where
  phase : record.phase = .confirmedAdded
  target : record.target = target
  display : record.display = projection.hostSocket.display
  caller : record.callerUid = observation.callerUid
  identity : record.identity.matches projection.identity = true
  boot : observation.hostBootId = some record.bootId
  serverStart : observation.serverPeerStartTime = some record.serverPeerStartTime
  serverPeer : record.serverPeer = projection.hostSocket.peerIdentity
  entry : record.aclEntry = desiredEntry projection
  listed : desiredEntry projection ∈ observation.acl.entries

theorem serverContinuity_confirmed {record : X11GrantRecordEvidence} :
    serverContinuity projection observation record = .confirmed ↔
      observation.hostBootId = some record.bootId ∧
        observation.serverPeerStartTime = some record.serverPeerStartTime ∧
        record.serverPeer = projection.hostSocket.peerIdentity := by
  unfold serverContinuity
  cases observation.hostBootId with
  | none =>
    simp
    split_ifs <;> simp
  | some bootId =>
    cases observation.serverPeerStartTime with
    | none =>
      simp
      split_ifs <;> simp
    | some startTime =>
      simp [not_or]
      tauto

theorem differences_eq_nil {record : X11GrantRecordEvidence} :
    differences projection observation record = [] ↔
      record.callerUid = observation.callerUid ∧
        serverContinuity projection observation record = .confirmed ∧
        record.identity.matches projection.identity = true := by
  unfold differences
  simp

theorem confirmedStatus_managed {record : X11GrantRecordEvidence} :
    (confirmedStatus projection observation record).1 = .managed ↔
      currentKey projection record = true ∧ differences projection observation record = [] := by
  unfold confirmedStatus
  by_cases h : currentKey projection record = true ∧ differences projection observation record = []
  · simp [h]
  · simp only [h, if_false, reduceCtorEq]

theorem uncertainStatus_ne_managed (record : X11GrantRecordEvidence) (detail : String) :
    (uncertainStatus projection observation record detail).1 ≠ .managed := by
  unfold uncertainStatus
  split_ifs <;> simp

theorem recordStatus_managed {record : X11GrantRecordEvidence} :
    (recordStatus projection observation record).1 = .managed ↔
      record.phase = .confirmedAdded ∧ observation.acl.contains record.aclEntry = true ∧
        currentKey projection record = true ∧ differences projection observation record = [] := by
  unfold recordStatus
  cases record.phase with
  | pending => simp [uncertainStatus_ne_managed]
  | outcomeUnknown reason => simp [uncertainStatus_ne_managed]
  | revoked =>
    simp only []
    split_ifs <;> simp
  | confirmedAdded =>
    simp only []
    split_ifs with h
    · simp [confirmedStatus_managed, h]
    · simp [h]

theorem isManaged_iff {entry : X11GrantHistoryEntry} :
    isManaged projection entry = true ↔ entry.status = .managed ∧ entry.hostUid = projection.identity.hostUid := by
  simp [isManaged]

/-- The relevant records with a managed entry are those that still stand. -/
theorem manages_iff {record : X11GrantRecordEvidence} {records : List X11GrantRecordEvidence} :
    record ∈ relevantRecords target projection records ∧
        isManaged projection (historyEntry projection observation record) = true ↔
      record ∈ records ∧ Manages target projection observation record := by
  have hentry : isManaged projection (historyEntry projection observation record) = true ↔
      (recordStatus projection observation record).1 = .managed ∧
        record.identity.hostUid = projection.identity.hostUid := isManaged_iff
  rw [hentry, recordStatus_managed, differences_eq_nil, serverContinuity_confirmed]
  simp only [relevantRecords, List.mem_filter, Bool.and_eq_true, decide_eq_true_eq, currentKey,
    X11AclSnapshot.contains]
  constructor
  · intro ⟨⟨hmem, htarget, hdisplay⟩, ⟨hphase, hlisted, hkey, hcaller, ⟨hboot, hstart, hpeer⟩, hidentity⟩, _⟩
    exact ⟨hmem, hphase, htarget, hdisplay, hcaller, hidentity, hboot, hstart, hpeer, hkey, hkey ▸ hlisted⟩
  · intro ⟨hmem, h⟩
    have huid : record.identity.hostUid = projection.identity.hostUid := by
      have hmatches := h.identity
      unfold MappedGuestIdentity.matches at hmatches
      simp only [Bool.and_eq_true, decide_eq_true_eq] at hmatches
      exact hmatches.1.1.2
    exact ⟨⟨hmem, h.target, h.display⟩, ⟨h.phase, h.entry ▸ h.listed, h.entry, h.caller,
      ⟨h.boot, h.serverStart, h.serverPeer⟩, h.identity⟩, huid⟩

end Soundness

section Order

variable {target : ShellTarget} {projection : X11ProjectionContext} {observation : X11DesktopObservation}

theorem newestFirst_iff {left right : X11GrantHistoryEntry} :
    newestFirst left right = true ↔ right.createdUnixMillis < left.createdUnixMillis ∨
      (left.createdUnixMillis = right.createdUnixMillis ∧ right.recordId ≤ left.recordId) := by
  simp [newestFirst]

theorem newestFirst_trans (a b c : X11GrantHistoryEntry) (hab : newestFirst a b = true)
    (hbc : newestFirst b c = true) : newestFirst a c = true := by
  simp only [newestFirst_iff] at *
  rcases hab with hab | ⟨hab, hid⟩ <;> rcases hbc with hbc | ⟨hbc, hid'⟩
  · exact .inl (by omega)
  · exact .inl (by omega)
  · exact .inl (by omega)
  · exact .inr ⟨by omega, le_trans hid' hid⟩

theorem newestFirst_total (a b : X11GrantHistoryEntry) : (newestFirst a b || newestFirst b a) = true := by
  simp only [Bool.or_eq_true, newestFirst_iff]
  rcases lt_trichotomy a.createdUnixMillis b.createdUnixMillis with h | h | h
  · exact .inr (.inl h)
  · obtain hid | hid := le_total a.recordId b.recordId
    · exact .inr (.inr ⟨h.symm, hid⟩)
    · exact .inl (.inr ⟨h, hid⟩)
  · exact .inl (.inl h)

theorem newestFirst_refl (a : X11GrantHistoryEntry) : newestFirst a a = true := by simp [newestFirst]

theorem newestFirst_antisymm {a b : X11GrantHistoryEntry} (hab : newestFirst a b = true)
    (hba : newestFirst b a = true) : a.recordId = b.recordId := by
  simp only [newestFirst_iff] at *
  rcases hab with hab | ⟨hab, hid⟩ <;> rcases hba with hba | ⟨hba, hid'⟩
  · omega
  · omega
  · omega
  · exact le_antisymm hid' hid

theorem grantHistory_sorted (records : List X11GrantRecordEvidence) :
    (grantHistory target projection observation records).Pairwise fun a b => newestFirst a b = true :=
  List.pairwise_mergeSort newestFirst_trans newestFirst_total _

theorem grantHistory_perm (records : List X11GrantRecordEvidence) :
    (grantHistory target projection observation records).Perm
      ((relevantRecords target projection records).map (historyEntry projection observation)) :=
  List.mergeSort_perm _ _

theorem mem_grantHistory {records : List X11GrantRecordEvidence} {entry : X11GrantHistoryEntry} :
    entry ∈ grantHistory target projection observation records ↔
      ∃ record ∈ relevantRecords target projection records, historyEntry projection observation record = entry := by
  rw [(grantHistory_perm records).mem_iff, List.mem_map]

/-- Records with distinct names have one history, in whatever order they come. -/
theorem grantHistory_congr {records others : List X11GrantRecordEvidence} (h : records.Perm others)
    (hdistinct : (records.map (·.recordId)).Nodup) :
    grantHistory target projection observation records = grantHistory target projection observation others := by
  apply List.Perm.eq_of_pairwise _ (grantHistory_sorted records) (grantHistory_sorted others)
  · exact ((grantHistory_perm records).trans ((h.filter _).map _)).trans (grantHistory_perm others).symm
  · intro a b ha hb hab hba
    obtain ⟨record, hrecord, rfl⟩ := mem_grantHistory.mp ha
    obtain ⟨other, hother, rfl⟩ := mem_grantHistory.mp hb
    have hid : record.recordId = other.recordId := newestFirst_antisymm hab hba
    have hmem : record ∈ records := List.mem_of_mem_filter hrecord
    have hmem' : other ∈ records := h.mem_iff.mpr (List.mem_of_mem_filter hother)
    rw [List.inj_on_of_nodup_map hdistinct hmem hmem' hid]

theorem matchingCurrentKey_congr {records others : List X11GrantRecordEvidence} (h : records.Perm others) :
    (matchingCurrentKey target projection observation records).Perm
      (matchingCurrentKey target projection observation others) :=
  ((h.filter _).filter _).map _

theorem grantStatus_congr {records others : List X11GrantRecordEvidence} (h : records.Perm others)
    (hdistinct : (records.map (·.recordId)).Nodup) :
    grantStatus target projection observation records = grantStatus target projection observation others := by
  have hmatching : (matchingCurrentKey target projection observation records).Perm
      (matchingCurrentKey target projection observation others) := matchingCurrentKey_congr h
  have hunmanaged : unmanagedStatus (matchingCurrentKey target projection observation records) =
      unmanagedStatus (matchingCurrentKey target projection observation others) := by
    funext complete
    simp only [unmanagedStatus, hmatching.mem_iff]
  unfold grantStatus
  rw [grantHistory_congr h hdistinct, hunmanaged]

/-- The first managed entry is that of the newest record that still stands. -/
theorem find_managed {records : List X11GrantRecordEvidence} {entry : X11GrantHistoryEntry}
    (h : (grantHistory target projection observation records).find? (isManaged projection) = some entry) :
    ∃ record ∈ records, Manages target projection observation record ∧
      historyEntry projection observation record = entry ∧
      ∀ other ∈ records, Manages target projection observation other →
        newestFirst entry (historyEntry projection observation other) = true := by
  obtain ⟨hmanaged, before, after, hsplit, hbefore⟩ := List.find?_eq_some_iff_append.mp h
  have hmem : entry ∈ grantHistory target projection observation records := List.mem_of_find?_eq_some h
  obtain ⟨record, hrecord, hentry⟩ := mem_grantHistory.mp hmem
  obtain ⟨hin, hstands⟩ := manages_iff.mp ⟨hrecord, hentry ▸ hmanaged⟩
  refine ⟨record, hin, hstands, hentry, ?_⟩
  intro other hother hothers
  obtain ⟨hrelevant, hisManaged⟩ := manages_iff.mpr ⟨hother, hothers⟩
  have hlisted : historyEntry projection observation other ∈ grantHistory target projection observation records :=
    mem_grantHistory.mpr ⟨other, hrelevant, rfl⟩
  have hsorted : (grantHistory target projection observation records).Pairwise fun a b => newestFirst a b = true :=
    grantHistory_sorted records
  rw [hsplit] at hlisted hsorted
  rw [List.mem_append, List.mem_cons] at hlisted
  rcases hlisted with hlisted | hlisted | hlisted
  · have hnot := hbefore _ hlisted
    rw [hisManaged] at hnot
    cases hnot
  · rw [hlisted]
    exact newestFirst_refl entry
  · exact List.rel_of_pairwise_cons (List.pairwise_append.mp hsorted).2.1 hlisted

theorem unmanagedStatus_ne_managed {matching : List X11GrantHistoryStatus} {complete : Bool} (recordId : String) :
    unmanagedStatus matching complete ≠ .managed recordId := by
  unfold unmanagedStatus
  split_ifs <;> simp

theorem grantStatus_managed {records : List X11GrantRecordEvidence} {recordId : String}
    (h : grantStatus target projection observation records = .managed recordId) :
    observation.acl.mode = .enabled ∧
      observation.acl.hasNumericLocalUser projection.identity.hostUid = true ∧
      ∃ entry, (grantHistory target projection observation records).find? (isManaged projection) = some entry ∧
        entry.recordId = recordId := by
  unfold grantStatus at h
  cases hmode : observation.acl.mode with
  | disabled => rw [hmode] at h; cases h
  | unknown value => rw [hmode] at h; cases h
  | enabled =>
    simp only [hmode] at h
    split_ifs at h with hlisted
    refine ⟨rfl, hlisted, ?_⟩
    cases hfind : (grantHistory target projection observation records).find? (isManaged projection) with
    | some entry =>
      rw [hfind] at h
      cases h
      exact ⟨entry, rfl, rfl⟩
    | none =>
      rw [hfind] at h
      exact absurd h (unmanagedStatus_ne_managed recordId)

theorem grantStatus_incomplete {records : List X11GrantRecordEvidence}
    (h : observation.records.complete = false) :
    grantStatus target projection observation records ≠ .preExisting ∧
      grantStatus target projection observation records ≠ .historical := by
  unfold grantStatus
  cases observation.acl.mode with
  | disabled => simp
  | unknown value => simp
  | enabled =>
    simp only []
    by_cases hlisted : observation.acl.hasNumericLocalUser projection.identity.hostUid = true
    · cases (grantHistory target projection observation records).find? (isManaged projection) with
      | some entry => simp [hlisted]
      | none => simp [hlisted, unmanagedStatus, h]
    · simp [hlisted]

/-- Of two records the one is no older than the other, or has the later name. -/
def NoOlder (record other : X11GrantRecordEvidence) : Prop :=
  other.createdUnixMillis < record.createdUnixMillis ∨
    (record.createdUnixMillis = other.createdUnixMillis ∧ other.recordId ≤ record.recordId)

theorem assessGrants_sound (target : ShellTarget) (projection : X11ProjectionContext)
    (observation : X11DesktopObservation) :
    (∀ recordId, (assessGrants target projection observation).status = .managed recordId →
      observation.acl.mode = .enabled ∧
        observation.acl.hasNumericLocalUser projection.identity.hostUid = true ∧
        ∃ record ∈ observation.records.records, record.recordId = recordId ∧
          Manages target projection observation record ∧
          ∀ other ∈ observation.records.records, Manages target projection observation other →
            NoOlder record other) ∧
    (observation.records.complete = false →
      (assessGrants target projection observation).status ≠ .preExisting ∧
        (assessGrants target projection observation).status ≠ .historical) ∧
    ∀ others, observation.records.records.Perm others →
      (observation.records.records.map (·.recordId)).Nodup →
      let reordered := { observation with records := { observation.records with records := others } }
      (assessGrants target projection reordered).status = (assessGrants target projection observation).status ∧
        (assessGrants target projection reordered).history = (assessGrants target projection observation).history := by
  refine ⟨?_, grantStatus_incomplete, ?_⟩
  · intro recordId hstatus
    obtain ⟨hmode, hlisted, entry, hfind, hid⟩ := grantStatus_managed hstatus
    obtain ⟨record, hmem, hstands, hentry, hnewest⟩ := find_managed hfind
    refine ⟨hmode, hlisted, record, hmem, ?_, hstands, ?_⟩
    · rw [← hid, ← hentry]
      rfl
    · intro other hother hothers
      have horder := hnewest other hother hothers
      rw [← hentry] at horder
      exact newestFirst_iff.mp horder
  · intro others hperm hdistinct
    exact ⟨(grantStatus_congr hperm hdistinct).symm, (grantHistory_congr hperm hdistinct).symm⟩

end Order

section Example

private theorem assessedMachine_valid : Provisioning.isValidNspawnHostname "arch" = true := by decide

private theorem assessedUser_valid : isValidGuestUserName "user" = true := by decide

private def assessedTarget : ShellTarget := ⟨⟨"arch", assessedMachine_valid⟩, ⟨"user", assessedUser_valid⟩⟩

private def assessedProjection : X11ProjectionContext :=
  ⟨⟨0, false, "/tmp/.X11-unix/X0", "/tmp/.X11-unix/X0", (7, 0, 0), ⟨1, 2, 3, 4⟩⟩,
    ⟨1000, 1000, 101000, 101000, ⟨42, some 5, none⟩⟩⟩

private def confirmedRecord (recordId : String) (createdUnixMillis : ℕ) : X11GrantRecordEvidence :=
  ⟨recordId, .confirmedAdded, createdUnixMillis, 1000, "boot", assessedTarget, assessedProjection.identity, 0, false,
    "/tmp/.X11-unix/X0", "/tmp/.X11-unix/X0", ⟨1, 2, 3, 4⟩, (7, 0, 0), 9, desiredEntry assessedProjection⟩

/-- Both records stand for the entry. -/
private def assessedObservation : X11DesktopObservation :=
  ⟨⟨.enabled, [desiredEntry assessedProjection]⟩, 1000, some "boot", some 9,
    ⟨[confirmedRecord "0b" 20, confirmedRecord "0a" 10], [], true⟩, []⟩

private theorem assessedHistory :
    grantHistory assessedTarget assessedProjection assessedObservation assessedObservation.records.records =
      [historyEntry assessedProjection assessedObservation (confirmedRecord "0b" 20),
        historyEntry assessedProjection assessedObservation (confirmedRecord "0a" 10)] :=
  List.mergeSort_of_pairwise (by decide +kernel)

/-- The newer record stands for the entry, also where the older one is listed first. -/
theorem assessGrants_managed :
    (∃ record ∈ assessedObservation.records.records, record.recordId = "0b" ∧
      Manages assessedTarget assessedProjection assessedObservation record ∧
        ∀ other ∈ assessedObservation.records.records,
          Manages assessedTarget assessedProjection assessedObservation other → NoOlder record other) ∧
      (assessGrants assessedTarget assessedProjection { assessedObservation with
        records := ⟨[confirmedRecord "0a" 10, confirmedRecord "0b" 20], [], true⟩ }).status = .managed "0b" := by
  have hstatus : (assessGrants assessedTarget assessedProjection assessedObservation).status = .managed "0b" := by
    unfold assessGrants grantStatus
    rw [assessedHistory]
    decide +kernel
  obtain ⟨hmanaged, -, hreordered⟩ := assessGrants_sound assessedTarget assessedProjection assessedObservation
  obtain ⟨-, -, record, hmem, hid, hstands, hnewest⟩ := hmanaged "0b" hstatus
  have hsame := (hreordered [confirmedRecord "0a" 10, confirmedRecord "0b" 20] (.swap _ _ _) (by decide)).1
  exact ⟨⟨record, hmem, hid, hstands, hnewest⟩, hsame.trans hstatus⟩

end Example

end Lasper.X11
