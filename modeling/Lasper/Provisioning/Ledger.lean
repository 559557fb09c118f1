import Mathlib.Data.Nat.Find
import Mathlib.Data.List.Induction
import Lasper.Lib.Checked
import Lasper.Lib.Text
import Lasper.Provisioning.State

/-! The ledger over whole sequences of calls, and the list that recovery reads off a stored
manifest. -/

namespace Lasper.Provisioning

section Calls

inductive LedgerCall
  | record (resource : DeploymentResource) (disposition : ResourceDisposition)
  | remove (resource : DeploymentResource)
  deriving DecidableEq

/-- What a call does to the entries. -/
def LedgerCall.apply (entries : List ResourceLedgerEntry) : LedgerCall → List ResourceLedgerEntry
  | .record resource disposition => recordEntry resource disposition entries
  | .remove resource => entries.filter (·.resource ≠ resource)

def ledgerAfter (calls : List LedgerCall) : List ResourceLedgerEntry := calls.foldl LedgerCall.apply []

def ResourceLedger.call (ledger : ResourceLedger) : LedgerCall → ResourceLedger
  | .record resource disposition => ledger.record resource disposition
  | .remove resource => ledger.remove resource

variable {calls : List LedgerCall} {c : LedgerCall} {r : DeploymentResource} {d : ResourceDisposition} {i : ℕ}

@[simp] theorem ledgerAfter_concat (calls : List LedgerCall) (c : LedgerCall) :
    ledgerAfter (calls ++ [c]) = c.apply (ledgerAfter calls) := by
  simp [ledgerAfter]

/-- The ledger that carries its invariant holds these entries. -/
theorem foldl_call (calls : List LedgerCall) :
    (calls.foldl ResourceLedger.call .empty).entries = ledgerAfter calls := by
  induction calls using List.reverseRecOn with
  | nil => rfl
  | append_singleton calls c ih =>
    rw [ledgerAfter_concat, ← ih, List.foldl_append]
    cases c <;> rfl

/-- Call `i` records the resource and no later call removes it. -/
def RecordedAt (calls : List LedgerCall) (r : DeploymentResource) (i : ℕ) : Prop :=
  (∃ d, calls[i]? = some (.record r d)) ∧ ∀ j : ℕ, i < j → calls[j]? ≠ some (.remove r)

/-- The first such call. -/
def FirstRecorded (calls : List LedgerCall) (r : DeploymentResource) (i : ℕ) : Prop :=
  RecordedAt calls r i ∧ ∀ j < i, ¬ RecordedAt calls r j

/-- The last call about the resource records this disposition. -/
def LastRecorded (calls : List LedgerCall) (r : DeploymentResource) (d : ResourceDisposition) : Prop :=
  ∃ i : ℕ, calls[i]? = some (LedgerCall.record r d) ∧
    ∀ j : ℕ, i < j → calls[j]? ≠ some (LedgerCall.remove r) ∧ ∀ d', calls[j]? ≠ some (LedgerCall.record r d')

theorem getElem?_concat (calls : List LedgerCall) (c : LedgerCall) (j : ℕ) (c' : LedgerCall) :
    (calls ++ [c])[j]? = some c' ↔ calls[j]? = some c' ∨ (j = calls.length ∧ c = c') := by
  rcases Nat.lt_trichotomy j calls.length with h | h | h
  · rw [List.getElem?_append_left h]
    simp [Nat.ne_of_lt h]
  · subst h
    simp
  · rw [List.getElem?_append_right (Nat.le_of_lt h), List.getElem?_eq_none (Nat.le_of_lt h)]
    have hpos : j - calls.length ≠ 0 := by omega
    simp [hpos, Nat.ne_of_gt h]

theorem lt_of_getElem? {j : ℕ} {c' : LedgerCall} (h : calls[j]? = some c') : j < calls.length := by
  by_contra hj
  rw [List.getElem?_eq_none (Nat.not_lt.mp hj)] at h
  cases h

theorem recordedAt_concat : RecordedAt (calls ++ [c]) r i ↔
    (RecordedAt calls r i ∧ c ≠ .remove r) ∨ (i = calls.length ∧ ∃ d, c = .record r d) := by
  simp only [RecordedAt, ne_eq, getElem?_concat, not_or, not_and]
  constructor
  · rintro ⟨⟨d, h | ⟨hi, hc⟩⟩, hlater⟩
    · exact .inl ⟨⟨⟨d, h⟩, fun j hj => (hlater j hj).1⟩, (hlater calls.length (lt_of_getElem? h)).2 rfl⟩
    · exact .inr ⟨hi, d, hc⟩
  · rintro (⟨⟨⟨d, h⟩, hlater⟩, hc⟩ | ⟨rfl, d, rfl⟩)
    · exact ⟨⟨d, .inl h⟩, fun j hj => ⟨hlater j hj, fun _ => hc⟩⟩
    · refine ⟨⟨d, .inr ⟨rfl, rfl⟩⟩, fun j hj => ⟨?_, fun heq => absurd heq (Nat.ne_of_gt hj)⟩⟩
      rw [List.getElem?_eq_none (Nat.le_of_lt hj)]
      exact nofun

theorem lastRecorded_concat : LastRecorded (calls ++ [c]) r d ↔
    c = .record r d ∨ (LastRecorded calls r d ∧ c ≠ .remove r ∧ ∀ d', c ≠ .record r d') := by
  simp only [LastRecorded, ne_eq, getElem?_concat, not_or, not_and]
  constructor
  · rintro ⟨i, h | ⟨-, hc⟩, hlater⟩
    · obtain ⟨hremove, hrecord⟩ := hlater calls.length (lt_of_getElem? h)
      exact .inr ⟨⟨i, h, fun j hj => ⟨(hlater j hj).1.1, fun d' => ((hlater j hj).2 d').1⟩⟩, hremove.2 rfl,
        fun d' => (hrecord d').2 rfl⟩
    · exact .inl hc
  · rintro (rfl | ⟨⟨i, h, hlater⟩, hremove, hrecord⟩)
    · refine ⟨calls.length, .inr ⟨rfl, rfl⟩, fun j hj => ?_⟩
      rw [List.getElem?_eq_none (Nat.le_of_lt hj)]
      exact ⟨⟨nofun, fun heq => absurd heq (Nat.ne_of_gt hj)⟩,
        fun d' => ⟨nofun, fun heq => absurd heq (Nat.ne_of_gt hj)⟩⟩
    · exact ⟨i, .inl h, fun j hj => ⟨⟨(hlater j hj).1, fun _ => hremove⟩,
        fun d' => ⟨(hlater j hj).2 d', fun _ => hrecord d'⟩⟩⟩

theorem exists_recordedAt : (∃ i, RecordedAt calls r i) ↔ ∃ d, LastRecorded calls r d := by
  induction calls using List.reverseRecOn with
  | nil => simp [RecordedAt, LastRecorded]
  | append_singleton calls c ih =>
    simp only [recordedAt_concat, lastRecorded_concat]
    constructor
    · rintro ⟨i, ⟨h, hc⟩ | ⟨-, d, hc⟩⟩
      · obtain ⟨d, hd⟩ := ih.mp ⟨i, h⟩
        by_cases hrecord : ∃ d', c = .record r d'
        · obtain ⟨d', hd'⟩ := hrecord
          exact ⟨d', .inl hd'⟩
        · exact ⟨d, .inr ⟨hd, hc, fun d' hd' => hrecord ⟨d', hd'⟩⟩⟩
      · exact ⟨d, .inl hc⟩
    · rintro ⟨d, hc | ⟨hd, hc, -⟩⟩
      · exact ⟨calls.length, .inr ⟨rfl, d, hc⟩⟩
      · obtain ⟨i, hi⟩ := ih.mpr ⟨d, hd⟩
        exact ⟨i, .inl ⟨hi, hc⟩⟩

theorem exists_firstRecorded (h : LastRecorded calls r d) : ∃ i, FirstRecorded calls r i := by
  classical
  have hexists := exists_recordedAt.mpr ⟨d, h⟩
  exact ⟨Nat.find hexists, Nat.find_spec hexists, fun j hj => Nat.find_min hexists hj⟩

theorem RecordedAt.lt (h : RecordedAt calls r i) : i < calls.length := by
  obtain ⟨⟨d, hd⟩, -⟩ := h
  exact lt_of_getElem? hd

theorem FirstRecorded.concat (h : FirstRecorded calls r i) (hc : c ≠ .remove r) :
    FirstRecorded (calls ++ [c]) r i := by
  obtain ⟨hat, hfirst⟩ := h
  constructor
  · exact recordedAt_concat.mpr (.inl ⟨hat, hc⟩)
  · intro j hj hrecorded
    rcases recordedAt_concat.mp hrecorded with ⟨hrecorded, -⟩ | ⟨rfl, -⟩
    · exact hfirst j hj hrecorded
    · exact Nat.lt_asymm hj hat.lt

theorem firstRecorded_new (h : ¬ ∃ j, RecordedAt calls r j) :
    FirstRecorded (calls ++ [.record r d]) r calls.length := by
  constructor
  · exact recordedAt_concat.mpr (.inr ⟨rfl, d, rfl⟩)
  · intro j hj hrecorded
    rcases recordedAt_concat.mp hrecorded with ⟨hrecorded, -⟩ | ⟨rfl, -⟩
    · exact h ⟨j, hrecorded⟩
    · exact Nat.lt_irrefl _ hj

/-- Resource `a` was recorded first before `b` was. -/
def RecordedBefore (calls : List LedgerCall) (a b : DeploymentResource) : Prop :=
  ∃ i j, FirstRecorded calls a i ∧ FirstRecorded calls b j ∧ i < j

theorem RecordedBefore.concat {a b : DeploymentResource} (h : RecordedBefore calls a b) (ha : c ≠ .remove a)
    (hb : c ≠ .remove b) : RecordedBefore (calls ++ [c]) a b := by
  obtain ⟨i, j, hi, hj, hlt⟩ := h
  exact ⟨i, j, hi.concat ha, hj.concat hb, hlt⟩

end Calls

section Invariant

variable {entries : List ResourceLedgerEntry} {calls : List LedgerCall} {r : DeploymentResource}
  {d : ResourceDisposition}

theorem mem_recordEntry (h : (entries.map (·.resource)).Nodup) (entry : ResourceLedgerEntry) :
    entry ∈ recordEntry r d entries ↔ entry = ⟨r, d⟩ ∨ (entry.resource ≠ r ∧ entry ∈ entries) := by
  induction entries with
  | nil => simp [recordEntry]
  | cons first entries ih =>
    rw [List.map_cons, List.nodup_cons] at h
    by_cases hfirst : first.resource = r
    · subst hfirst
      have hother : ∀ other ∈ entries, other.resource ≠ first.resource := by
        intro other hother heq
        exact h.1 (List.mem_map.mpr ⟨other, hother, heq⟩)
      rw [recordEntry, if_pos rfl, List.mem_cons, List.mem_cons]
      constructor
      · rintro (rfl | hmem)
        · exact .inl rfl
        · exact .inr ⟨hother entry hmem, .inr hmem⟩
      · rintro (rfl | ⟨hne, rfl | hmem⟩)
        · exact .inl rfl
        · exact absurd rfl hne
        · exact .inr hmem
    · rw [recordEntry, if_neg hfirst, List.mem_cons, ih h.2, List.mem_cons]
      constructor
      · rintro (rfl | rfl | ⟨hne, hmem⟩)
        · exact .inr ⟨hfirst, .inl rfl⟩
        · exact .inl rfl
        · exact .inr ⟨hne, .inr hmem⟩
      · rintro (rfl | ⟨hne, rfl | hmem⟩)
        · exact .inr (.inl rfl)
        · exact .inl rfl
        · exact .inr (.inr ⟨hne, hmem⟩)

/-- The entries are what a sequence of calls leaves. -/
structure Tracks (calls : List LedgerCall) (entries : List ResourceLedgerEntry) : Prop where
  distinct : (entries.map (·.resource)).Nodup
  recorded : ∀ entry, entry ∈ entries ↔ LastRecorded calls entry.resource entry.disposition
  ordered : (entries.map (·.resource)).Pairwise (RecordedBefore calls)

theorem Tracks.mem_resources (h : Tracks calls entries) :
    r ∈ entries.map (·.resource) ↔ ∃ i, RecordedAt calls r i := by
  rw [exists_recordedAt, List.mem_map]
  constructor
  · rintro ⟨entry, hentry, rfl⟩
    exact ⟨_, (h.recorded entry).mp hentry⟩
  · rintro ⟨d, hd⟩
    exact ⟨⟨r, d⟩, (h.recorded ⟨r, d⟩).mpr hd, rfl⟩

theorem Tracks.record (h : Tracks calls entries) (r : DeploymentResource) (d : ResourceDisposition) :
    Tracks (calls ++ [.record r d]) (recordEntry r d entries) where
  distinct := recordEntry_nodup r d h.distinct
  recorded entry := by
    rw [mem_recordEntry h.distinct, lastRecorded_concat, h.recorded]
    constructor
    · rintro (rfl | ⟨hne, hlast⟩)
      · exact .inl rfl
      · exact .inr ⟨hlast, by simp, by simp [Ne.symm hne]⟩
    · rintro (heq | ⟨hlast, -, hne⟩)
      · cases heq
        exact .inl rfl
      · exact .inr ⟨fun heq => hne d (by rw [heq]), hlast⟩
  ordered := by
    have hkept : (entries.map (·.resource)).Pairwise (RecordedBefore (calls ++ [.record r d])) :=
      h.ordered.imp fun hbefore => hbefore.concat (by simp) (by simp)
    rw [recordEntry_resources]
    split
    · exact hkept
    · rename_i hnew
      rw [h.mem_resources] at hnew
      refine List.pairwise_append.mpr ⟨hkept, List.pairwise_singleton _ _, fun a ha b hb => ?_⟩
      obtain rfl := List.mem_singleton.mp hb
      obtain ⟨d', hd'⟩ := exists_recordedAt.mp (h.mem_resources.mp ha)
      obtain ⟨i, hi⟩ := exists_firstRecorded hd'
      exact ⟨i, calls.length, hi.concat (by simp), firstRecorded_new hnew, hi.1.lt⟩

theorem Tracks.remove (h : Tracks calls entries) (r : DeploymentResource) :
    Tracks (calls ++ [.remove r]) (entries.filter (·.resource ≠ r)) where
  distinct := h.distinct.sublist (List.filter_sublist.map _)
  recorded entry := by
    rw [List.mem_filter, lastRecorded_concat, h.recorded]
    simp [@eq_comm _ r]
  ordered := by
    refine (h.ordered.sublist (List.filter_sublist.map _)).imp_of_mem fun {a b} ha hb hbefore => ?_
    have hne : ∀ {x}, x ∈ (entries.filter (·.resource ≠ r)).map (·.resource) →
        LedgerCall.remove r ≠ .remove x := by
      intro x hx heq
      cases heq
      obtain ⟨entry, hentry, hresource⟩ := List.mem_map.mp hx
      exact (by simpa using List.of_mem_filter hentry : entry.resource ≠ r) hresource
    exact hbefore.concat (hne ha) (hne hb)

theorem tracks_ledgerAfter (calls : List LedgerCall) : Tracks calls (ledgerAfter calls) := by
  induction calls using List.reverseRecOn with
  | nil => exact ⟨List.nodup_nil, by simp [ledgerAfter, LastRecorded], List.Pairwise.nil⟩
  | append_singleton calls c ih =>
    rw [ledgerAfter_concat]
    cases c with
    | record r d => exact ih.record r d
    | remove r => exact ih.remove r

end Invariant

section Recovery

/-- A ledger as it is read back; nothing but its check says that no resource repeats. -/
structure ResourceLedgerSnapshot where
  entries : List ResourceLedgerEntry
  deriving DecidableEq

/-- Whether inserting the resources into a set one by one meets one that is there. -/
def meetsDuplicate : List DeploymentResource → List DeploymentResource → Bool
  | _, [] => false
  | seen, resource :: resources => seen.contains resource || meetsDuplicate (resource :: seen) resources

def ResourceLedgerSnapshot.validate (snapshot : ResourceLedgerSnapshot) (target : MachineName) :
    Except DeploymentStateError Unit :=
  if meetsDuplicate [] (snapshot.entries.map (·.resource)) then
    .error (.invalid "deployment ledger contains a duplicate resource")
  else if snapshot.entries.any fun entry => entry.resource.target ≠ target then
    .error (.invalid "deployment ledger contains a resource for another target")
  else .ok ()

/-- The manifest as a file holds it. -/
structure StoredManifest where
  schemaVersion : ℕ
  target : MachineName
  normalizedSecretFreePlanHash : List Char
  revision : ℕ
  state : DeploymentManifestState
  committedLedger : ResourceLedgerSnapshot
  deriving DecidableEq

namespace StoredManifest

def intended (manifest : StoredManifest) : List DeploymentResource :=
  match manifest.state with
  | .applying _ intendedResources => intendedResources
  | .prepared | .committed _ | .cleanupPending => []

def validate (manifest : StoredManifest) : Except DeploymentStateError Unit :=
  if manifest.schemaVersion ≠ 1 then
    .error (.invalid s!"unsupported deployment manifest schema {manifest.schemaVersion}")
  else if manifest.revision = 0 || !(manifest.normalizedSecretFreePlanHash.length = 64 &&
      manifest.normalizedSecretFreePlanHash.all Lib.isAsciiHexdigit) then
    .error (.invalid "deployment manifest has an invalid revision or plan hash")
  else do
    manifest.committedLedger.validate manifest.target
    if meetsDuplicate [] manifest.intended then
      .error (.invalid "deployment manifest contains duplicate intended resources")
    else if manifest.intended.any fun resource => resource.target ≠ manifest.target then
      .error (.invalid "deployment manifest intends a resource for another target")
    else .ok ()

def recoveryResources (manifest : StoredManifest) : List DeploymentRecoveryResource :=
  manifest.intended.foldl (fun subjects intended => markApplying intended subjects)
    (manifest.committedLedger.entries.map fun entry => ⟨entry.resource, some entry.disposition, false⟩)

/-- What a manifest in memory is written as. -/
def ofManifest (manifest : DeploymentCrashManifest) (hash : List Char) : StoredManifest where
  schemaVersion := 1
  target := manifest.target
  normalizedSecretFreePlanHash := hash
  revision := manifest.revision
  state := manifest.state
  committedLedger := ⟨manifest.committedLedger.entries⟩

theorem recoveryResources_ofManifest (manifest : DeploymentCrashManifest) (hash : List Char) :
    (ofManifest manifest hash).recoveryResources = manifest.recoveryResources := rfl

end StoredManifest

theorem not_meetsDuplicate {seen resources : List DeploymentResource} :
    meetsDuplicate seen resources = false ↔ resources.Nodup ∧ ∀ r ∈ resources, r ∉ seen := by
  induction resources generalizing seen with
  | nil => simp [meetsDuplicate]
  | cons resource resources ih =>
    simp only [meetsDuplicate, Bool.or_eq_false_iff, ih, List.contains_eq_mem, decide_eq_false_iff_not,
      List.nodup_cons, List.mem_cons, not_or, forall_eq_or_imp]
    constructor
    · rintro ⟨hseen, hnodup, hlater⟩
      exact ⟨⟨fun hmem => (hlater resource hmem).1 rfl, hnodup⟩, hseen, fun r hr => (hlater r hr).2⟩
    · rintro ⟨⟨hnew, hnodup⟩, hseen, hlater⟩
      exact ⟨hseen, hnodup, fun r hr => ⟨fun heq => hnew (heq ▸ hr), hlater r hr⟩⟩

theorem StoredManifest.nodup_of_validate {manifest : StoredManifest} (h : manifest.validate = .ok ()) :
    (manifest.committedLedger.entries.map (·.resource)).Nodup := by
  have hledger : manifest.committedLedger.validate manifest.target = .ok () := by
    rw [StoredManifest.validate] at h
    split at h
    · cases h
    · split at h
      · cases h
      · obtain ⟨_, hledger, -⟩ := Lib.bind_ok h
        exact hledger
  rw [ResourceLedgerSnapshot.validate] at hledger
  split at hledger
  · cases hledger
  · rename_i hunique
    rw [Bool.not_eq_true, not_meetsDuplicate] at hunique
    exact hunique.1

/-- A list of subjects that has every recorded and every intended resource once, with what the ledger
says of it and whether it was being applied. -/
structure Covers (entries : List ResourceLedgerEntry) (intended : List DeploymentResource)
    (subjects : List DeploymentRecoveryResource) : Prop where
  distinct : (subjects.map (·.resource)).Nodup
  listed : ∀ r, r ∈ subjects.map (·.resource) ↔ r ∈ entries.map (·.resource) ∨ r ∈ intended
  disposition : ∀ subject ∈ subjects, ∀ d,
    subject.recordedDisposition = some d ↔ ⟨subject.resource, d⟩ ∈ entries
  applying : ∀ subject ∈ subjects, subject.applyingWhenInterrupted = true ↔ subject.resource ∈ intended

variable {entries : List ResourceLedgerEntry} {intended : List DeploymentResource}
  {subjects : List DeploymentRecoveryResource} {r : DeploymentResource}

def marked (r : DeploymentResource) (subject : DeploymentRecoveryResource) : DeploymentRecoveryResource :=
  if subject.resource = r then { subject with applyingWhenInterrupted := true } else subject

@[simp] theorem marked_resource (subject : DeploymentRecoveryResource) :
    (marked r subject).resource = subject.resource := by
  unfold marked
  split <;> rfl

@[simp] theorem marked_disposition (subject : DeploymentRecoveryResource) :
    (marked r subject).recordedDisposition = subject.recordedDisposition := by
  unfold marked
  split <;> rfl

theorem marked_applying (subject : DeploymentRecoveryResource) :
    (marked r subject).applyingWhenInterrupted = true ↔
      subject.resource = r ∨ subject.applyingWhenInterrupted = true := by
  unfold marked
  split <;> simp [*]

theorem markApplying_of_mem (h : (subjects.map (·.resource)).Nodup) (hr : r ∈ subjects.map (·.resource)) :
    markApplying r subjects = subjects.map (marked r) := by
  induction subjects with
  | nil => cases hr
  | cons subject subjects ih =>
    rw [List.map_cons, List.nodup_cons] at h
    by_cases hsubject : subject.resource = r
    · have hothers : subjects.map (marked r) = subjects := by
        refine (List.map_congr_left fun other hother => ?_).trans (List.map_id subjects)
        have hne : other.resource ≠ r := fun heq =>
          h.1 (by rw [hsubject, ← heq]; exact List.mem_map_of_mem hother)
        rw [marked, if_neg hne, id_eq]
      rw [markApplying, if_pos hsubject, List.map_cons, hothers, marked, if_pos hsubject]
    · have hlater : r ∈ subjects.map (·.resource) := by
        rw [List.map_cons, List.mem_cons] at hr
        exact hr.resolve_left (Ne.symm hsubject)
      rw [markApplying, if_neg hsubject, ih h.2 hlater, List.map_cons, marked, if_neg hsubject]

theorem markApplying_of_not_mem (hr : r ∉ subjects.map (·.resource)) :
    markApplying r subjects = subjects ++ [⟨r, none, true⟩] := by
  induction subjects with
  | nil => rfl
  | cons subject subjects ih =>
    rw [List.map_cons, List.mem_cons, not_or] at hr
    rw [markApplying, if_neg (Ne.symm hr.1), ih hr.2, List.cons_append]

theorem Covers.mark (h : Covers entries intended subjects) (r : DeploymentResource) :
    Covers entries (intended ++ [r]) (markApplying r subjects) := by
  by_cases hr : r ∈ subjects.map (·.resource)
  · have hresources : (subjects.map (marked r)).map (·.resource) = subjects.map (·.resource) := by
      simp
    rw [markApplying_of_mem h.distinct hr]
    refine ⟨hresources ▸ h.distinct, fun r' => ?_, fun subject hsubject d => ?_, fun subject hsubject => ?_⟩
    · rw [hresources, h.listed, List.mem_append, List.mem_singleton, ← or_assoc, ← h.listed]
      exact ⟨.inl, fun hmem => hmem.elim id fun heq => heq ▸ hr⟩
    · obtain ⟨old, hold, rfl⟩ := List.mem_map.mp hsubject
      simpa using h.disposition old hold d
    · obtain ⟨old, hold, rfl⟩ := List.mem_map.mp hsubject
      rw [marked_applying, marked_resource, h.applying old hold, List.mem_append, List.mem_singleton, or_comm]
  · have hunrecorded : ∀ d, ⟨r, d⟩ ∉ entries := by
      intro d hd
      exact hr ((h.listed r).mpr (.inl (List.mem_map.mpr ⟨_, hd, rfl⟩)))
    rw [markApplying_of_not_mem hr]
    refine ⟨?_, fun r' => ?_, fun subject hsubject d => ?_, fun subject hsubject => ?_⟩
    · rw [List.map_append, List.nodup_append]
      refine ⟨h.distinct, List.nodup_singleton _, fun a ha b hb heq => ?_⟩
      have hb : b = r := List.mem_singleton.mp hb
      exact hr (by rwa [← hb, ← heq])
    · rw [List.map_append, List.mem_append, h.listed, List.mem_append, or_assoc]
      rfl
    · rcases List.mem_append.mp hsubject with hold | hnew
      · exact h.disposition subject hold d
      · obtain rfl := List.mem_singleton.mp hnew
        simp [hunrecorded d]
    · rcases List.mem_append.mp hsubject with hold | hnew
      · have hne : subject.resource ≠ r := fun heq => hr (heq ▸ List.mem_map_of_mem hold)
        simp [h.applying subject hold, hne]
      · obtain rfl := List.mem_singleton.mp hnew
        simp

theorem covers_ledger (h : (entries.map (·.resource)).Nodup) :
    Covers entries [] (entries.map fun entry => ⟨entry.resource, some entry.disposition, false⟩) where
  distinct := by simpa [Function.comp_def] using h
  listed r := by simp [Function.comp_def]
  disposition subject hsubject d := by
    obtain ⟨entry, hentry, rfl⟩ := List.mem_map.mp hsubject
    constructor
    · intro hd
      cases hd
      exact hentry
    · intro hd
      have heq := List.inj_on_of_nodup_map h hd hentry rfl
      rw [← heq]
  applying subject hsubject := by
    obtain ⟨entry, hentry, rfl⟩ := List.mem_map.mp hsubject
    simp

theorem Covers.foldl (h : Covers entries intended subjects) (more : List DeploymentResource) :
    Covers entries (intended ++ more)
      (more.foldl (fun subjects intended => markApplying intended subjects) subjects) := by
  induction more generalizing intended subjects with
  | nil => rwa [List.append_nil]
  | cons r more ih =>
    rw [List.foldl_cons, List.append_cons]
    exact ih (h.mark r)

/-- A ledger follows its calls, and recovery lists what a manifest that passes its check names. -/
theorem ledger_tracks_and_recovery_covers :
    (∀ calls, Tracks calls (calls.foldl ResourceLedger.call .empty).entries) ∧
    ∀ manifest : StoredManifest, manifest.validate = .ok () →
      Covers manifest.committedLedger.entries manifest.intended manifest.recoveryResources := by
  constructor
  · intro calls
    rw [foldl_call]
    exact tracks_ledgerAfter calls
  · intro manifest hvalid
    exact (covers_ledger (StoredManifest.nodup_of_validate hvalid)).foldl manifest.intended

theorem web_valid : isValidNspawnHostname "web" = true := by decide

theorem ledger_tracks_and_recovery_covers_web :
    (let target : MachineName := ⟨"web", web_valid⟩
    let manifest : StoredManifest := ⟨1, target, List.replicate 64 'a', 2,
      .applying .storagePreparation [.storageMount target, .localStorage target],
      ⟨[⟨.localStorage target, .created⟩]⟩⟩
    Covers manifest.committedLedger.entries manifest.intended manifest.recoveryResources) :=
  ledger_tracks_and_recovery_covers.2 _ rfl

end Recovery

end Lasper.Provisioning
