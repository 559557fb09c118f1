import Mathlib.Algebra.Order.Ring.Int
import Mathlib.Data.List.Basic
import Mathlib.Data.List.Nodup

/-! The durable side of a deployment: the resources it may leave on the host,
the ledger that says what became of each, the crash manifest and the session
through which the manifest is replaced. -/

namespace Lasper.Provisioning

def isHostnameLabel (label : List Char) : Bool :=
  label ≠ [] && label.head? ≠ some '-' && label.getLast? ≠ some '-' && label.all fun c => c.isAlphanum || c = '-'

def isValidNspawnHostname (value : String) : Bool :=
  let chars := value.toList
  chars ≠ [] && value.utf8ByteSize ≤ 64 && chars.head? ≠ some '.' && chars.getLast? ≠ some '.' &&
    (chars.splitOn '.').all isHostnameLabel

structure MachineName where
  text : String
  valid : isValidNspawnHostname text = true
  deriving DecidableEq

def MachineName.new (name : String) : Except String MachineName :=
  if h : isValidNspawnHostname name = true then .ok ⟨name, h⟩
  else .error s!"invalid machine name \"{name}\": expected 1-64 ASCII hostname labels (letters, digits, '-' and '.', with no empty labels or label-edge '-')"

inductive DeploymentStage
  | validation | storagePreparation | sourceDeployment | rootfsMutation | hostConfiguration
  | runtimeCommit | cleanup | rollback
  deriving DecidableEq

inductive DeploymentResource
  | localStorage (target : MachineName)
  | externalImage (target : MachineName)
  | storageMount (target : MachineName)
  | rawConfigurationMount (target : MachineName)
  | nvidiaState (target : MachineName)
  | nspawnConfig (target : MachineName)
  | systemdOverride (target : MachineName)
  | rootfsHostname (target : MachineName)
  | rootfsAccounts (target : MachineName)
  | rootfsNvidia (target : MachineName)
  | rootfsNetwork (target : MachineName)
  deriving DecidableEq

def DeploymentResource.target : DeploymentResource → MachineName
  | localStorage target | externalImage target | storageMount target | rawConfigurationMount target
  | nvidiaState target | nspawnConfig target | systemdOverride target | rootfsHostname target
  | rootfsAccounts target | rootfsNvidia target | rootfsNetwork target => target

def DeploymentResource.label : DeploymentResource → String
  | localStorage _ => "local storage"
  | externalImage _ => "external image"
  | storageMount _ => "storage mount"
  | rawConfigurationMount _ => "raw image configuration mount"
  | nvidiaState _ => "NVIDIA state"
  | nspawnConfig _ => ".nspawn configuration"
  | systemdOverride _ => "systemd service override"
  | rootfsHostname _ => "rootfs hostname state"
  | rootfsAccounts _ => "rootfs account state"
  | rootfsNvidia _ => "rootfs NVIDIA state"
  | rootfsNetwork _ => "rootfs network state"

inductive ResourceDisposition
  | created | adopted | preExisting | transferred | committed | cleanupPending | outcomeUnknown
  deriving DecidableEq

def ResourceDisposition.isOwned : ResourceDisposition → Bool
  | created | adopted | transferred | committed | cleanupPending => true
  | preExisting | outcomeUnknown => false

structure ResourceLedgerEntry where
  resource : DeploymentResource
  disposition : ResourceDisposition
  deriving DecidableEq

/-- Overwrite the entry of a resource, or append one. -/
def recordEntry (resource : DeploymentResource) (disposition : ResourceDisposition) :
    List ResourceLedgerEntry → List ResourceLedgerEntry
  | [] => [⟨resource, disposition⟩]
  | entry :: entries =>
    if entry.resource = resource then { entry with disposition } :: entries
    else entry :: recordEntry resource disposition entries

theorem recordEntry_resources (r : DeploymentResource) (d : ResourceDisposition)
    (entries : List ResourceLedgerEntry) :
    (recordEntry r d entries).map (·.resource) =
      if r ∈ entries.map (·.resource) then entries.map (·.resource)
      else entries.map (·.resource) ++ [r] := by
  induction entries with
  | nil => rfl
  | cons entry entries ih =>
    by_cases h : entry.resource = r
    · simp [recordEntry, h]
    · have h' : r ≠ entry.resource := fun e => h e.symm
      have hmem : r ∈ (entry :: entries).map (·.resource) ↔ r ∈ entries.map (·.resource) := by
        rw [List.map_cons, List.mem_cons]
        exact or_iff_right h'
      have hcons : (recordEntry r d (entry :: entries)).map (·.resource) =
          entry.resource :: (recordEntry r d entries).map (·.resource) := by
        simp only [recordEntry, h, if_false, List.map_cons]
      rw [hcons, ih]
      by_cases hm : r ∈ entries.map (·.resource)
      · rw [if_pos hm, if_pos (hmem.mpr hm), List.map_cons]
      · rw [if_neg hm, if_neg (mt hmem.mp hm), List.map_cons, List.cons_append]

theorem recordEntry_nodup {entries : List ResourceLedgerEntry} (r : DeploymentResource)
    (d : ResourceDisposition) (h : (entries.map (·.resource)).Nodup) :
    ((recordEntry r d entries).map (·.resource)).Nodup := by
  rw [recordEntry_resources]
  split
  · exact h
  · rename_i hr
    exact List.nodup_append.mpr ⟨h, List.nodup_singleton r, by
      rintro a ha b hb rfl
      rw [List.mem_singleton.mp hb] at ha
      exact hr ha⟩

/-- At most one entry per resource, in the order of first recording. -/
structure ResourceLedger where
  entries : List ResourceLedgerEntry
  distinct : (entries.map (·.resource)).Nodup
  deriving DecidableEq

namespace ResourceLedger

def empty : ResourceLedger := ⟨[], List.nodup_nil⟩

def resources (ledger : ResourceLedger) : List DeploymentResource :=
  ledger.entries.map (·.resource)

def record (ledger : ResourceLedger) (resource : DeploymentResource)
    (disposition : ResourceDisposition) : ResourceLedger :=
  ⟨recordEntry resource disposition ledger.entries,
    recordEntry_nodup resource disposition ledger.distinct⟩

def owns (ledger : ResourceLedger) (resource : DeploymentResource) : Bool :=
  ledger.entries.any fun entry => entry.resource = resource && entry.disposition.isOwned

def disposition (ledger : ResourceLedger) (resource : DeploymentResource) :
    Option ResourceDisposition :=
  (ledger.entries.find? (·.resource = resource)).map (·.disposition)

def remove (ledger : ResourceLedger) (resource : DeploymentResource) : ResourceLedger :=
  ⟨ledger.entries.filter (·.resource ≠ resource),
    ledger.distinct.sublist (List.filter_sublist.map _)⟩

def ownedInReverse (ledger : ResourceLedger) : List DeploymentResource :=
  (ledger.entries.reverse.filter fun entry => ledger.owns entry.resource).map (·.resource)

variable {ledger : ResourceLedger} {r r' : DeploymentResource} {d : ResourceDisposition}

theorem resources_record : (ledger.record r d).resources =
    if r ∈ ledger.resources then ledger.resources else ledger.resources ++ [r] :=
  recordEntry_resources r d ledger.entries

@[simp] theorem mem_record : r' ∈ (ledger.record r d).resources ↔ r' = r ∨ r' ∈ ledger.resources := by
  rw [resources_record]
  by_cases h : r ∈ ledger.resources
  · rw [if_pos h]
    exact ⟨Or.inr, by rintro (rfl | h'); exacts [h, h']⟩
  · rw [if_neg h, List.mem_append, List.mem_singleton]
    exact or_comm

@[simp] theorem mem_remove : r' ∈ (ledger.remove r).resources ↔ r' ∈ ledger.resources ∧ r' ≠ r := by
  simp only [resources, remove, List.mem_map, List.mem_filter, decide_not, Bool.not_eq_eq_eq_not,
    Bool.not_true, decide_eq_false_iff_not]
  constructor
  · rintro ⟨e, ⟨he, hne⟩, rfl⟩
    exact ⟨⟨e, he, rfl⟩, hne⟩
  · rintro ⟨⟨e, he, rfl⟩, hne⟩
    exact ⟨e, ⟨he, hne⟩, rfl⟩

theorem resources_remove : (ledger.remove r).resources = ledger.resources.filter (· ≠ r) := by
  rw [resources, remove, resources, List.filter_map]
  rfl

private theorem find?_recordEntry (entries : List ResourceLedgerEntry) :
    ((recordEntry r d entries).find? (·.resource = r')).map (·.disposition) =
      if r' = r then some d else (entries.find? (·.resource = r')).map (·.disposition) := by
  induction entries with
  | nil =>
    by_cases h : r = r'
    · simp [recordEntry, h]
    · simp [recordEntry, h, Ne.symm h]
  | cons entry entries ih =>
    by_cases h : entry.resource = r
    · by_cases h' : r' = r
      · simp [recordEntry, h, h']
      · simp [recordEntry, h, h', Ne.symm h']
    · by_cases h' : entry.resource = r'
      · have hne : r' ≠ r := fun e => h (h'.trans e)
        simp [recordEntry, h', hne]
      · simp only [recordEntry, h, if_false, List.find?_cons, h', decide_false, ih]

theorem disposition_record : (ledger.record r d).disposition r' =
    if r' = r then some d else ledger.disposition r' :=
  find?_recordEntry ledger.entries

@[simp] theorem disposition_record_self : (ledger.record r d).disposition r = some d := by
  rw [disposition_record, if_pos rfl]

theorem disposition_record_ne (h : r' ≠ r) :
    (ledger.record r d).disposition r' = ledger.disposition r' := by
  rw [disposition_record, if_neg h]

theorem disposition_remove_ne (h : r' ≠ r) :
    (ledger.remove r).disposition r' = ledger.disposition r' := by
  rw [disposition, disposition, remove, List.find?_filter]
  congr 1
  congr 1
  funext e
  by_cases he : e.resource = r'
  · have hne : e.resource ≠ r := fun hr => h (he.symm.trans hr)
    simp [he, h]
  · simp [he]

theorem disposition_eq_none : ledger.disposition r = none ↔ r ∉ ledger.resources := by
  simp [disposition, resources]

theorem mem_of_disposition (h : ledger.disposition r = some d) : r ∈ ledger.resources := by
  by_contra hr
  rw [disposition_eq_none.mpr hr] at h
  cases h

/-- With one entry per resource, the entry found first is the only one. -/
theorem disposition_of_mem {e : ResourceLedgerEntry} (h : e ∈ ledger.entries) :
    ledger.disposition e.resource = some e.disposition := by
  have hd := ledger.distinct
  unfold disposition
  generalize ledger.entries = entries at h hd
  induction entries with
  | nil => cases h
  | cons x xs ih =>
    rw [List.map_cons, List.nodup_cons] at hd
    rcases List.mem_cons.mp h with rfl | h
    · simp
    · have hne : x.resource ≠ e.resource := by
        intro hx
        exact hd.1 (hx ▸ List.mem_map_of_mem h)
      rw [List.find?_cons, show decide (x.resource = e.resource) = false from decide_eq_false hne]
      exact ih h hd.2

theorem owns_iff : ledger.owns r = true ↔ ∃ d, ledger.disposition r = some d ∧ d.isOwned = true := by
  unfold owns
  rw [List.any_eq_true]
  constructor
  · rintro ⟨e, he, hp⟩
    rw [Bool.and_eq_true, decide_eq_true_eq] at hp
    obtain ⟨rfl, ho⟩ := hp
    exact ⟨_, disposition_of_mem he, ho⟩
  · rintro ⟨d, hd, ho⟩
    obtain ⟨e, he, rfl⟩ := Option.map_eq_some_iff.mp hd
    have hr := List.find?_some he
    rw [decide_eq_true_eq] at hr
    exact ⟨e, List.mem_of_find?_eq_some he, by rw [Bool.and_eq_true, decide_eq_true_eq]; exact ⟨hr, ho⟩⟩

theorem mem_ownedInReverse : r ∈ ledger.ownedInReverse ↔ ledger.owns r = true := by
  unfold ownedInReverse
  simp only [List.mem_map, List.mem_filter, List.mem_reverse]
  constructor
  · rintro ⟨e, ⟨_, ho⟩, rfl⟩
    exact ho
  · rintro ho
    obtain ⟨d, hd, -⟩ := owns_iff.mp ho
    obtain ⟨e, he, rfl⟩ := List.mem_map.mp (mem_of_disposition hd)
    exact ⟨e, ⟨he, ho⟩, rfl⟩

theorem ownedInReverse_sublist : ledger.ownedInReverse.Sublist ledger.resources.reverse := by
  unfold ownedInReverse resources
  rw [← List.map_reverse]
  exact List.filter_sublist.map _

end ResourceLedger

inductive DeploymentManifestState
  | prepared
  | applying (stage : DeploymentStage) (intendedResources : List DeploymentResource)
  | committed (stage : DeploymentStage)
  | cleanupPending
  deriving DecidableEq

structure DeploymentCrashManifest where
  target : MachineName
  revision : ℕ
  state : DeploymentManifestState
  committedLedger : ResourceLedger
  deriving DecidableEq

structure DeploymentRecoveryResource where
  resource : DeploymentResource
  recordedDisposition : Option ResourceDisposition
  applyingWhenInterrupted : Bool
  deriving DecidableEq

/-- Mark a subject as being applied, or add one for it. -/
def markApplying (intended : DeploymentResource) :
    List DeploymentRecoveryResource → List DeploymentRecoveryResource
  | [] => [⟨intended, none, true⟩]
  | subject :: subjects =>
    if subject.resource = intended then { subject with applyingWhenInterrupted := true } :: subjects
    else subject :: markApplying intended subjects

namespace DeploymentCrashManifest

def prepared (target : MachineName) : DeploymentCrashManifest :=
  ⟨target, 1, .prepared, .empty⟩

/-- The resources named by the transition that was being applied. -/
def intended (manifest : DeploymentCrashManifest) : List DeploymentResource :=
  match manifest.state with
  | .applying _ intendedResources => intendedResources
  | .prepared | .committed _ | .cleanupPending => []

def recoveryResources (manifest : DeploymentCrashManifest) : List DeploymentRecoveryResource :=
  manifest.intended.foldl (fun subjects intended => markApplying intended subjects)
    (manifest.committedLedger.entries.map fun entry => ⟨entry.resource, some entry.disposition, false⟩)

theorem mem_markApplying {r r' : DeploymentResource} {subjects : List DeploymentRecoveryResource} :
    r' ∈ (markApplying r subjects).map (·.resource) ↔ r' = r ∨ r' ∈ subjects.map (·.resource) := by
  induction subjects with
  | nil => simp [markApplying]
  | cons subject subjects ih =>
    by_cases h : subject.resource = r
    · simp only [markApplying, h, if_true, List.map_cons, List.mem_cons]
      tauto
    · simp only [markApplying, h, if_false, List.map_cons, List.mem_cons, ih]
      tauto

/-- Recovery looks at what the ledger recorded and at what was being applied. -/
theorem mem_recoveryResources {manifest : DeploymentCrashManifest} {r : DeploymentResource} :
    r ∈ manifest.recoveryResources.map (·.resource) ↔
      r ∈ manifest.committedLedger.resources ∨ r ∈ manifest.intended := by
  unfold recoveryResources
  have h0 : r ∈ manifest.committedLedger.resources ↔
      r ∈ (manifest.committedLedger.entries.map fun entry =>
        (⟨entry.resource, some entry.disposition, false⟩ : DeploymentRecoveryResource)).map
          (·.resource) := by
    rw [List.map_map]
    rfl
  rw [h0]
  clear h0
  generalize (manifest.committedLedger.entries.map fun entry =>
    (⟨entry.resource, some entry.disposition, false⟩ : DeploymentRecoveryResource)) = subjects
  generalize manifest.intended = rs
  induction rs generalizing subjects with
  | nil => simp
  | cons x xs ih =>
    have hx := ih (markApplying x subjects)
    simp only [mem_markApplying] at hx
    rw [List.foldl_cons, List.mem_cons]
    exact hx.trans (by tauto)

end DeploymentCrashManifest

inductive DeploymentStateError
  | invalid (message : String)
  | conflict (message : String)
  | unavailable (message : String)
  deriving DecidableEq

def DeploymentStateError.text : DeploymentStateError → String
  | invalid message => s!"invalid deployment state: {message}"
  | conflict message => s!"deployment state conflict: {message}"
  | unavailable message => s!"deployment state unavailable: {message}"

/-- The session's copy of the manifest, and the manifest the state port holds.
A port operation that fails leaves the stored manifest as it was. -/
structure DeploymentStateSession where
  manifest : DeploymentCrashManifest
  stored : Option DeploymentCrashManifest
  deriving DecidableEq

namespace DeploymentStateSession

/-- Replace the manifest; `port` is what the port's update answers. -/
def transition (session : DeploymentStateSession) (port : Except DeploymentStateError Unit)
    (state : DeploymentManifestState) (ledger : ResourceLedger) :
    Except DeploymentStateError DeploymentStateSession :=
  if session.manifest.revision + 1 < 2 ^ 64 then
    let next : DeploymentCrashManifest :=
      { session.manifest with
        revision := session.manifest.revision + 1
        state
        committedLedger := ledger }
    match port with
    | .ok () => .ok ⟨next, some next⟩
    | .error error => .error error
  else .error (.invalid "manifest revision overflow")

def finish (session : DeploymentStateSession) (port : Except DeploymentStateError Unit) :
    Except DeploymentStateError DeploymentStateSession :=
  match port with
  | .ok () => .ok { session with stored := none }
  | .error error => .error error

def currentApplyingResources (session : DeploymentStateSession) : List DeploymentResource :=
  session.manifest.intended

theorem transition_ok {session session' : DeploymentStateSession}
    {port : Except DeploymentStateError Unit} {state : DeploymentManifestState}
    {ledger : ResourceLedger} (h : session.transition port state ledger = .ok session') :
    session'.stored = some session'.manifest ∧ session'.manifest.state = state ∧
      session'.manifest.committedLedger = ledger := by
  unfold transition at h
  split at h
  · cases port with
    | ok u => cases h; exact ⟨rfl, rfl, rfl⟩
    | error e => cases h
  · cases h

end DeploymentStateSession

end Lasper.Provisioning
