import Mathlib.Algebra.Order.Ring.Int
import Mathlib.Logic.Function.Basic
import Lasper.Lib.Runs
import Lasper.Provisioning.State

/-! The stored crash manifest of one deployment, and the sessions that replace
it. A call checks its request, takes the lock of the manifest file, reads the
file, checks it and replaces or removes it. Sessions interleave between any two
of these steps; only one of them can hold the lock. -/

namespace Lasper.Provisioning

open Lib

section Document

def deploymentManifestSchemaVersion : ℕ := 1
def maxDeploymentManifestBytes : ℕ := 512 * 1024
def maxRevision : ℕ := 2 ^ 64 - 1

/-- A manifest with the fields that only the store looks at. -/
structure ManifestDocument extends DeploymentCrashManifest where
  schemaVersion : ℕ
  deploymentId : String
  planHash : String
  deriving DecidableEq

namespace ManifestDocument

def prepared (id : String) (target : MachineName) (planHash : String) : ManifestDocument where
  toDeploymentCrashManifest := .prepared target
  schemaVersion := deploymentManifestSchemaVersion
  deploymentId := id
  planHash

def isValidPlanHash (hash : String) : Bool :=
  hash.utf8ByteSize = 64 && hash.toList.all fun c =>
    c.isDigit || ('a' ≤ c && c ≤ 'f') || ('A' ≤ c && c ≤ 'F')

def validate (manifest : ManifestDocument) : Except DeploymentStateError Unit :=
  if manifest.schemaVersion ≠ deploymentManifestSchemaVersion then
    .error (.invalid s!"unsupported deployment manifest schema {manifest.schemaVersion}")
  else if manifest.revision = 0 ∨ !isValidPlanHash manifest.planHash then
    .error (.invalid "deployment manifest has an invalid revision or plan hash")
  else if manifest.committedLedger.resources.any (·.target ≠ manifest.target) then
    .error (.invalid "deployment ledger contains a resource for another target")
  else if ¬ manifest.intended.Nodup then
    .error (.invalid "deployment manifest contains duplicate intended resources")
  else if manifest.intended.any (·.target ≠ manifest.target) then
    .error (.invalid "deployment manifest intends a resource for another target")
  else .ok ()

/-- The next revision, for a new state and ledger. -/
def next (manifest : ManifestDocument) (state : DeploymentManifestState) (ledger : ResourceLedger) :
    ManifestDocument :=
  { manifest with revision := manifest.revision + 1, state, committedLedger := ledger }

end ManifestDocument

end Document

section Store

/-- What the store is asked to do. -/
inductive Request
  | create (manifest : ManifestDocument)
  | update (expectedRevision : ℕ) (manifest : ManifestDocument)
  | remove (deploymentId : String) (expectedRevision : ℕ)
  deriving DecidableEq

def saturatingSucc (revision : ℕ) : ℕ := min (revision + 1) maxRevision

variable (size : ManifestDocument → ℕ)

def serializeManifest (manifest : ManifestDocument) : Except DeploymentStateError Unit :=
  if maxDeploymentManifestBytes < size manifest then
    .error (.invalid s!"deployment manifest exceeds {maxDeploymentManifestBytes} bytes")
  else .ok ()

/-- The checks made before the lock is taken. -/
def Request.precheck : Request → Except DeploymentStateError Unit
  | .create manifest => do
    manifest.validate
    serializeManifest size manifest
  | .update expectedRevision manifest => do
    manifest.validate
    if manifest.revision ≠ saturatingSucc expectedRevision then
      throw (.invalid
        s!"manifest revision {manifest.revision} does not follow expected revision {expectedRevision}")
    serializeManifest size manifest
  | .remove _ _ => .ok ()

def checkCurrent (id : String) (expectedRevision : ℕ) :
    Option ManifestDocument → Except DeploymentStateError Unit
  | none => .error (.conflict s!"deployment {id} crash manifest is missing")
  | some current =>
    if current.deploymentId ≠ id ∨ current.revision ≠ expectedRevision then
      .error (.conflict s!"deployment {id} crash manifest changed from revision {expectedRevision}")
    else .ok ()

/-- The check of what is stored, under the lock. -/
def Request.check : Request → Option ManifestDocument → Except DeploymentStateError Unit
  | .create _, none => .ok ()
  | .create manifest, some _ =>
    .error (.conflict s!"deployment {manifest.deploymentId} already has a crash manifest")
  | .update expectedRevision manifest, current => checkCurrent manifest.deploymentId expectedRevision current
  | .remove id expectedRevision, current => checkCurrent id expectedRevision current

/-- What the request leaves in the store. -/
def Request.leaves : Request → Option ManifestDocument
  | .create manifest | .update _ manifest => some manifest
  | .remove _ _ => none

end Store

section Session

/-- What a session is asked to do. -/
inductive Call
  | prepare
  | transition (state : DeploymentManifestState) (ledger : ResourceLedger)
  | finish

/-- The request that a session makes of its manifest. -/
def Call.request (manifest : ManifestDocument) : Call → Except DeploymentStateError Request
  | .prepare => .ok (.create manifest)
  | .transition state ledger =>
    if manifest.revision + 1 ≤ maxRevision then .ok (.update manifest.revision (manifest.next state ledger))
    else .error (.invalid "manifest revision overflow")
  | .finish => .ok (.remove manifest.deploymentId manifest.revision)

/-- The session's manifest after its request succeeded. -/
def Request.settled (manifest : ManifestDocument) : Request → ManifestDocument
  | .update _ next => next
  | .create _ | .remove _ _ => manifest

end Session

section System

/-- How far a session's call has got. -/
inductive Progress
  | idle
  | waiting (request : Request)
  | locked (request : Request)
  | checked (request : Request) (current : Option ManifestDocument)

def Progress.holdsLock : Progress → Bool
  | .locked _ | .checked _ _ => true
  | .idle | .waiting _ => false

def Progress.request : Progress → Option Request
  | .idle => none
  | .waiting request | .locked request | .checked request _ => some request

variable {P : Type}

/-- The store and the sessions. The history notes for whom a removal has reached
the store since its last successful create or update. -/
structure Manifests (P : Type) where
  stored : Option ManifestDocument
  memory : P → ManifestDocument
  progress : P → Progress
  removedSince : P → Bool

variable [DecidableEq P]

namespace Manifests

def advance (s : Manifests P) (p : P) (progress : Progress) : Manifests P :=
  { s with progress := Function.update s.progress p progress }

/-- The file is replaced or removed; the session that asked for it goes on. -/
def put (s : Manifests P) (p : P) (request : Request) : Manifests P :=
  { s.advance p .idle with
    stored := request.leaves
    removedSince := if request.leaves = none then fun _ => true else s.removedSince }

/-- The session learns that its request succeeded. -/
def acknowledge (s : Manifests P) (p : P) (request : Request) : Manifests P :=
  { s with
    memory := Function.update s.memory p (request.settled (s.memory p))
    removedSince := if request.leaves = none then s.removedSince else Function.update s.removedSince p false }

end Manifests

/-- What a step shows to the outside. -/
inductive Event
  | internal
  -- the call was refused or failed before the file was touched
  | failed (error : DeploymentStateError)
  -- the file was replaced or removed, but the call failed afterwards
  | unconfirmed (request : Request) (error : DeploymentStateError)
  | succeeded (request : Request)

variable (size : ManifestDocument → ℕ)

inductive CallStep : Manifests P → P × Event → Manifests P → Prop
  | refuse {s : Manifests P} {p : P} {call : Call} {error : DeploymentStateError}
      (idle : s.progress p = .idle)
      (refused : (do let request ← call.request (s.memory p); request.precheck size) = .error error) :
      CallStep s (p, .failed error) s
  | submit {s : Manifests P} {p : P} {call : Call} {request : Request} (idle : s.progress p = .idle)
      (made : call.request (s.memory p) = .ok request) (valid : request.precheck size = .ok ()) :
      CallStep s (p, .internal) (s.advance p (.waiting request))
  | lock {s : Manifests P} {p : P} {request : Request} (waiting : s.progress p = .waiting request)
      (free : ∀ q, (s.progress q).holdsLock = false) :
      CallStep s (p, .internal) (s.advance p (.locked request))
  | read {s : Manifests P} {p : P} {request : Request} (locked : s.progress p = .locked request) :
      CallStep s (p, .internal) (s.advance p (.checked request s.stored))
  -- the lock cannot be taken, or the file cannot be read or written
  | abort {s : Manifests P} {p : P} {error : DeploymentStateError} (busy : s.progress p ≠ .idle) :
      CallStep s (p, .failed error) (s.advance p .idle)
  | reject {s : Manifests P} {p : P} {request : Request} {current : Option ManifestDocument}
      {error : DeploymentStateError} (checked : s.progress p = .checked request current)
      (conflict : request.check current = .error error) :
      CallStep s (p, .failed error) (s.advance p .idle)
  | commit {s : Manifests P} {p : P} {request : Request} {current : Option ManifestDocument}
      (checked : s.progress p = .checked request current) (agrees : request.check current = .ok ()) :
      CallStep s (p, .succeeded request) ((s.put p request).acknowledge p request)
  -- the directory cannot be synced, or the lock file of a removed manifest not cleaned up
  | commitUnconfirmed {s : Manifests P} {p : P} {request : Request} {current : Option ManifestDocument}
      {error : DeploymentStateError} (checked : s.progress p = .checked request current)
      (agrees : request.check current = .ok ()) :
      CallStep s (p, .unconfirmed request error) (s.put p request)

end System

section Invariant

variable {P : Type} {s t : Manifests P} {size : ManifestDocument → ℕ}

/-- Sessions that were just made for one deployment; a manifest may be stored. -/
structure Manifests.Fresh (id : String) (s : Manifests P) : Prop where
  idle : ∀ p, s.progress p = .idle
  prepared : ∀ p, ∃ target planHash, s.memory p = .prepared id target planHash

/-- One session holds the lock, what it read is what is stored, and its request
is one that its manifest makes. A session that has stored a revision, with no
removal since, has seen whatever is stored at that revision. -/
structure Consistent (size : ManifestDocument → ℕ) (s : Manifests P) : Prop where
  exclusive : ∀ p q, (s.progress p).holdsLock = true → (s.progress q).holdsLock = true → p = q
  read : ∀ p request current, s.progress p = .checked request current → current = s.stored
  made : ∀ p request, (s.progress p).request = some request →
    (∃ call : Call, call.request (s.memory p) = .ok request) ∧ request.precheck size = .ok ()
  positive : ∀ p, 1 ≤ (s.memory p).revision
  seen : ∀ p, s.removedSince p = false → 1 < (s.memory p).revision →
    ∃ manifest, s.stored = some manifest ∧ (s.memory p).revision ≤ manifest.revision ∧
      ((s.memory p).revision = manifest.revision → s.memory p = manifest)

theorem Manifests.Fresh.consistent {id : String} (h : s.Fresh id) : Consistent size s where
  exclusive p q hp := by rw [h.idle p] at hp; cases hp
  read p request current hp := by rw [h.idle p] at hp; cases hp
  made p request hp := by rw [h.idle p] at hp; cases hp
  positive p := by
    obtain ⟨target, planHash, hm⟩ := h.prepared p
    rw [hm]
    exact Nat.le_refl 1
  seen p _ hp := by
    obtain ⟨target, planHash, hm⟩ := h.prepared p
    rw [hm] at hp
    exact absurd hp (Nat.lt_irrefl 1)

theorem Call.request_create {call : Call} {manifest created : ManifestDocument}
    (h : call.request manifest = .ok (.create created)) : created = manifest := by
  cases call with
  | prepare => cases h; rfl
  | transition state ledger =>
    unfold Call.request at h
    split_ifs at h
    cases h
  | finish => cases h

theorem Call.request_update {call : Call} {manifest next : ManifestDocument} {expected : ℕ}
    (h : call.request manifest = .ok (.update expected next)) :
    expected = manifest.revision ∧ next.revision = expected + 1 ∧ next.revision ≤ maxRevision := by
  cases call with
  | prepare => cases h
  | transition state ledger =>
    unfold Call.request at h
    split_ifs at h with hbound
    cases h
    exact ⟨rfl, rfl, hbound⟩
  | finish => cases h

theorem checkCurrent_ok {id : String} {expected : ℕ} {current : Option ManifestDocument}
    (h : checkCurrent id expected current = .ok ()) :
    ∃ manifest, current = some manifest ∧ manifest.deploymentId = id ∧ manifest.revision = expected := by
  cases current with
  | none => cases h
  | some manifest =>
    unfold checkCurrent at h
    dsimp only at h
    split_ifs at h with hdiffers
    exact ⟨manifest, rfl, not_not.mp (not_or.mp hdiffers).1, not_not.mp (not_or.mp hdiffers).2⟩

/-- An update that passes its check replaces the revision its session is at. -/
theorem Consistent.update_replaces (h : Consistent size s) {p : P} {expected : ℕ} {next : ManifestDocument}
    {current : Option ManifestDocument} (hp : s.progress p = .checked (.update expected next) current)
    (agrees : (Request.update expected next).check current = .ok ()) :
    ∃ manifest, s.stored = some manifest ∧ manifest.revision = expected ∧
      expected = (s.memory p).revision ∧ next.revision = expected + 1 ∧ next.revision ≤ maxRevision := by
  obtain ⟨⟨call, hcall⟩, _⟩ := h.made p (.update expected next) (by rw [hp]; rfl)
  obtain ⟨hexpected, hnext, hbound⟩ := Call.request_update hcall
  obtain ⟨manifest, hcurrent, _, hrevision⟩ := checkCurrent_ok agrees
  rw [h.read p _ _ hp] at hcurrent
  exact ⟨manifest, hcurrent, hrevision, hexpected, hnext, hbound⟩

theorem Consistent.create_finds_nothing (h : Consistent size s) {p : P} {manifest : ManifestDocument}
    {current : Option ManifestDocument} (hp : s.progress p = .checked (.create manifest) current)
    (agrees : (Request.create manifest).check current = .ok ()) : s.stored = none := by
  cases current with
  | none => exact (h.read p _ _ hp).symm
  | some current => cases agrees

/-- After a success the session has what is stored, if anything is. -/
theorem Consistent.leaves_settled (h : Consistent size s) {p : P} {request : Request}
    {current : Option ManifestDocument} (hp : s.progress p = .checked request current)
    {manifest : ManifestDocument} (hl : request.leaves = some manifest) :
    request.settled (s.memory p) = manifest ∧ 1 ≤ manifest.revision := by
  obtain ⟨⟨call, hcall⟩, _⟩ := h.made p request (by rw [hp]; rfl)
  have hpositive := h.positive p
  cases request with
  | create created =>
    cases hl
    have hcreated := Call.request_create hcall
    subst hcreated
    exact ⟨rfl, hpositive⟩
  | update expected next =>
    cases hl
    obtain ⟨_, hnext, _⟩ := Call.request_update hcall
    exact ⟨rfl, by omega⟩
  | remove id expected => cases hl

variable [DecidableEq P]

theorem Manifests.advance_progress_self (p : P) (progress : Progress) :
    (s.advance p progress).progress p = progress := Function.update_self ..

theorem Manifests.advance_progress_of_ne {p q : P} (progress : Progress) (h : q ≠ p) :
    (s.advance p progress).progress q = s.progress q := Function.update_of_ne h ..

/-- A session may go on to a place without the lock, or keep the lock it has. -/
theorem Consistent.advance (h : Consistent size s) {p : P} {progress : Progress}
    (hlock : progress.holdsLock = true → ∀ q, (s.progress q).holdsLock = true → q = p)
    (hread : ∀ request current, progress = .checked request current → current = s.stored)
    (hmade : ∀ request, progress.request = some request →
      (∃ call : Call, call.request (s.memory p) = .ok request) ∧ request.precheck size = .ok ()) :
    Consistent size (s.advance p progress) where
  exclusive q r hq hr := by
    by_cases hqp : q = p
    · by_cases hrp : r = p
      · rw [hqp, hrp]
      · rw [hqp, Manifests.advance_progress_self] at hq
        rw [Manifests.advance_progress_of_ne _ hrp] at hr
        rw [hqp, hlock hq r hr]
    · rw [Manifests.advance_progress_of_ne _ hqp] at hq
      by_cases hrp : r = p
      · rw [hrp, Manifests.advance_progress_self] at hr
        rw [hrp, hlock hr q hq]
      · rw [Manifests.advance_progress_of_ne _ hrp] at hr
        exact h.exclusive q r hq hr
  read q request current hq := by
    by_cases hqp : q = p
    · rw [hqp, Manifests.advance_progress_self] at hq
      exact hread request current hq
    · rw [Manifests.advance_progress_of_ne _ hqp] at hq
      exact h.read q request current hq
  made q request hq := by
    by_cases hqp : q = p
    · rw [hqp, Manifests.advance_progress_self] at hq
      rw [hqp]
      exact hmade request hq
    · rw [Manifests.advance_progress_of_ne _ hqp] at hq
      exact h.made q request hq
  positive := h.positive
  seen := h.seen

theorem Consistent.idle (h : Consistent size s) (p : P) : Consistent size (s.advance p .idle) :=
  h.advance (fun hl => by cases hl) (fun _ _ hr => by cases hr) fun _ hr => by cases hr

theorem Consistent.put (h : Consistent size s) {p : P} {request : Request} {current : Option ManifestDocument}
    (hp : s.progress p = .checked request current) (agrees : request.check current = .ok ()) :
    Consistent size (s.put p request) where
  exclusive := (h.idle p).exclusive
  read q other read hq := by
    by_cases hqp : q = p
    · rw [hqp] at hq
      rw [show (s.put p request).progress p = .idle from Manifests.advance_progress_self p .idle] at hq
      cases hq
    · rw [show (s.put p request).progress q = s.progress q from
        Manifests.advance_progress_of_ne .idle hqp] at hq
      exact absurd (h.exclusive q p (by rw [hq]; rfl) (by rw [hp]; rfl)) hqp
  made := (h.idle p).made
  positive := h.positive
  seen q hq hrevision := by
    cases request with
    | create manifest =>
      have hnone := h.create_finds_nothing hp agrees
      obtain ⟨stored, hstored, _⟩ := h.seen q hq hrevision
      rw [hnone] at hstored
      cases hstored
    | update expected next =>
      obtain ⟨manifest, hstored, hexpected, _, hnext, _⟩ := h.update_replaces hp agrees
      obtain ⟨stored, hstored', hle, _⟩ := h.seen q hq hrevision
      rw [hstored] at hstored'
      cases hstored'
      have hlt : (s.memory q).revision < next.revision := by omega
      exact ⟨next, rfl, Nat.le_of_lt hlt, fun he => absurd he (Nat.ne_of_lt hlt)⟩
    | remove id expected => cases hq

theorem Consistent.acknowledge (h : Consistent size s) {p : P} {request : Request}
    {current : Option ManifestDocument} (hp : s.progress p = .checked request current)
    (agrees : request.check current = .ok ()) :
    Consistent size ((s.put p request).acknowledge p request) := by
  have hput := h.put hp agrees
  have hidle : (s.put p request).progress p = .idle := Manifests.advance_progress_self p .idle
  cases hl : request.leaves with
  | none =>
    have hsettled : request.settled (s.memory p) = s.memory p := by
      cases request with
      | remove id expected => rfl
      | create manifest => cases hl
      | update expected next => cases hl
    have hsame : (s.put p request).acknowledge p request = s.put p request := by
      simp only [Manifests.acknowledge, Manifests.put, Manifests.advance, hl, hsettled, if_true,
        Function.update_eq_self]
    rw [hsame]
    exact hput
  | some manifest =>
    obtain ⟨hsettled, hpositive⟩ := h.leaves_settled hp hl
    have hself : ((s.put p request).acknowledge p request).memory p = manifest := by
      rw [← hsettled]
      exact Function.update_self ..
    have hother : ∀ q, q ≠ p → ((s.put p request).acknowledge p request).memory q = s.memory q :=
      fun q hq => Function.update_of_ne hq ..
    refine ⟨hput.exclusive, hput.read, fun q other hq => ?_, fun q => ?_, fun q hq hrevision => ?_⟩
    · by_cases hqp : q = p
      · rw [hqp] at hq
        rw [show ((s.put p request).acknowledge p request).progress p = .idle from hidle] at hq
        cases hq
      · rw [hother q hqp]
        exact hput.made q other hq
    · by_cases hqp : q = p
      · rw [hqp, hself]
        exact hpositive
      · rw [hother q hqp]
        exact h.positive q
    · by_cases hqp : q = p
      · rw [hqp, hself]
        exact ⟨manifest, hl, Nat.le_refl _, fun _ => rfl⟩
      · rw [hother q hqp] at hrevision ⊢
        refine hput.seen q ?_ hrevision
        simp only [Manifests.acknowledge, hl] at hq
        rw [if_neg nofun, Function.update_of_ne hqp] at hq
        exact hq

theorem CallStep.consistent {label : P × Event} (h : CallStep size s label t) (hs : Consistent size s) :
    Consistent size t := by
  cases h with
  | refuse => exact hs
  | @submit p call request idle made valid =>
    refine hs.advance (fun hl => by cases hl) (fun _ _ hr => by cases hr) fun other hr => ?_
    cases hr
    exact ⟨⟨call, made⟩, valid⟩
  | @lock p request waiting free =>
    refine hs.advance (fun _ q hq => ?_) (fun _ _ hr => by cases hr) fun other hr => ?_
    · rw [free q] at hq
      cases hq
    · have hrequest : (s.progress p).request = some other := by rw [waiting]; exact hr
      exact hs.made p other hrequest
  | @read p request locked =>
    have hholds : (s.progress p).holdsLock = true := by rw [locked]; rfl
    refine hs.advance (fun _ q hq => hs.exclusive q p hq hholds) (fun other current hr => ?_) fun other hr => ?_
    · cases hr
      rfl
    · have hrequest : (s.progress p).request = some other := by rw [locked]; exact hr
      exact hs.made p other hrequest
  | abort | reject => exact hs.idle _
  | commit checked agrees => exact hs.acknowledge checked agrees
  | commitUnconfirmed checked agrees => exact hs.put checked agrees

end Invariant

section Result

variable {P : Type} [DecidableEq P] {s t : Manifests P} {size : ManifestDocument → ℕ}

/-- The request that changed the file in a step. -/
def Event.change : Event → Option Request
  | .succeeded request | .unconfirmed request _ => some request
  | .internal | .failed _ => none

theorem CallStep.change_spec {p : P} {event : Event} {request : Request} (h : CallStep size s (p, event) t)
    (hc : event.change = some request) :
    ∃ current, s.progress p = .checked request current ∧ request.check current = .ok () ∧
      t.stored = request.leaves := by
  cases h with
  | commit checked agrees | commitUnconfirmed checked agrees =>
    cases hc
    exact ⟨_, checked, agrees, rfl⟩
  | refuse | submit | lock | read | abort | reject => cases hc

/-- In every interleaving, an update that reaches the store moves it from the
revision its session has to the next one, and replaces the session's own
manifest unless that was never updated or a removal came in between. A call that
fails leaves the store as it was, or with what it asked for if the file had been
changed when it failed. A success leaves the session with what is stored. -/
theorem manifest_compare_and_swap {id : String} {s₀ : Manifests P} {labels : List (P × Event)} {p : P}
    {event : Event} (hs : s₀.Fresh id) (h : Run (CallStep size) s₀ labels s)
    (hstep : CallStep size s (p, event) t) :
    (∀ expected next, event.change = some (.update expected next) → ∃ current, s.stored = some current ∧
      current.revision = expected ∧ expected = (s.memory p).revision ∧ t.stored = some next ∧
      next.revision = expected + 1 ∧ next.revision ≤ maxRevision ∧
      (s.removedSince p = false → current.revision ≠ 1 → current = s.memory p)) ∧
    (event.change = none → t.stored = s.stored ∧ t.memory = s.memory) ∧
    (∀ request error, event = .unconfirmed request error →
      t.stored = request.leaves ∧ t.memory = s.memory) ∧
    (∀ request, event = .succeeded request → t.stored = request.leaves ∧
      (∀ manifest, t.stored = some manifest → t.memory p = manifest) ∧
      ∀ q, q ≠ p → t.memory q = s.memory q) := by
  have hconsistent : Consistent size s := h.invariant hs.consistent fun _ _ _ hu hv => hv.consistent hu
  refine ⟨fun expected next hc => ?_, fun hc => ?_, fun request error he => ?_, fun request he => ?_⟩
  · obtain ⟨read, checked, agrees, hleaves⟩ := hstep.change_spec hc
    obtain ⟨current, hstored, hexpected, hmemory, hnext, hbound⟩ := hconsistent.update_replaces checked agrees
    refine ⟨current, hstored, hexpected, hmemory, hleaves, hnext, hbound, fun hremoved hne => ?_⟩
    have hpositive := hconsistent.positive p
    obtain ⟨manifest, hmanifest, _, hsame⟩ := hconsistent.seen p hremoved (by omega)
    rw [hstored] at hmanifest
    cases hmanifest
    exact (hsame (by omega)).symm
  · cases hstep with
    | commit | commitUnconfirmed => cases hc
    | refuse | submit | lock | read | abort | reject => exact ⟨rfl, rfl⟩
  · cases he
    cases hstep with
    | commitUnconfirmed => exact ⟨rfl, rfl⟩
  · cases he
    cases hstep with
    | commit checked agrees =>
      refine ⟨rfl, fun manifest hm => ?_, fun q hq => Function.update_of_ne hq ..⟩
      rw [← (hconsistent.leaves_settled checked hm).1]
      exact Function.update_self ..

end Result

section Example

variable {s₀ s : Manifests Bool} {labels : List (Bool × Event)}

/-- Manifests without regard to their size. -/
private def smallSize : ManifestDocument → ℕ := fun _ => 0

/-- Nobody is in a call. -/
private def AllIdle (s : Manifests Bool) : Prop := ∀ p, s.progress p = .idle

/-- A call gets to the point where it has read the file. -/
theorem run_to_check (h : Run (CallStep smallSize) s₀ labels s) (hidle : AllIdle s) (p : Bool) (call : Call)
    {request : Request} (hmade : call.request (s.memory p) = .ok request)
    (hvalid : request.precheck smallSize = .ok ()) :
    ∃ labels u, Run (CallStep smallSize) s₀ labels u ∧ u.stored = s.stored ∧ u.memory = s.memory ∧
      u.removedSince = s.removedSince ∧ u.progress p = .checked request s.stored ∧
      ∀ q, q ≠ p → u.progress q = .idle := by
  have hself : ∀ (v : Manifests Bool) progress, (v.advance p progress).progress p = progress :=
    fun v progress => Manifests.advance_progress_self p progress
  have hothers : ∀ (v : Manifests Bool) progress, (∀ q, q ≠ p → v.progress q = .idle) →
      ∀ q, q ≠ p → (v.advance p progress).progress q = .idle := fun v progress hv q hq => by
    rw [Manifests.advance_progress_of_ne progress hq]
    exact hv q hq
  have hsubmitted := h.snoc (.submit (hidle p) hmade hvalid)
  have hrest := hothers s (.waiting request) fun q _ => hidle q
  have hlocked := hsubmitted.snoc (.lock (hself s _) fun q => by
    by_cases hq : q = p
    · rw [hq, hself]
      rfl
    · rw [hrest q hq]
      rfl)
  have hread := hlocked.snoc (.read (hself _ _))
  exact ⟨_, _, hread, rfl, rfl, rfl, hself _ _, hothers _ _ (hothers _ _ hrest)⟩

/-- A whole call that succeeds. -/
theorem run_call (h : Run (CallStep smallSize) s₀ labels s) (hidle : AllIdle s) (p : Bool) (call : Call)
    {request : Request} (hmade : call.request (s.memory p) = .ok request)
    (hvalid : request.precheck smallSize = .ok ()) (hagrees : request.check s.stored = .ok ()) :
    ∃ labels t, Run (CallStep smallSize) s₀ labels t ∧ AllIdle t ∧ t.stored = request.leaves ∧
      t.memory = Function.update s.memory p (request.settled (s.memory p)) := by
  obtain ⟨labels, u, hrun, _, hmemory, _, hchecked, hothers⟩ := run_to_check h hidle p call hmade hvalid
  refine ⟨_, _, hrun.snoc (.commit hchecked hagrees), fun q => ?_, rfl, ?_⟩
  · by_cases hq : q = p
    · rw [hq]
      exact Manifests.advance_progress_self p .idle
    · rw [← hothers q hq]
      exact Manifests.advance_progress_of_ne .idle hq
  · rw [← hmemory]
    rfl

private def testMachine : MachineName := ⟨"test", by decide⟩

private def ofSession (p : Bool) : ManifestDocument :=
  .prepared "7" testMachine
    (if p then "aaaaaaaaaaaaaaaaaaaaaaaaaaaaaaaaaaaaaaaaaaaaaaaaaaaaaaaaaaaaaaaa"
      else "bbbbbbbbbbbbbbbbbbbbbbbbbbbbbbbbbbbbbbbbbbbbbbbbbbbbbbbbbbbbbbbb")

/-- Two sessions for one deployment, and nothing stored. -/
def twoSessions : Manifests Bool := ⟨none, ofSession, fun _ => .idle, fun _ => false⟩

private def advanced (p : Bool) : ManifestDocument := (ofSession p).next .cleanupPending .empty

/-- A session updates the manifest that it has prepared. -/
theorem manifest_compare_and_swap_first : ∃ labels s t, Run (CallStep smallSize) twoSessions labels s ∧
    CallStep smallSize s (true, .succeeded (.update 1 (advanced true))) t ∧
    t.memory true = advanced true ∧ ∃ current, s.stored = some current ∧ current.revision = 1 := by
  have hstart : Run (CallStep smallSize) twoSessions [] twoSessions := .nil
  obtain ⟨_, s₁, hrun₁, hidle₁, hstored₁, hmemory₁⟩ := run_call hstart (fun _ => rfl) true .prepare rfl
    (by decide) rfl
  have htrue₁ : s₁.memory true = ofSession true := by rw [hmemory₁]; rfl
  have hmade₁ : (Call.transition .cleanupPending .empty).request (s₁.memory true) =
      .ok (.update 1 (advanced true)) := by rw [htrue₁]; rfl
  obtain ⟨labels, u, hrun, _, _, _, hchecked, _⟩ := run_to_check hrun₁ hidle₁ true _ hmade₁ (by decide)
  have hstep : CallStep smallSize u (true, .succeeded (.update 1 (advanced true))) _ :=
    .commit hchecked (by rw [hstored₁]; decide)
  have hfresh : twoSessions.Fresh "7" := ⟨fun _ => rfl, fun p => ⟨testMachine, _, rfl⟩⟩
  obtain ⟨hupdate, _, _, hsuccess⟩ := manifest_compare_and_swap hfresh hrun hstep
  obtain ⟨current, hstored, hrevision, _⟩ := hupdate 1 (advanced true) rfl
  exact ⟨labels, u, _, hrun, hstep, (hsuccess _ rfl).2.1 _ rfl, current, hstored, hrevision⟩

/-- The directory is not synced after the rename: the update fails, and is
stored. And a session that goes on after its manifest was removed overwrites the
update of another session that it has not seen. -/
theorem failed_update_is_stored :
    (∃ labels s t error, Run (CallStep smallSize) twoSessions labels s ∧
      CallStep smallSize s (true, .unconfirmed (.update 1 (advanced true)) error) t ∧
      t.stored ≠ s.stored) ∧
    (∃ labels s t next, Run (CallStep smallSize) twoSessions labels s ∧
      CallStep smallSize s (true, .succeeded (.update 2 next)) t ∧
      s.stored = some (advanced false) ∧ s.memory true = advanced true ∧
      s.memory true ≠ advanced false) := by
  have hstart : Run (CallStep smallSize) twoSessions [] twoSessions := .nil
  obtain ⟨_, s₁, hrun₁, hidle₁, hstored₁, hmemory₁⟩ := run_call hstart (fun _ => rfl) true .prepare rfl
    (by decide) rfl
  have htrue₁ : s₁.memory true = ofSession true := by rw [hmemory₁]; rfl
  have hmade₁ : (Call.transition .cleanupPending .empty).request (s₁.memory true) =
      .ok (.update 1 (advanced true)) := by rw [htrue₁]; rfl
  constructor
  · obtain ⟨_, u, hrun, hstored, _, _, hchecked, _⟩ := run_to_check hrun₁ hidle₁ true _ hmade₁ (by decide)
    refine ⟨_, u, _, .unavailable "directory not synced", hrun, .commitUnconfirmed hchecked ?_, ?_⟩
    · rw [hstored₁]
      decide
    · rw [hstored, hstored₁]
      change some (advanced true) ≠ some (ofSession true)
      decide
  · obtain ⟨_, s₂, hrun₂, hidle₂, hstored₂, hmemory₂⟩ := run_call hrun₁ hidle₁ true _ hmade₁ (by decide)
      (by rw [hstored₁]; decide)
    have htrue₂ : s₂.memory true = advanced true := by rw [hmemory₂]; rfl
    obtain ⟨_, s₃, hrun₃, hidle₃, hstored₃, hmemory₃⟩ := run_call hrun₂ hidle₂ true .finish
      (by rw [htrue₂]; rfl) rfl (by rw [hstored₂]; decide)
    have hfalse₃ : s₃.memory false = ofSession false := by rw [hmemory₃, hmemory₂, hmemory₁]; rfl
    obtain ⟨_, s₄, hrun₄, hidle₄, hstored₄, hmemory₄⟩ := run_call hrun₃ hidle₃ false .prepare
      (by rw [hfalse₃]; rfl) (by decide) (by rw [hstored₃]; rfl)
    have hfalse₄ : s₄.memory false = ofSession false := by rw [hmemory₄, hfalse₃]; rfl
    have hmade₄ : (Call.transition .cleanupPending .empty).request (s₄.memory false) =
        .ok (.update 1 (advanced false)) := by rw [hfalse₄]; rfl
    obtain ⟨_, s₅, hrun₅, hidle₅, hstored₅, hmemory₅⟩ := run_call hrun₄ hidle₄ false _ hmade₄ (by decide)
      (by rw [hstored₄]; decide)
    have htrue₅ : s₅.memory true = advanced true := by
      rw [hmemory₅, hmemory₄, hmemory₃, htrue₂]
      rfl
    have hmade₅ : (Call.transition .cleanupPending .empty).request (s₅.memory true) =
        .ok (.update 2 ((advanced true).next .cleanupPending .empty)) := by rw [htrue₅]; rfl
    obtain ⟨_, u, hrun, hstored, hmemory, _, hchecked, _⟩ := run_to_check hrun₅ hidle₅ true _ hmade₅
      (by decide)
    refine ⟨_, u, _, _, hrun, .commit hchecked ?_, ?_, ?_, ?_⟩
    · rw [hstored₅]
      decide
    · rw [hstored, hstored₅]
      rfl
    · rw [hmemory, htrue₅]
    · rw [hmemory, htrue₅]
      decide

end Example

end Lasper.Provisioning
