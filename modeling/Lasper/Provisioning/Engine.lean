import Lasper.Lib.Traced
import Lasper.Provisioning.Report

/-! The deployment engine's state and its primitive steps. Every answer of the
host and of the state port comes from an environment, indexed by the number of
the question, so that one environment is one behaviour of everything outside
the engine. Next to the engine's own variables the state keeps a history that
no step reads: which resources have been touched and not confirmed undone, the
order in which resources were first recorded, and what rollback removed. -/

namespace Lasper.Provisioning

open Lib Traced

structure NspawnConfig where
  path : String
  content : String
  deriving DecidableEq

inductive RootfsTarget
  | machine (machine : MachineName)
  | imageMount (machine : MachineName)
  | rawMount (machine : MachineName) (mountId : String)
  deriving DecidableEq

structure Environment where
  cancelled : ℕ → Bool
  port : ℕ → Except DeploymentStateError Unit
  perform : ℕ → Except NspawnError Unit
  apply : ℕ → Except NspawnError ResourceApplyStatus
  probe : ℕ → Except NspawnError Bool
  inspect : ℕ → Except NspawnError (Option NspawnConfig)
  mount : ℕ → Except NspawnError String
  mountManagedRaw : ℕ → Except NspawnError (Option RootfsTarget)
  -- whether systemd finds settings to copy along with a cloned image
  copiesSettings : ℕ → Bool

structure UserSecret where
  username : String
  password : Option String
  deriving DecidableEq

structure DeploymentSecrets where
  rootPassword : Option String
  users : List UserSecret
  deriving DecidableEq

namespace DeploymentSecrets

def hasAccountChanges (secrets : DeploymentSecrets) : Bool :=
  secrets.rootPassword.isSome || !secrets.users.isEmpty

def takeRootPassword (secrets : DeploymentSecrets) : Option String × DeploymentSecrets :=
  (secrets.rootPassword, { secrets with rootPassword := none })

def takeUserPassword (secrets : DeploymentSecrets) (username : String) :
    Except String (Option String × DeploymentSecrets) :=
  match secrets.users.find? (·.username = username) with
  | none => .error s!"missing secret capsule entry for user \"{username}\""
  | some secret =>
    .ok (secret.password, { secrets with users := secrets.users.eraseP (·.username = username) })

end DeploymentSecrets

/-- One removal that rollback started: what the ledger said about the resource,
what was still outstanding, and whether the `.nspawn` file was not the
deployment's own. -/
structure Removal where
  resource : DeploymentResource
  disposition : Option ResourceDisposition
  outstanding : List DeploymentResource
  settingsForeign : Bool

structure World where
  calls : ℕ := 0
  session : Option DeploymentStateSession
  report : ApplyReport
  rawMountTarget : Option RootfsTarget := none
  storageMountAttempted : Bool := false
  secrets : DeploymentSecrets
  outstanding : List DeploymentResource := []
  recorded : List DeploymentResource := []
  settingsForeign : Bool := false
  visited : List DeploymentResource := []
  removals : List Removal := []

abbrev Engine := Traced World NspawnError

namespace World

/-- Install a new report; resources that appear in its ledger for the first time
join the history in ledger order. -/
def setReport (w : World) (report : ApplyReport) : World :=
  { w with report, recorded := w.recorded ++ report.ledger.resources.filter (· ∉ w.recorded) }

/-- An effect on these resources begins. -/
def start (rs : List DeploymentResource) (w : World) : World :=
  { w with outstanding := w.outstanding ++ rs }

/-- These resources are confirmed to be gone, or never to have been touched. -/
def settle (rs : List DeploymentResource) (w : World) : World :=
  { w with outstanding := w.outstanding.filter (· ∉ rs) }

def intended (w : World) : List DeploymentResource :=
  (w.session.map (·.currentApplyingResources)).getD []

/-- What recovery would look at if the process stopped here. -/
def recoveryResources (w : World) : List DeploymentResource :=
  (((w.session.bind (·.stored)).map (·.recoveryResources)).getD []).map (·.resource)

end World

section Steps

variable (env : Environment)

def ask {α : Type} (answer : ℕ → α) : Engine α := do
  let n ← read (·.calls)
  update fun w => { w with calls := n + 1 }
  return answer n

def askResult {α : Type} (answer : ℕ → Except NspawnError α) : Engine α := do
  let result ← ask answer
  ofExcept result

def checkDeploymentCancellation : Engine Unit := do
  let cancelled ← ask env.cancelled
  onlyIf cancelled (fail .deploymentCancelled)

def editReport (f : ApplyReport → ApplyReport) : Engine Unit :=
  update fun w => w.setReport (f w.report)

def recordTyped (resource : DeploymentResource) (disposition : ResourceDisposition) : Engine Unit :=
  editReport (·.recordTyped resource disposition)

def recordCreated (resource : AppliedResource) : Engine Unit :=
  editReport (·.recordCreated resource)

def recordApply (resource : AppliedResource) (status : ResourceApplyStatus) : Engine Unit := do
  let result ← read fun w => (w.report.recordApply resource status).2
  update fun w =>
    { w.setReport (w.report.recordApply resource status).1 with
      settingsForeign := w.settingsForeign || (resource = .nspawnConfig && status ≠ .created) }
  ofExcept result

/-- Ask the state port to replace the manifest, if the job has a session. -/
def transition (state : DeploymentManifestState) : Engine Unit := do
  match ← read (·.session) with
  | none => return ()
  | some session =>
    let ledger ← read (·.report.ledger)
    let port ← ask env.port
    match session.transition port state ledger with
    | .ok session' => update fun w => { w with session := some session' }
    | .error error => fail (.runtime error.text)

def persistApplying (stage : DeploymentStage) (intendedResources : List DeploymentResource) :
    Engine Unit :=
  transition env (.applying stage intendedResources)

def persistCommitted (stage : DeploymentStage) : Engine Unit :=
  transition env (.committed stage)

def persistCleanupPending : Engine Unit :=
  transition env .cleanupPending

def finishManifest : Engine Unit := do
  match ← read (·.session) with
  | none => return ()
  | some session =>
    let port ← ask env.port
    match session.finish port with
    | .ok session' => update fun w => { w with session := some session' }
    | .error error => fail (.runtime error.text)

def captureResource (report : ApplyReport) (resource : DeploymentResource) : ApplyReport :=
  match resource with
  | .rawConfigurationMount _ =>
    if report.ledger.disposition resource = none then
      (report.blockStorageRemoval
        "raw image configuration mount outcome requires reconciliation").recordOutcomeUnknownIfUnclassified
          resource
    else report.recordOutcomeUnknownIfUnclassified resource
  | _ => report.recordOutcomeUnknownIfUnclassified resource

/-- Take over what the interrupted transition intended as of unknown outcome. -/
def captureUncommittedEffects : Engine Unit :=
  update fun w => w.setReport (w.intended.foldl captureResource w.report)

/-- An effect on the given resources that either succeeds or fails; a failure
says nothing about how far it got. -/
def effect {α : Type} (resources : List DeploymentResource) (answer : ℕ → Except NspawnError α) :
    Engine α := do
  update (World.start resources)
  askResult answer

/-- Write one host file through its store. A store that reports the file
unchanged or of unknown ownership has not written it. -/
def applyFile (resource : DeploymentResource) : Engine ResourceApplyStatus := do
  let status ← effect [resource] env.apply
  onlyIf (status = .unchanged || status = .conflictUnknownOwner) (update (World.settle [resource]))
  return status

end Steps

end Lasper.Provisioning
