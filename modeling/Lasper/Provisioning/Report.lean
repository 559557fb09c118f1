import Lasper.Provisioning.State

/-! The in-memory account of one deployment: the ledger it is building and the
reasons why storage or the external image must not be removed. -/

namespace Lasper.Provisioning

inductive NspawnError
  | validation (message : String)
  | runtime (message : String)
  | commandFailed (command context output : String)
  | deploymentCancelled
  | deploymentCancellationRollbackIncomplete (message : String)
  | deploymentProcessStateUnknown (message : String)
  | deploymentRollbackIncomplete (message : String)
  | io (path : String) (timedOut : Bool) (detail : String)
  -- the other variants that only callees construct, by the text they display
  | other (message : String)
  deriving DecidableEq

def NspawnError.text : NspawnError → String
  | validation message => s!"Validation error: {message}"
  | runtime message => s!"Runtime error: {message}"
  | commandFailed command context output => s!"Command Failed ({command}): {context}. Output: {output}"
  | deploymentCancelled => "Deployment cancelled"
  | deploymentCancellationRollbackIncomplete message =>
    s!"Deployment cancelled; rollback incomplete: {message}"
  | deploymentProcessStateUnknown message => s!"Deployment process state is unknown: {message}"
  | deploymentRollbackIncomplete message => s!"Deployment rollback incomplete: {message}"
  | io path _ detail => s!"IO error in {path}: {detail}"
  | other message => message

/-- What a store that writes one host file reports back. -/
inductive ResourceApplyStatus
  | created | unchanged | replacedOwned | conflictUnknownOwner
  deriving DecidableEq

inductive AppliedResource
  | localStorage | externalImage | nvidiaState | nspawnConfig | systemdOverride
  deriving DecidableEq

def AppliedResource.label : AppliedResource → String
  | localStorage => "local storage"
  | externalImage => "external image"
  | nvidiaState => "NVIDIA state"
  | nspawnConfig => ".nspawn configuration"
  | systemdOverride => "systemd service override"

def AppliedResource.on (target : MachineName) : AppliedResource → DeploymentResource
  | localStorage => .localStorage target
  | externalImage => .externalImage target
  | nvidiaState => .nvidiaState target
  | nspawnConfig => .nspawnConfig target
  | systemdOverride => .systemdOverride target

structure ApplyReport where
  target : MachineName
  ledger : ResourceLedger
  externalImageBlockers : List String
  storageRemovalBlockers : List String

/-- The resources inside or over the storage tree, which go when it goes. -/
def rootfsDependents (target : MachineName) : List DeploymentResource :=
  [.storageMount target, .rawConfigurationMount target, .rootfsHostname target,
    .rootfsAccounts target, .rootfsNvidia target, .rootfsNetwork target]

namespace ApplyReport

def new (target : MachineName) : ApplyReport := ⟨target, .empty, [], []⟩

def typed (report : ApplyReport) (resource : AppliedResource) : DeploymentResource :=
  resource.on report.target

def recordTyped (report : ApplyReport) (resource : DeploymentResource)
    (disposition : ResourceDisposition) : ApplyReport :=
  { report with ledger := report.ledger.record resource disposition }

def recordCreated (report : ApplyReport) (resource : AppliedResource) : ApplyReport :=
  report.recordTyped (report.typed resource) .created

def blockStorageRemoval (report : ApplyReport) (reason : String) : ApplyReport :=
  { report with storageRemovalBlockers := report.storageRemovalBlockers ++ [reason] }

def blockExternalImageRemoval (report : ApplyReport) (reason : String) : ApplyReport :=
  { report with externalImageBlockers := report.externalImageBlockers ++ [reason] }

/-- Record what a store reported. The report changes even when the deployment
must stop because the `.nspawn` file cannot be taken over. -/
def recordApply (report : ApplyReport) (resource : AppliedResource) :
    ResourceApplyStatus → ApplyReport × Except NspawnError Unit
  | .created => (report.recordCreated resource, .ok ())
  | .unchanged =>
    let report := report.recordTyped (report.typed resource) .preExisting
    if resource = .nspawnConfig then
      (report.blockExternalImageRemoval "an unchanged .nspawn configuration predates this deployment",
        .ok ())
    else (report, .ok ())
  | .replacedOwned =>
    let report := report.recordTyped (report.typed resource) .adopted
    if resource = .nspawnConfig then
      (report.blockExternalImageRemoval "a replaced .nspawn configuration cannot be restored",
        .error (.runtime s!"Deployment cannot roll back replaced {resource.label} without its previous content"))
    else (report, .ok ())
  | .conflictUnknownOwner =>
    let report := report.recordTyped (report.typed resource) .preExisting
    if resource = .nspawnConfig then
      (report.blockExternalImageRemoval "an existing .nspawn configuration has unknown ownership",
        .error (.validation s!"Refusing to replace existing {resource.label} with unknown ownership"))
    else (report, .ok ())

def owns (report : ApplyReport) (resource : AppliedResource) : Bool :=
  report.ledger.owns (report.typed resource)

def recordOutcomeUnknownIfUnclassified (report : ApplyReport) (resource : DeploymentResource) :
    ApplyReport :=
  if report.ledger.disposition resource = none then report.recordTyped resource .outcomeUnknown
  else report

def removeTyped (report : ApplyReport) (resource : DeploymentResource) : ApplyReport :=
  { report with ledger := report.ledger.remove resource }

/-- The resources a rollback knows how to remove. -/
def isRemovable : DeploymentResource → Bool
  | .localStorage _ | .externalImage _ | .nvidiaState _ | .nspawnConfig _ | .systemdOverride _ => true
  | _ => false

def typedOwnedInReverse (report : ApplyReport) : List DeploymentResource :=
  report.ledger.ownedInReverse.filter isRemovable

def removalBlockers (report : ApplyReport) (resource : AppliedResource) : List String :=
  (if resource = .externalImage then report.externalImageBlockers else []) ++
    report.storageRemovalBlockers

def removeRootfsDependents (report : ApplyReport) : ApplyReport :=
  (rootfsDependents report.target).foldl removeTyped report

def removeExternalImageDependents (report : ApplyReport) : ApplyReport :=
  report.removeRootfsDependents.removeTyped (.nspawnConfig report.target)

def outcomeUnknownResources (report : ApplyReport) : List DeploymentResource :=
  (report.ledger.entries.filter (·.disposition = .outcomeUnknown)).map (·.resource)

variable {report : ApplyReport} {r : DeploymentResource} {d : ResourceDisposition}

@[simp] theorem recordTyped_target : (report.recordTyped r d).target = report.target := rfl

@[simp] theorem recordTyped_ledger : (report.recordTyped r d).ledger = report.ledger.record r d := rfl

@[simp] theorem removeTyped_ledger : (report.removeTyped r).ledger = report.ledger.remove r := rfl

@[simp] theorem blockStorageRemoval_ledger (reason : String) :
    (report.blockStorageRemoval reason).ledger = report.ledger := rfl

end ApplyReport

end Lasper.Provisioning
