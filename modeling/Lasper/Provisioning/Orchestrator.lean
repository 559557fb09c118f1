import Lasper.Provisioning.Engine

/-! One deployment from the first check to the last cleanup: the deployers that
produce the base system, the stages that configure it, the unmounting that
always runs, and the rollback of a deployment that stopped. -/

namespace Lasper.Provisioning

open Lib Traced

structure CreateUser where
  username : String
  uid : Option ℕ
  deriving DecidableEq

inductive NetworkMode
  | host | none | veth
  | bridge (name : String)
  | macVlan (name : String)
  | ipVlan (name : String)
  | interface (name : String)
  deriving DecidableEq

def NetworkMode.usesDefaultGuestNetworkStack : NetworkMode → Bool
  | veth | bridge _ => true
  | _ => false

structure MachineProvisioningConfig where
  network : Option NetworkMode
  deviceBinds : List String
  gpuPassthroughAll : Bool
  users : List CreateUser
  nvidiaGpu : Bool

structure WaylandGrantIntent where
  targetUsername : String

inductive Deployer
  | bootstrap (label : String)
  | image (raw : Bool)
  | clone (sourceName : String)
  | oci (reference : String)
  deriving DecidableEq

namespace Deployer

def isExternalStorageManaged : Deployer → Bool
  | bootstrap _ => false
  | image raw => raw
  | clone _ | oci _ => true

def requiresPostConfig : Deployer → Bool
  | bootstrap _ | image _ => true
  | clone _ | oci _ => false

def sourceStageResources (target : MachineName) : Deployer → List DeploymentResource
  | clone _ => [.externalImage target, .nspawnConfig target, .systemdOverride target]
  | oci _ => [.externalImage target, .nspawnConfig target]
  | deployer =>
    [if deployer.isExternalStorageManaged then .externalImage target else .localStorage target]

end Deployer

def machineRoot (name : String) : String := "/var/lib/machines/" ++ name

def machineImageMount (name : String) : String := "/mnt/lasper-" ++ name

def parseMachineName (name : String) : Except NspawnError MachineName :=
  match MachineName.new name with
  | .ok machine => .ok machine
  | .error error => .error (.validation error)

def RootfsTarget.fromProvisionedPath (name path : String) : Except NspawnError RootfsTarget :=
  match parseMachineName name with
  | .error error => .error error
  | .ok parsed =>
    if path = machineRoot parsed.text then .ok (.machine parsed)
    else if path = machineImageMount parsed.text then .ok (.imageMount parsed)
    else .error (.validation s!"Refusing unmanaged rootfs path: {path}")

def RootfsTarget.supportsRawFallback : RootfsTarget → Bool
  | machine _ => true
  | imageMount _ | rawMount _ _ => false

section Deploying

variable (env : Environment) (name : String) (target : MachineName)

def inspectDeploymentSidecars : Engine Unit := do
  match ← askResult env.inspect with
  | some config =>
    fail (.validation s!"Deployment target has existing .nspawn configuration: {config.path}")
  | none => return ()

/-- Compare the settings next to the cloned image with those of the source. -/
def verifySystemdClonedConfig (sourceBefore : Option NspawnConfig) : Engine Unit := do
  let destination ← askResult env.inspect
  match sourceBefore, destination with
  | some source, some destination =>
    if source.content = destination.content then return ()
    else do
      update fun w =>
        { w.setReport (w.report.blockExternalImageRemoval
            "the cloned .nspawn settings do not match the source snapshot") with
          settingsForeign := true }
      fail (.runtime "machinectl clone produced .nspawn settings that do not match the source")
  | some _, none =>
    fail (.runtime "machinectl clone completed without copying the source .nspawn settings")
  | none, none => return ()
  | none, some destination => do
    let sourceAfter ← askResult env.inspect
    if sourceAfter.any (·.content = destination.content) then return ()
    else do
      update fun w =>
        { w.setReport (w.report.blockExternalImageRemoval
            "unexpected .nspawn settings appeared while cloning") with
          settingsForeign := true }
      fail (.runtime "unexpected .nspawn settings appeared while cloning the image")

def deployBootstrap (label rootfs : String) : Engine Unit := do
  askResult env.perform
  let _ ← ofExcept (RootfsTarget.fromProvisionedPath name rootfs)
  let success ← effect [.localStorage target] env.probe
  onlyIf (!success) (fail (.commandFailed s!"Bootstrap tool ({label})" s!"typed {label} operation"
    "Command failed. Check deployment logs for detailed output."))

def deployTar (rootfs : String) : Engine Unit := do
  checkDeploymentCancellation env
  askResult env.perform
  checkDeploymentCancellation env
  let _ ← ofExcept (RootfsTarget.fromProvisionedPath name rootfs)
  effect [.localStorage target] env.perform
  checkDeploymentCancellation env

def deployRaw : Engine Unit := do
  checkDeploymentCancellation env
  askResult env.perform
  checkDeploymentCancellation env
  let _ ← ofExcept (parseMachineName name)
  effect [.externalImage target] env.perform
  recordCreated .externalImage
  checkDeploymentCancellation env

/-- The source's override is looked up only for a source with a machine name. -/
def sourceHasOverride (sourceName : String) : Engine Bool :=
  match MachineName.new sourceName with
  | .ok _ => askResult env.probe
  | .error _ => return false

def cloneOverride : Engine Unit := do
  let status ← applyFile env (.systemdOverride target)
  recordApply .systemdOverride status
  checkDeploymentCancellation env

def deployClone (sourceName : String) : Engine Unit := do
  checkDeploymentCancellation env
  let sourceConfig ← askResult env.inspect
  let hasOverride ← sourceHasOverride env sourceName
  checkDeploymentCancellation env
  let copies ← ask env.copiesSettings
  effect (.externalImage target :: if copies then [.nspawnConfig target] else []) env.perform
  recordCreated .externalImage
  checkDeploymentCancellation env
  verifySystemdClonedConfig env sourceConfig
  checkDeploymentCancellation env
  onlyIf hasOverride (cloneOverride env target)
  mapFailure (fun error => .runtime s!"Failed to reload systemd after clone: {error.text}")
    (askResult env.perform)
  checkDeploymentCancellation env

def deployOci : Engine Unit := do
  askResult env.perform
  checkDeploymentCancellation env
  askResult env.perform
  checkDeploymentCancellation env
  askResult env.perform
  let _ ← ofExcept (parseMachineName name)
  let success ← effect [.externalImage target] env.probe
  onlyIf (!success) (fail (.commandFailed "systemd OCI pull"
    "typed systemd-importd PullOci operation"
    "Command failed. Check deployment logs for detailed output."))
  recordCreated .externalImage
  checkDeploymentCancellation env
  let status ← mapFailure
    (fun error => .runtime s!"Failed to configure OCI application after import: {error.text}")
    (applyFile env (.nspawnConfig target))
  recordApply .nspawnConfig status
  checkDeploymentCancellation env

def Deployer.deploy (rootfs : String) : Deployer → Engine Unit
  | bootstrap label => deployBootstrap env name target label rootfs
  | image false => deployTar env name target rootfs
  | image true => deployRaw env name target
  | clone sourceName => deployClone env target sourceName
  | oci _ => deployOci env name target

/-- Persist the intent, run the effect, record the resource, persist the ledger. -/
def applyStage {α : Type} (stage : DeploymentStage) (resource : DeploymentResource)
    (disposition : ResourceDisposition) (answer : ℕ → Except NspawnError α) : Engine α := do
  persistApplying env stage [resource]
  let result ← effect [resource] answer
  recordTyped resource disposition
  persistCommitted env stage
  return result

/-- The same for a host file whose store reports what it found. -/
def applyFileStage (stage : DeploymentStage) (resource : AppliedResource) : Engine Unit := do
  persistApplying env stage [resource.on target]
  let status ← applyFile env (resource.on target)
  recordApply resource status
  persistCommitted env stage

def prepareStorage : Engine Unit := do
  applyStage env .storagePreparation (.localStorage target) .created env.perform
  checkDeploymentCancellation env

def mountStorage : Engine String := do
  persistApplying env .storagePreparation [.storageMount target]
  update fun w => { w with storageMountAttempted := true }
  let rootfs ← effect [.storageMount target] env.mount
  recordTyped (.storageMount target) .created
  persistCommitted env .storagePreparation
  return rootfs

def noteRawMount : Option RootfsTarget → Engine Unit
  | some raw => do
    update fun w => { w with rawMountTarget := some raw }
    recordTyped (.rawConfigurationMount target) .created
  -- the image needs no mount of its own, and none was made
  | none => update (World.settle [.rawConfigurationMount target])

def mountRawImage (rootfs : RootfsTarget) : Engine RootfsTarget := do
  persistApplying env .rootfsMutation [.rawConfigurationMount target]
  let mounted ← effect [.rawConfigurationMount target] env.mountManagedRaw
  noteRawMount target mounted
  persistCommitted env .rootfsMutation
  checkDeploymentCancellation env
  return mounted.getD rootfs

/-- One change of the guest's account database. -/
def changeAccounts : Engine Unit := do
  effect [.rootfsAccounts target] env.perform
  checkDeploymentCancellation env

def setRootPassword : Engine Unit := do
  let password ← read (·.secrets.takeRootPassword.1)
  update fun w => { w with secrets := w.secrets.takeRootPassword.2 }
  onlyIf password.isSome (changeAccounts env target)

def createUser (user : CreateUser) : Engine Unit := do
  match ← read (·.secrets.takeUserPassword user.username) with
  | .error error => fail (.validation error)
  | .ok (_, secrets) => do
    update fun w => { w with secrets }
    changeAccounts env target

/-- Users with a fixed uid come first. -/
def sortedUsers (cfg : MachineProvisioningConfig) : List CreateUser :=
  cfg.users.filter (·.uid.isSome) ++ cfg.users.filter (·.uid.isNone)

def configureAccounts (cfg : MachineProvisioningConfig) (hasAccountChanges : Bool) : Engine Unit := do
  onlyIf hasAccountChanges (persistApplying env .rootfsMutation [.rootfsAccounts target])
  setRootPassword env target
  forEach (createUser env target) (sortedUsers cfg)

def resolveWayland (cfg : MachineProvisioningConfig) (supportsOfflineCommands : Bool)
    (intent : WaylandGrantIntent) : Engine Unit := do
  if !supportsOfflineCommands then
    fail (.validation "Wayland grant requires a rootfs that supports user identity lookup")
  else if !(cfg.users.any (·.username = intent.targetUsername)) then
    fail (.validation "Wayland target is not part of this deployment")
  else do
    askResult env.perform
    askResult env.perform
    checkDeploymentCancellation env

def commitAccounts : Engine Unit := do
  recordTyped (.rootfsAccounts target) .committed
  persistCommitted env .rootfsMutation

def configureNvidia (supportsOfflineCommands : Bool) : Engine Unit := do
  mapFailure (fun error => .runtime s!"NVIDIA CDI discovery failed: {error.text}")
    (askResult env.perform)
  checkDeploymentCancellation env
  applyFileStage env target .hostConfiguration .nvidiaState
  checkDeploymentCancellation env
  onlyIf supportsOfflineCommands
    (applyStage env .rootfsMutation (.rootfsNvidia target) .committed env.perform)
  checkDeploymentCancellation env

def commitRuntime (cfg : MachineProvisioningConfig) : Engine Unit := do
  applyFileStage env target .runtimeCommit .nspawnConfig
  checkDeploymentCancellation env
  onlyIf (!cfg.deviceBinds.isEmpty || cfg.gpuPassthroughAll) do
    applyFileStage env target .runtimeCommit .systemdOverride
    askResult env.perform
    checkDeploymentCancellation env

def configureNetwork (cfg : MachineProvisioningConfig) : Engine Unit :=
  onlyIf ((cfg.network.map (·.usesDefaultGuestNetworkStack)).getD false) do
    applyStage env .rootfsMutation (.rootfsNetwork target) .committed env.perform
    checkDeploymentCancellation env

def mountedRootfs (rootfs : RootfsTarget) : Engine RootfsTarget := do
  let exists_ ← askResult env.probe
  if !exists_ && rootfs.supportsRawFallback then mountRawImage env target rootfs else return rootfs

def supportsNspawnCommands (hasOsLayout : Bool) : Engine Bool :=
  if hasOsLayout then askResult env.probe else return false

def setHostname : Engine Unit := do
  applyStage env .rootfsMutation (.rootfsHostname target) .committed env.perform
  checkDeploymentCancellation env

/-- Passwords and users, the Wayland grants that need them, and only then the
account record. -/
def applyAccounts (cfg : MachineProvisioningConfig) (waylandIntents : List WaylandGrantIntent)
    (supportsOfflineCommands : Bool) : Engine Unit := do
  let hasAccountChanges ← read (·.secrets.hasAccountChanges)
  onlyIf supportsOfflineCommands (configureAccounts env target cfg hasAccountChanges)
  forEach (resolveWayland env cfg supportsOfflineCommands) waylandIntents
  onlyIf (supportsOfflineCommands && hasAccountChanges) (commitAccounts env target)

def postConfigure (cfg : MachineProvisioningConfig) (waylandIntents : List WaylandGrantIntent)
    (rootfs : String) : Engine Unit := do
  let provisioned ← ofExcept (RootfsTarget.fromProvisionedPath name rootfs)
  let _ ← mountedRootfs env target provisioned
  let hasOsLayout ← askResult env.probe
  let supportsOfflineCommands ← supportsNspawnCommands env hasOsLayout
  onlyIf hasOsLayout (setHostname env target)
  applyAccounts env target cfg waylandIntents supportsOfflineCommands
  onlyIf cfg.nvidiaGpu (configureNvidia env target supportsOfflineCommands)
  commitRuntime env target cfg
  onlyIf supportsOfflineCommands (configureNetwork env target cfg)
  checkDeploymentCancellation env

def prepareRootfs (deployer : Deployer) : Engine String :=
  if deployer.isExternalStorageManaged then return machineRoot name
  else do
    prepareStorage env target
    mountStorage env target

def deploySource (deployer : Deployer) (rootfs : String) : Engine Unit := do
  persistApplying env .sourceDeployment (deployer.sourceStageResources target)
  deployer.deploy env name target rootfs
  persistCommitted env .sourceDeployment
  checkDeploymentCancellation env

/-- Everything up to the first failure. -/
def runStages (deployer : Deployer) (cfg : MachineProvisioningConfig)
    (waylandIntents : List WaylandGrantIntent) : Engine Unit := do
  checkDeploymentCancellation env
  inspectDeploymentSidecars env
  checkDeploymentCancellation env
  let rootfs ← prepareRootfs env name target deployer
  deploySource env name target deployer rootfs
  if deployer.requiresPostConfig then postConfigure env name target cfg waylandIntents rootfs
  else checkDeploymentCancellation env

/-- Block the removal of storage because a mount over it may still be there. -/
def keepMount (resource : DeploymentResource) (message : String) : Engine Unit :=
  editReport fun report =>
    (report.recordTyped resource .cleanupPending).blockStorageRemoval message

/-- Unmount one resource: the errors to report, and whether the durable state
could not follow. -/
def unmount (resource : DeploymentResource) (stateLabel unmountLabel attemptLabel : String) :
    Engine (List String × Bool) := do
  match ← attempt (persistApplying env .cleanup [resource]) with
  | .error error => do
    let message := s!"{attemptLabel} was not attempted: {error.text}"
    keepMount resource message
    return ([message], true)
  | .ok () =>
    match ← attempt (askResult env.perform) with
    | .error error => do
      let message := s!"{unmountLabel}: {error.text}"
      keepMount resource message
      return ([message], false)
    | .ok () => do
      update (World.settle [resource])
      editReport (·.removeTyped resource)
      match ← attempt (persistCommitted env .cleanup) with
      | .ok () => return ([], false)
      | .error error => do
        let message := s!"{stateLabel} cleanup state: {error.text}"
        keepMount resource message
        return ([message], true)

def unmountRaw : Engine (List String × Bool) := do
  if (← read (·.rawMountTarget)).isSome then
    unmount env (.rawConfigurationMount target) "raw mount" "raw image configuration mount"
      "raw mount cleanup"
  else return ([], false)

def unmountStorage (durableCleanupFailed : Bool) : Engine (List String × Bool) := do
  if ← read (·.storageMountAttempted) then
    if durableCleanupFailed then do
      let message := "storage cleanup was not attempted after durable cleanup state failed"
      keepMount (.storageMount target) message
      return ([message], true)
    else
      unmount env (.storageMount target) "storage" "storage unmount" "storage cleanup"
  else return ([], durableCleanupFailed)

/-- What is gone once a resource has been removed: deleting the storage or the
image deletes the tree inside it, and systemd removes an image's settings file
together with the image. -/
def undoneBy : DeploymentResource → List DeploymentResource
  | .localStorage t => [.localStorage t, .rootfsHostname t, .rootfsAccounts t, .rootfsNvidia t,
      .rootfsNetwork t]
  | .externalImage t => [.externalImage t, .nspawnConfig t, .rootfsHostname t, .rootfsAccounts t,
      .rootfsNvidia t, .rootfsNetwork t]
  | resource => [resource]

def startRemoval (resource : DeploymentResource) : Engine Unit :=
  update fun w => { w with
    removals := w.removals ++
      [⟨resource, w.report.ledger.disposition resource, w.outstanding, w.settingsForeign⟩] }

def removeResource (resource : DeploymentResource) : Engine Unit := do
  startRemoval resource
  askResult env.perform
  update (World.settle (undoneBy resource))

/-- Remove storage or an image unless something speaks against it. -/
def removeUnlessBlocked (resource : DeploymentResource) (applied : AppliedResource) : Engine Unit := do
  let blockers ← read (·.report.removalBlockers applied)
  if blockers = [] then removeResource env resource
  else
    let detail := "; ".intercalate blockers
    fail (.runtime s!"{applied.label} removal blocked: {detail}")

def rollbackResource (resource : DeploymentResource) : Engine Unit :=
  match resource with
  | .externalImage _ => removeUnlessBlocked env resource .externalImage
  | .localStorage _ => removeUnlessBlocked env resource .localStorage
  | _ => removeResource env resource

def forgetResource (resource : DeploymentResource) (report : ApplyReport) : ApplyReport :=
  match resource with
  | .externalImage _ => (report.removeTyped resource).removeExternalImageDependents
  | .localStorage _ => (report.removeTyped resource).removeRootfsDependents
  | _ => report.removeTyped resource

def isSystemdOverride : DeploymentResource → Bool
  | .systemdOverride _ => true
  | _ => false

/-- The rollback loop over the resources still to visit. -/
def rollbackLoop : List DeploymentResource → List String → Bool → Engine (List String × Bool)
  | [], errors, reloadDaemon => return (errors, reloadDaemon)
  | resource :: rest, errors, reloadDaemon => do
    update fun w => { w with visited := w.visited ++ [resource] }
    match ← attempt (persistApplying env .rollback [resource]) with
    | .error error => do
      recordTyped resource .cleanupPending
      return (errors ++ [s!"rollback was not attempted: {error.text}"], reloadDaemon)
    | .ok () =>
      let reloadDaemon := reloadDaemon || isSystemdOverride resource
      match ← attempt (rollbackResource env resource) with
      | .error error => do
        recordTyped resource .cleanupPending
        rollbackLoop rest (errors ++ [s!"{resource.label}: {error.text}"]) reloadDaemon
      | .ok () => do
        editReport (forgetResource resource)
        match ← attempt (persistCommitted env .rollback) with
        | .error error => do
          recordTyped resource .cleanupPending
          return (errors ++ [s!"{resource.label} durable cleanup state: {error.text}"], reloadDaemon)
        | .ok () => rollbackLoop rest errors reloadDaemon

def rollbackApplyReport : Engine (List String) := do
  let resources ← read (·.report.typedOwnedInReverse)
  let (errors, reloadDaemon) ← rollbackLoop env resources [] false
  if reloadDaemon then
    match ← attempt (askResult env.perform) with
    | .ok () => return errors
    | .error error => return errors ++ [s!"systemd daemon reload: {error.text}"]
  else return errors

/-- The error a stopped deployment ends with when not everything was undone. -/
def incomplete (error : NspawnError) (detail reason : String) : NspawnError :=
  match error with
  | .deploymentCancelled => .deploymentCancellationRollbackIncomplete reason
  | _ => .deploymentRollbackIncomplete s!"{error.text}; {detail}: {reason}"

def finishRolledBack (error : NspawnError) : Engine Unit := do
  match ← attempt (finishManifest env) with
  | .ok () => fail error
  | .error manifestError =>
    fail (incomplete error "rollback completed but durable state cleanup failed"
      s!"deployment crash manifest: {manifestError.text}")

def keepForCleanup (error : NspawnError) (rollbackErrors : List String) : Engine Unit := do
  let stateErrors ← attempt (persistCleanupPending env)
  let rollbackErrors := match stateErrors with
    | .ok () => rollbackErrors
    | .error stateError => rollbackErrors ++ [s!"deployment cleanup state: {stateError.text}"]
  fail (incomplete error "rollback incomplete" ("; ".intercalate rollbackErrors))

def attemptRollback (durableCleanupFailed : Bool) : Engine (List String) :=
  if durableCleanupFailed then
    return ["rollback was not attempted after durable cleanup state failed"]
  else rollbackApplyReport env

def stopDeployment (error : NspawnError) (cleanupErrors : List String) (durableCleanupFailed : Bool) :
    Engine Unit := do
  let rolledBack ← attemptRollback env durableCleanupFailed
  let unknown ← read (·.report.outcomeUnknownResources)
  let rollbackErrors := cleanupErrors ++ rolledBack ++
    unknown.map fun resource => s!"{resource.label} outcome requires authoritative reconciliation"
  if rollbackErrors = [] then finishRolledBack env error else keepForCleanup env error rollbackErrors

/-- Unmount what was mounted, then decide whether the deployment stands. -/
def cleanUp (result : Except NspawnError Unit) : Engine Unit := do
  let (rawErrors, rawFailed) ← unmountRaw env target
  let (storageErrors, durableCleanupFailed) ← unmountStorage env target rawFailed
  let cleanupErrors := rawErrors ++ storageErrors
  match result with
  | .error error => stopDeployment env error cleanupErrors durableCleanupFailed
  | .ok () =>
    if ← ask env.cancelled then
      stopDeployment env .deploymentCancelled cleanupErrors durableCleanupFailed
    else if cleanupErrors ≠ [] then
      stopDeployment env (.runtime "Deployment cleanup failed before completion") cleanupErrors
        durableCleanupFailed
    else return ()

def runDeployInternal (deployer : Deployer) (cfg : MachineProvisioningConfig)
    (waylandIntents : List WaylandGrantIntent) : Engine Unit := do
  let result ← attempt (runStages env name target deployer cfg waylandIntents)
  match result with
  | .ok () => cleanUp env target result
  | .error error => do
    captureUncommittedEffects
    match error with
    | .deploymentProcessStateUnknown message => do
      let _ ← attempt (persistCleanupPending env)
      fail (.deploymentProcessStateUnknown message)
    | _ => cleanUp env target result

end Deploying

end Lasper.Provisioning
