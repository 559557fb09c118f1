import Lasper.Jobs.Status
import Lasper.Provisioning.Orchestrator

/-! The direct executor: it rejects plans it cannot run, stores the manifest,
runs the deployment, and says in its error whether the outcome is known. -/

namespace Lasper.Provisioning

open Lib Traced
open Jobs (DeploymentError)

inductive DeploymentSource
  | copy (sourceName : String)
  | oci (reference : String)
  | artifact (raw : Bool)
  | pull (raw : Bool)
  | bootstrap (label : String)
  deriving DecidableEq

def DeploymentSource.isArtifact : DeploymentSource → Bool
  | artifact _ => true
  | _ => false

/-- The target a plan was built for, and the configuration with its own name. -/
structure DeploymentPlan where
  target : MachineName
  name : String
  config : MachineProvisioningConfig
  source : DeploymentSource
  wayland : List WaylandGrantIntent

/-- The state port is asked to create the manifest. -/
def DeploymentStateSession.prepare (session : DeploymentStateSession)
    (port : Except DeploymentStateError Unit) : Except DeploymentStateError DeploymentStateSession :=
  match port with
  | .ok () => .ok { session with stored := some session.manifest }
  | .error error => .error error

def processOutcomeUnknown : NspawnError → Bool
  | .deploymentProcessStateUnknown _ | .deploymentCancellationRollbackIncomplete _
  | .deploymentRollbackIncomplete _ => true
  | .io _ timedOut _ => timedOut
  | _ => false

def isCancelledOutcome : NspawnError → Bool
  | .deploymentCancelled | .deploymentCancellationRollbackIncomplete _ => true
  | _ => false

def mapDeploymentError (error : NspawnError) : DeploymentError :=
  if processOutcomeUnknown error then ⟨.reconciliationRequired, error.text⟩
  else if isCancelledOutcome error then ⟨.cancelled, error.text⟩
  else ⟨.failed, error.text⟩

/-- The deployer for a source. An opened artifact goes with an artifact only. -/
def backends (artifactSupplied : Bool) (source : DeploymentSource) : Except DeploymentError Deployer :=
  if artifactSupplied && !source.isArtifact then
    .error ⟨.rejected, "an artifact source fd was supplied for a non-artifact deployment"⟩
  else match source with
    | .copy sourceName => .ok (.clone sourceName)
    | .oci reference => .ok (.oci reference)
    | .artifact raw | .pull raw => .ok (.image raw)
    | .bootstrap label => .ok (.bootstrap label)

section Executing

variable (env : Environment)
-- what the specification says about the configuration beside the name
variable (spec : MachineProvisioningConfig → Except NspawnError Unit)

def nspawnConfigSpec (name : String) (cfg : MachineProvisioningConfig) : Except NspawnError MachineName := do
  let machine ← parseMachineName name
  spec cfg
  return machine

/-- Let the session change the stored manifest. -/
def sessionStep (step : DeploymentStateSession → Except DeploymentStateError Unit →
    Except DeploymentStateError DeploymentStateSession) : Traced World DeploymentStateError Unit := do
  match ← read (·.session) with
  | none => return ()
  | some session =>
    let port ← read fun w => env.port w.calls
    update fun w => { w with calls := w.calls + 1 }
    let session' ← ofExcept (step session port)
    update fun w => { w with session := some session' }

/-- The deployment proper looks at the configuration once more. -/
def runDeployment (name : String) (deployer : Deployer) (cfg : MachineProvisioningConfig)
    (waylandIntents : List WaylandGrantIntent) : Engine Unit := do
  let target ← ofExcept (nspawnConfigSpec spec name cfg)
  runDeployInternal env name target deployer cfg waylandIntents

def run (artifactSupplied : Bool) (plan : DeploymentPlan) : Traced World DeploymentError Unit := do
  onlyIf (plan.target.text ≠ plan.name)
    (fail ⟨.rejected, "deployment plan target no longer matches its configuration"⟩)
  let _ ← rephrase (fun error : NspawnError => (⟨.rejected, error.text⟩ : DeploymentError))
    (ofExcept (nspawnConfigSpec spec plan.name plan.config))
  let deployer ← ofExcept (backends artifactSupplied plan.source)
  rephrase (fun error => (⟨.failed, error.text⟩ : DeploymentError)) (sessionStep env (·.prepare))
  rephrase mapDeploymentError (runDeployment env spec plan.name deployer plan.config plan.wayland)
  rephrase (fun error => (⟨.reconciliationRequired, error.text⟩ : DeploymentError)) (sessionStep env (·.finish))

/-- Before the executor is called: no manifest is stored for the deployment. -/
def World.fresh (target : MachineName) (secrets : DeploymentSecrets) : World where
  session := some ⟨.prepared target, none⟩
  report := .new target
  secrets := secrets

/-- The manifest the state port holds. -/
def World.stored (w : World) : Option DeploymentCrashManifest := w.session.bind (·.stored)

end Executing

end Lasper.Provisioning
