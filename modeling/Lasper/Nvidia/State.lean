import Mathlib.Data.List.Dedup
import Lasper.Config.Apply

/-! What Lasper remembers of the GPU files that it mounted into a machine. The
binds say it all; the older encodings of the same mounts are kept beside them. -/

namespace Lasper.Nvidia

open Lib Config

section Data

/-- One host path in the machine: a device node, or a read-only library or configuration. -/
structure PassthroughBind where
  hostPath : Text
  containerPath : Text
  readonly : Bool
  deriving DecidableEq

inductive NvidiaFileCategory
  | lib64 | lib32 | bin | firmware | config | xorg | vdpau | gbm | other
  deriving DecidableEq

namespace NvidiaFileCategory

def all : List NvidiaFileCategory := [.lib64, .lib32, .bin, .firmware, .config, .xorg, .vdpau, .gbm, .other]

def defaultContainerRoot : NvidiaFileCategory → Text
  | .lib64 => "/usr/lib".toList
  | .lib32 => "/usr/lib32".toList
  | .bin => "/usr/bin".toList
  | .firmware => "/lib/firmware/nvidia".toList
  | .config | .other => []
  | .xorg => "/usr/lib/xorg/modules".toList
  | .vdpau => "/usr/lib/vdpau".toList
  | .gbm => "/usr/lib/gbm".toList

instance {α : Type} [DecidableEq α] : DecidableEq (NvidiaFileCategory → α) := fun f g =>
  decidable_of_iff (∀ category ∈ all, f category = g category)
    ⟨fun h => funext fun category => h category (by cases category <;> decide), fun h _ _ => congrFun h _⟩

end NvidiaFileCategory

inductive NvidiaPassthroughMode
  | mirror
  | categorized
  deriving DecidableEq

structure ManualClassification where
  hostPath : Text
  category : NvidiaFileCategory
  destination : Text
  readonly : Bool
  deriving DecidableEq

structure NvidiaPassthroughProfile where
  gpuDevice : Text
  mode : NvidiaPassthroughMode
  categoryDestinations : NvidiaFileCategory → Option Text
  injectEnv : Bool
  manualClassifications : List ManualClassification
  deriving DecidableEq

structure ClassifiedEntry where
  hostPath : Text
  defaultContainerPath : Text
  category : NvidiaFileCategory
  readonly : Bool
  deriving DecidableEq

structure SymlinkEntry where
  target : Text
  linkPath : Text
  deriving DecidableEq

structure NvidiaState where
  driverVersion : Text
  ownershipMarker : Option Text
  binds : List PassthroughBind
  readonlyBinds : List Text
  deviceBinds : List Text
  classifiedEntries : List ClassifiedEntry
  symlinks : List SymlinkEntry
  ldcacheFolders : List Text
  envVars : List (Text × Text)
  profile : Option NvidiaPassthroughProfile

def maxNvidiaStateBytes : ℕ := 1024 * 1024
def maxNvidiaStateItems : ℕ := 16384
def nvidiaStateMarker : Text := "lasper-nvidia-state-v1".toList

end Data

section Paths

variable (state : NvidiaState)

/-- The last part of a text between colons. -/
def lastField (text : Text) : Text := (text.splitOn ':').getLastD text

def legacyReadonlyBind (bind : PassthroughBind) : Text :=
  if bind.hostPath = bind.containerPath then bind.hostPath
  else bind.hostPath ++ ':' :: bind.containerPath

namespace NvidiaState

/-- The marker of ownership does not count. -/
def samePayload (other : NvidiaState) : Bool :=
  state.driverVersion = other.driverVersion && state.binds = other.binds &&
    state.readonlyBinds = other.readonlyBinds && state.deviceBinds = other.deviceBinds &&
    state.classifiedEntries = other.classifiedEntries && state.symlinks = other.symlinks &&
    state.ldcacheFolders = other.ldcacheFolders && state.envVars = other.envVars && state.profile = other.profile

def populateLegacy : NvidiaState :=
  { state with
    readonlyBinds := (state.binds.filter (·.readonly)).map legacyReadonlyBind
    deviceBinds := (state.binds.filter (! ·.readonly)).map (·.hostPath) }

/-- The set that the source collects; nothing depends on its order. -/
def allContainerPaths : List Text :=
  (state.binds.map (·.containerPath) ++ state.readonlyBinds.map lastField ++ state.deviceBinds.map lastField ++
    state.classifiedEntries.map (·.defaultContainerPath) ++ state.symlinks.map (·.linkPath)).dedup

def allPaths : List Text := state.allContainerPaths

end NvidiaState

def calculateDeathList (old new : NvidiaState) : List Text := old.allPaths.filter (· ∉ new.allPaths)

def calculateRemovedBinds (old new : NvidiaState) : List PassthroughBind := old.binds.filter (· ∉ new.binds)

end Paths

section Validation

def validateTextValue (label : String) (value : Text) (allowEmpty : Bool) : Except NspawnError Unit :=
  if ¬ allowEmpty ∧ value = [] ∨ 4096 < value.byteLen ∨ value.any isControl then
    .error (.validation s!"Invalid {label}: \"{String.ofList value}\"")
  else .ok ()

def validateAbsoluteValue (label : String) (value : Text) : Except NspawnError Unit := do
  validateTextValue label value false
  if ¬ Path.isAbsolute value then
    .error (.validation s!"{label} must be absolute: \"{String.ofList value}\"")
  else return ()

def validateBindExpression (label : String) (value : Text) : Except NspawnError Unit := do
  validateTextValue label value false
  let source := (value.splitOnce ':').elim value (·.1)
  if ¬ Path.isAbsolute source then
    .error (.validation s!"{label} source must be absolute: \"{String.ofList value}\"")
  else return ()

def validateEnvKey (value : Text) : Except NspawnError Unit :=
  if value = [] ∨ 255 < value.byteLen ∨ '=' ∈ value ∨ value.any isControl then
    .error (.validation s!"Invalid environment key: \"{String.ofList value}\"")
  else .ok ()

namespace NvidiaPassthroughProfile

def destinations (profile : NvidiaPassthroughProfile) : List Text :=
  NvidiaFileCategory.all.filterMap profile.categoryDestinations

def validate (profile : NvidiaPassthroughProfile) : Except NspawnError Unit := do
  validateTextValue "GPU device selector" profile.gpuDevice false
  profile.destinations.forM (validateAbsoluteValue "NVIDIA category destination")
  profile.manualClassifications.forM fun classification => do
    validateAbsoluteValue "manual classification host path" classification.hostPath
    if classification.destination ≠ [] then
      validateAbsoluteValue "manual classification destination" classification.destination
    else return ()

end NvidiaPassthroughProfile

def totalItems (state : NvidiaState) : ℕ :=
  state.binds.length + state.readonlyBinds.length + state.deviceBinds.length + state.classifiedEntries.length +
    state.symlinks.length + state.ldcacheFolders.length + state.envVars.length +
    state.profile.elim 0 fun profile => profile.destinations.length + profile.manualClassifications.length

def validateState (state : NvidiaState) : Except NspawnError Unit := do
  if state.ownershipMarker.any (· ≠ nvidiaStateMarker) then
    .error (.validation "unknown NVIDIA state ownership marker")
  else if maxNvidiaStateItems < totalItems state then .error (.validation "Too many entries in NVIDIA state")
  else
    validateTextValue "driver version" state.driverVersion true
    state.binds.forM fun bind => do
      validateAbsoluteValue "NVIDIA host path" bind.hostPath
      validateAbsoluteValue "NVIDIA container path" bind.containerPath
    state.readonlyBinds.forM (validateBindExpression "legacy read-only bind")
    state.deviceBinds.forM (validateBindExpression "legacy device bind")
    state.classifiedEntries.forM fun entry => do
      validateAbsoluteValue "classified host path" entry.hostPath
      validateAbsoluteValue "classified container path" entry.defaultContainerPath
    state.symlinks.forM fun link => do
      validateAbsoluteValue "symlink target" link.target
      validateAbsoluteValue "symlink path" link.linkPath
    state.ldcacheFolders.forM (validateAbsoluteValue "ldcache folder")
    state.envVars.forM fun (key, value) => do
      validateEnvKey key
      validateTextValue "environment value" value true
    match state.profile with
    | some profile => profile.validate
    | none => return ()

/-- What is written to the state file. -/
def stateContent (encode : NvidiaState → Text) (state : NvidiaState) : Except NspawnError Text := do
  validateState state
  let content := encode { state with ownershipMarker := some nvidiaStateMarker }
  if maxNvidiaStateBytes < content.byteLen then
    .error (.validation s!"NVIDIA state exceeds {maxNvidiaStateBytes} bytes")
  else return content

end Validation

end Lasper.Nvidia
