import Lasper.Config.Apply
import Lasper.Provisioning.Report

/-! The drop-ins of a machine's service unit. Lasper keeps its own files beside
the administrator's: it replaces or deletes a file only on the evidence that the
file is one of its own. -/

namespace Lasper.Overrides

open Lib Traced Config
open Provisioning (MachineName ResourceApplyStatus)

section Content

def maxOverrideContentBytes : ℕ := 1024 * 1024
def maxDeviceAllowEntries : ℕ := 4096

def lasperOverrideFile : Text := "90-lasper.conf".toList
def lasperNvidiaOverrideFile : Text := "90-lasper-nvidia.conf".toList
def legacyOverrideFile : Text := "override.conf".toList
def legacyNvidiaOverrideFile : Text := "10-lasper-nvidia.conf".toList
def lasperOverrideMarker : Text := "# Managed by Lasper: systemd unit override v1".toList
def allDrmDeviceAllow : Text := "char-drm".toList

structure ServiceOverrideSpec where
  deviceBinds : List Text
  gpuPassthroughAll : Bool

def validateDeviceAllowPath (value : Text) : Except NspawnError Unit :=
  if value = [] ∨ 4096 < value.byteLen ∨ value.any isControl ∨ ¬ Path.isAbsolute value then
    .error (.validation s!"Invalid DeviceAllow path: \"{String.ofList value}\"")
  else .ok ()

def validateDeviceAllowPaths (devicePaths : List Text) : Except NspawnError Unit :=
  if maxDeviceAllowEntries < devicePaths.length then .error (.validation "Too many DeviceAllow entries")
  else devicePaths.forM validateDeviceAllowPath

def validateOverrideSpec (spec : ServiceOverrideSpec) : Except NspawnError Unit :=
  validateDeviceAllowPaths spec.deviceBinds

def validateDeviceAllowSpec (value : Text) : Except NspawnError Unit :=
  if value = allDrmDeviceAllow then .ok () else validateDeviceAllowPath value

def validateContentSize (content : Text) : Except NspawnError Unit :=
  if maxOverrideContentBytes < content.byteLen then
    .error (.validation s!"systemd override content exceeds {maxOverrideContentBytes} bytes")
  else .ok ()

/-- What an INI file says: its sections in order, each with its properties. -/
abbrev IniSections := List (Option Text × List (Text × Text))

def stripSuffix (text ending : Text) : Option Text :=
  if ending <:+ text then some (text.take (text.length - ending.length)) else none

def ownedProperty : Text × Text → Bool
  | (key, value) =>
    key = "DeviceAllow".toList &&
      match stripSuffix value " rw".toList with
      | some path => (validateDeviceAllowSpec path).isOk
      | none => false

def ownedSections : Bool → IniSections → Bool
  | sawService, [] => sawService
  | sawService, (none, properties) :: rest =>
    if properties = [] then ownedSections sawService rest else false
  | _, (some name, properties) :: rest =>
    if name = "Service".toList ∧ properties.all ownedProperty then ownedSections true rest else false

/-- `load` is the INI reader. -/
def isOwnedOverrideContent (load : Text → Option IniSections) (content : Text) : Bool :=
  (lasperOverrideMarker ++ ['\n']).isPrefixOf content &&
    match load content with
    | some config => ownedSections false config
    | none => false

end Content

section Files

/-- The inode that opening a name reaches, through at most so many links. -/
def openFile (disk : Disk) : ℕ → Path → Except IoError ℕ
  | 0, _ => .error (.other "Too many levels of symbolic links (os error 40)")
  | links + 1, path =>
    match disk.entry path with
    | none => .error .notFound
    | some inode =>
      match disk.node inode with
      | .symlink target => openFile disk links target
      | _ => .ok inode

def checkOverrideFile (path : Path) : Node → Except NspawnError Unit
  | .file _ bytes =>
    if maxOverrideContentBytes < bytes.size then .error (unsuitable path) else .ok ()
  | _ => .error (unsuitable path)
where
  unsuitable (path : Path) : NspawnError :=
    .validation s!"systemd override '{String.ofList path}' must be a regular file of at most {maxOverrideContentBytes} bytes"

def takeOverride (inode : ℕ) (disk : Disk) : Except IoError ByteArray :=
  match disk.node inode with
  | .file _ bytes => .ok (bytes.extract 0 (maxOverrideContentBytes + 1))
  | _ => .error (.other "Is a directory (os error 21)")

def checkTaken (bytes : ByteArray) : Except NspawnError Unit :=
  if maxOverrideContentBytes < bytes.size then
    .error (.validation s!"systemd override content exceeds {maxOverrideContentBytes} bytes")
  else .ok ()

/-- The read itself is bounded too, should the file grow after the first check. -/
def readOverrideContent (path : Path) : Host Text := do
  let inode ← callAt (Path.components path) fun disk => openFile disk Disk.maxSymlinks path
  let node ← callAt (Path.components path) fun disk => .ok (disk.node inode)
  ofExcept (checkOverrideFile path node)
  let bytes ← callAt (Path.components path) (takeOverride inode)
  ofExcept (checkTaken bytes)
  ofExcept ((Disk.decodeUtf8 bytes).mapError (.io (Path.components path)))

def readOptional (path : Path) : Host (Option Text) := do
  let content ← attempt (readOverrideContent path)
  match content with
  | .ok content => return some content
  | .error (.io _ .notFound) => return none
  | .error error => fail error

/-- Take a name away; the file goes with its last name. -/
def unlink (path : Path) (disk : Disk) : Disk where
  entry := Function.update disk.entry path none
  node := disk.node
  created := disk.created
  entry_lt := by
    intro other inode h
    by_cases hp : other = path
    · rw [hp, Function.update_self] at h
      cases h
    · rw [Function.update_of_ne hp] at h
      exact disk.entry_lt other inode h

def removable (path : Path) (disk : Disk) : Except IoError Unit :=
  match disk.symlinkMetadata path with
  | .ok .special => .error (.other "Is a directory (os error 21)")
  | .ok _ => .ok ()
  | .error error => .error error

def unlinkAt (path : Path) (s : Scene) : Scene := { s with disk := unlink path s.disk }

def removeFile (path : Path) : Traced Scene IoError Unit := do
  systemCall (removable path)
  update (unlinkAt path)

def removeOptionalFile (path : Path) : Host Unit := do
  let removed ← caught (removeFile path)
  match removed with
  | .ok () | .error .notFound => return ()
  | .error error => fail (.io (Path.components path) error)

def directoryNotEmpty : String := "Directory not empty (os error 39)"

/-- A directory that still has files stays; which one has is not modelled. -/
def removeEmptyDir (path : Path) : Host Unit := do
  let removed ← caught (systemCall fun _ => .ok ())
  match removed with
  | .ok () | .error .notFound => return ()
  | .error (.other text) =>
    if text = directoryNotEmpty then return ()
    else fail (.io (Path.components path) (.other text))

end Files

section Ownership

variable (load : Text → Option IniSections)

inductive ArtifactOwnership
  | provenOwned
  | ambiguousLegacy
  | notPresent
  deriving DecidableEq

/-- Something other than a regular file of the expected owner, mode and size. -/
def suspicious (expectedUid : ℕ) : Node → Bool
  | .file metadata bytes =>
    maxOverrideContentBytes < bytes.size || metadata.uid ≠ expectedUid || metadata.mode % 0o10000 ≠ 0o644
  | _ => true

def probeOwnedOverrideAt (path : Path) (expectedUid : ℕ) : Host ArtifactOwnership := do
  let metadata ← caught (systemCall fun disk => disk.symlinkMetadata path)
  match metadata with
  | .error .notFound => return .notPresent
  | .error error => fail (.io (Path.components path) error)
  | .ok node =>
    if suspicious expectedUid node then return .ambiguousLegacy
    else do
      let content ← readOverrideContent path
      return if isOwnedOverrideContent load content then .provenOwned else .ambiguousLegacy

def probeLegacyOverrideAt (path : Path) : Host ArtifactOwnership := do
  let metadata ← caught (systemCall fun disk => disk.symlinkMetadata path)
  match metadata with
  | .ok _ => return .ambiguousLegacy
  | .error .notFound => return .notPresent
  | .error error => fail (.io (Path.components path) error)

end Ownership

section Apply

variable (load : Text → Option IniSections) {α : Type}

/-- As `writeIfNew`, with a mode of its own; the old mode is looked up all the same. -/
def writeWithMode (path : Path) (mode : ℕ) : Option Text → Host Unit
  | none => return ()
  | some content => do
    let _ ← existingMode path
    persistAtomic path content mode

def applyLockedWithMode (path : Path) (mode : ℕ)
    (contentGenerator : Option Text → Except NspawnError (Option Text × α)) : Host α := do
  createParent path
  underLock (lockPathFor path) do
    let existing ← existingContent path
    let (newContent, result) ← ofExcept (contentGenerator existing)
    writeWithMode path mode newContent
    return result

def decideOverride (ownership : ArtifactOwnership) (content : Text) :
    Option Text → Option Text × ResourceApplyStatus
  | none => (some content, .created)
  | some existing =>
    if existing = content then (none, .unchanged)
    else if ownership = .provenOwned ∧ isOwnedOverrideContent load existing then
      (some content, .replacedOwned)
    else (none, .conflictUnknownOwner)

def applyNewOverrideAtWithUid (path : Path) (content : Text) (expectedUid : ℕ) : Host ResourceApplyStatus := do
  let ownership ← probeOwnedOverrideAt load path expectedUid
  if ownership = .ambiguousLegacy then return .conflictUnknownOwner
  else applyLockedWithMode path 0o644 fun existing => .ok (decideOverride load ownership content existing)

def applyNewOverrideAt (path : Path) (content : Text) : Host ResourceApplyStatus :=
  applyNewOverrideAtWithUid load path content 0

end Apply

section Removal

variable (load : Text → Option IniSections)

/-- A file of a drop-in directory. -/
structure DropIn where
  dir : Path
  name : Text

namespace DropIn

def path (file : DropIn) : Path := Path.join file.dir file.name

def lock (file : DropIn) : Path := Path.join file.dir ('.' :: file.name ++ ".lock".toList)

end DropIn

def ownedDropIns (persistentDir transientDir : Path) : List DropIn :=
  [⟨persistentDir, lasperOverrideFile⟩, ⟨persistentDir, lasperNvidiaOverrideFile⟩,
    ⟨transientDir, lasperNvidiaOverrideFile⟩]

def legacyDropIns (persistentDir transientDir : Path) : List DropIn :=
  [⟨persistentDir, legacyOverrideFile⟩, ⟨persistentDir, legacyNvidiaOverrideFile⟩,
    ⟨transientDir, legacyNvidiaOverrideFile⟩]

def notRegularLock (lock : Path) : NspawnError :=
  .validation s!"Lock path {String.ofList lock} is not a regular file"

/-- Lock the sidecar if there is one. The wait for another holder is `Locking`'s. -/
def acquireStableLock (lock : Path) : Host Bool := do
  let opened ← caught (systemCall fun disk => openFile disk Disk.maxSymlinks lock)
  match opened with
  | .error .notFound => return false
  | .error error => fail (.io (Path.components lock) error)
  | .ok _ => do
    let current ← callAt (Path.components lock) fun disk => disk.symlinkMetadata lock
    match current with
    | .file _ _ => return true
    | _ => fail (notRegularLock lock)

def removeLockIfTargetAbsent (target lock : Path) : Host Bool := do
  let locked ← acquireStableLock lock
  if locked then do
    let metadata ← caught (systemCall fun disk => disk.symlinkMetadata target)
    match metadata with
    | .ok _ => return false
    | .error .notFound => do
      let removed ← caught (removeFile lock)
      ofExcept (removed.mapError (.io (Path.components lock)))
      return true
    | .error error => fail (.io (Path.components target) error)
  else return false

/-- What is done with a file on the evidence found. -/
def clearOverride (file : DropIn) : ArtifactOwnership → Host Unit
  | .provenOwned => do
    removeOptionalFile file.path
    removeOptionalFile file.lock
  | .notPresent => do
    let _ ← removeLockIfTargetAbsent file.path file.lock
    return ()
  | .ambiguousLegacy => return ()

def removeOwnedOverride (expectedUid : ℕ) (file : DropIn) : Host ArtifactOwnership := do
  let evidence ← probeOwnedOverrideAt load file.path expectedUid
  clearOverride file evidence
  return evidence

/-- Gather what is found at each file. -/
def collect (f : DropIn → Host ArtifactOwnership) : List DropIn → Host (List ArtifactOwnership)
  | [] => return []
  | file :: files => do
    let evidence ← f file
    let others ← collect f files
    return evidence :: others

def removeOwnedLasperOverridesAtWithUid (persistentDir transientDir : Path) (expectedUid : ℕ) :
    Host (List ArtifactOwnership) := do
  let owned ← collect (removeOwnedOverride load expectedUid) (ownedDropIns persistentDir transientDir)
  let legacy ← collect (fun file => probeLegacyOverrideAt file.path) (legacyDropIns persistentDir transientDir)
  removeEmptyDir persistentDir
  removeEmptyDir transientDir
  return owned ++ legacy

def removeOwnedLasperOverridesAt (persistentDir transientDir : Path) : Host (List ArtifactOwnership) :=
  removeOwnedLasperOverridesAtWithUid load persistentDir transientDir 0

end Removal

end Lasper.Overrides
