import Lasper.Config.Inspection

/-! The conditional write of a configuration. A draft is checked against a first
inspection, and once more against an inspection under the lock of the file that
it names; only then is the file replaced. -/

namespace Lasper.Config

open Lib Traced

section Locked

variable {α : Type}

inductive NspawnError
  | io (path : List Component) (error : IoError)
  | runtime (text : String)
  | validation (text : String)
  -- the writer's own code gave up
  | panicked

abbrev Host := Traced Scene NspawnError

def lockPathFor (path : Path) : List Component :=
  match Path.fileName path with
  | none => Path.components path
  | some name => (Path.parent path).getD [] ++ [.normal ('.' :: name ++ ".lock".toList)]

/-- A system call whose failure names the path. -/
def callAt (path : List Component) (call : Disk → Except IoError α) : Host α := do
  let answer ← caught (systemCall call)
  ofExcept (answer.mapError (.io path))

def createParent (path : Path) : Host Unit :=
  match Path.parent path with
  | some parent => callAt parent fun _ => .ok ()
  | none => return ()

def Scene.hold (lock : List Component) (s : Scene) : Scene := { s with holding := some lock }

def Scene.release (s : Scene) : Scene := { s with holding := none }

/-- Get the lock or fail; it is given up when the section ends. -/
def underLock (lock : List Component) (body : Host α) : Host α := do
  callAt lock fun _ => .ok ()
  update (Scene.hold lock)
  let result ← attempt body
  update Scene.release
  ofExcept result

def existingOf (path : Path) : Except IoError Text → Except NspawnError (Option Text)
  | .ok content => .ok (some content)
  | .error .notFound => .ok none
  | .error error => .error (.io (Path.components path) error)

def existingContent (path : Path) : Host (Option Text) := do
  let content ← caught (systemCall fun disk => disk.readToString path)
  ofExcept (existingOf path content)

def modeOf (path : Path) : Except IoError Node → Except NspawnError (Option ℕ)
  | .ok (.file metadata _) => .ok (some (metadata.mode % 0o10000))
  | .ok _ => .error (.validation s!"Atomic write target {String.ofList path} is not a regular file")
  | .error .notFound => .ok none
  | .error error => .error (.io (Path.components path) error)

def existingMode (path : Path) : Host (Option ℕ) := do
  let node ← caught (systemCall fun disk => disk.symlinkMetadata path)
  ofExcept (modeOf path node)

def Scene.persist (path : Path) (content : Text) (mode : ℕ) (s : Scene) : Scene :=
  { s with disk := s.disk.persist path { s.stamps s.clock with mode } (Disk.encodeUtf8 content) }

/-- The content goes to a temporary file, which then takes the name. -/
def persistAtomic (path : Path) (content : Text) (mode : ℕ) : Host Unit := do
  callAt ((Path.parent path).getD []) fun _ => .ok ()
  callAt (Path.components path) fun _ => .ok ()
  update (Scene.persist path content mode)

def writeIfNew (path : Path) : Option Text → Host Unit
  | none => return ()
  | some content => do
    let mode ← existingMode path
    persistAtomic path content (mode.getD 0o600)

/-- What is done under the lock of the file. -/
def lockedSection (path : Path) (contentGenerator : Option Text → Host (Option Text × α)) : Host α := do
  let existing ← existingContent path
  let (newContent, result) ← contentGenerator existing
  writeIfNew path newContent
  return result

def applyLocked (path : Path) (contentGenerator : Option Text → Host (Option Text × α)) : Host α := do
  createParent path
  underLock (lockPathFor path) (lockedSection path contentGenerator)

end Locked

section Apply

variable (sha256 : List UInt8 → String)

inductive ConfigurationActivation
  | nextMachineStart

inductive ConfigurationApplyReport
  | applied (path : Path) (activation : ConfigurationActivation)
  | unchanged (path : Path)
  | blocked (reason : String)
  | conflict (reason : String)
  | busy (reason : String)

/-- What is left to report when a draft is not ready. -/
def Preparation.intoApplyReport : Preparation → Except NspawnError ConfigurationApplyReport
  | .ready _ => .error .panicked
  | .unchanged path => .ok (.unchanged path)
  | .blocked reason => .ok (.blocked reason)
  | .conflict reason => .ok (.conflict reason)

def decideWrite (edit : ConfigurationEdit) (writePath : Path) (current : ConfigurationSnapshot)
    (existing : Option Text) : Except NspawnError (Option Text × ConfigurationApplyReport) :=
  match prepare current edit with
  | none => .error .panicked
  | some (.ready change) =>
    if current.document.map (·.content) ≠ existing then
      .ok (none, .conflict
        "The administrator configuration changed while saving; refresh and review the new diff")
    else .ok (some change.after, .applied writePath .nextMachineStart)
  | some other => other.intoApplyReport.map fun report => (none, report)

/-- Discover every source again, so that the draft's revision is a condition of
the write itself. -/
def revalidate (edit : ConfigurationEdit) (sources : List NspawnConfigSource) (writePath : Path)
    (existing : Option Text) : Host (Option Text × ConfigurationApplyReport) := do
  let current ← inspectAt sha256 edit.target sources
  ofExcept (decideWrite edit writePath current existing)

def applyWithSources (edit : ConfigurationEdit) (initial : ConfigurationSnapshot)
    (sources : List NspawnConfigSource) : Host ConfigurationApplyReport :=
  match prepare initial edit with
  | none => fail .panicked
  | some (.ready change) => applyLocked change.path (revalidate sha256 edit sources change.path)
  | some other => ofExcept other.intoApplyReport

def apply (roots : Roots) (edit : ConfigurationEdit) : Host ConfigurationApplyReport :=
  if Provisioning.isValidNspawnHostname edit.target.name then do
    let initial ← inspectAt sha256 edit.target (sourcesForTarget roots edit.target)
    applyWithSources sha256 edit initial (sourcesForTarget roots edit.target)
  else return .blocked "This image name cannot identify an administrator .nspawn file"

end Apply

end Lasper.Config
