import Lasper.Lib.Traced
import Lasper.Config.Plan
import Lasper.Provisioning.State

/-! The discovery of configuration files. Every system call looks at the disk as
the other writers left it at that moment: they may change it before each call,
and each call may fail. -/

namespace Lasper.Config

open Lib Traced

section Disk

inductive IoError
  | notFound
  | other (text : String)

def IoError.text : IoError → String
  | .notFound => "No such file or directory (os error 2)"
  | .other text => text

structure FileMetadata where
  dev : ℕ
  ino : ℕ
  uid : ℕ
  gid : ℕ
  mode : ℕ
  mtime : ℕ
  mtimeNsec : ℕ
  ctime : ℕ
  ctimeNsec : ℕ
  deriving DecidableEq

inductive Node
  | file (metadata : FileMetadata) (bytes : ByteArray)
  | symlink (target : Path)
  | special

/-- Names refer to inodes, and no name refers to an inode that is yet to be made. -/
structure Disk where
  entry : Path → Option ℕ
  node : ℕ → Node
  created : ℕ
  entry_lt : ∀ path inode, entry path = some inode → inode < created

namespace Disk

variable (disk : Disk)

def maxSymlinks : ℕ := 40

/-- Resolve a name, through at most so many symbolic links. -/
def follow : ℕ → Path → Except IoError Node
  | 0, _ => .error (.other "Too many levels of symbolic links (os error 40)")
  | links + 1, path =>
    match disk.entry path with
    | none => .error .notFound
    | some inode =>
      match disk.node inode with
      | .symlink target => follow links target
      | node => .ok node

def openNoFollow (path : Path) : Except IoError ℕ :=
  match disk.entry path with
  | none => .error .notFound
  | some inode =>
    match disk.node inode with
    | .symlink _ => .error (.other "Too many levels of symbolic links (os error 40)")
    | _ => .ok inode

def symlinkMetadata (path : Path) : Except IoError Node :=
  match disk.entry path with
  | none => .error .notFound
  | some inode => .ok (disk.node inode)

def decodeUtf8 (bytes : ByteArray) : Except IoError Text :=
  match String.fromUTF8? bytes with
  | some text => .ok text.toList
  | none => .error (.other "stream did not contain valid UTF-8")

def encodeUtf8 (text : Text) : ByteArray := (String.ofList text).toUTF8

def readToString (path : Path) : Except IoError Text :=
  match disk.follow maxSymlinks path with
  | .error error => .error error
  | .ok (.file _ bytes) => decodeUtf8 bytes
  | .ok _ => .error (.other "Is a directory (os error 21)")

/-- Put a new file in the place of a name. -/
def persist (path : Path) (metadata : FileMetadata) (bytes : ByteArray) : Disk where
  entry := Function.update disk.entry path (some disk.created)
  node := Function.update disk.node disk.created (.file metadata bytes)
  created := disk.created + 1
  entry_lt := by
    intro other inode h
    by_cases hp : other = path
    · rw [hp, Function.update_self] at h
      cases h
      omega
    · rw [Function.update_of_ne hp] at h
      have := disk.entry_lt other inode h
      omega

theorem decodeUtf8_encodeUtf8 (text : Text) : decodeUtf8 (encodeUtf8 text) = .ok text := by
  have hvalid : (encodeUtf8 text).IsValidUTF8 := (String.ofList text).isValidUTF8
  have hdecode : String.fromUTF8? (encodeUtf8 text) = some (String.ofList text) := dif_pos hvalid
  rw [decodeUtf8, hdecode]
  simp

theorem readToString_persist (path : Path) (metadata : FileMetadata) (text : Text) :
    (disk.persist path metadata (encodeUtf8 text)).readToString path = .ok text := by
  simp only [readToString, maxSymlinks, follow, persist, Function.update_self]
  exact decodeUtf8_encodeUtf8 text

end Disk

/-- The disk, what the others do to it before each system call, and how that
call fails if it does. -/
structure Scene where
  disk : Disk
  others : ℕ → Disk → Disk
  faults : ℕ → Option IoError
  stamps : ℕ → FileMetadata
  clock : ℕ
  holding : Option (List Component)

namespace Scene

def tick (s : Scene) : Scene := { s with disk := s.others s.clock s.disk, clock := s.clock + 1 }

/-- Only the others act, for so many calls. -/
def elapse : ℕ → Scene → Scene
  | 0, s => s
  | n + 1, s => (elapse n s).tick

def answer {α : Type} (call : Disk → Except IoError α) (s : Scene) : Except IoError α :=
  match s.faults s.clock with
  | some error => .error error
  | none => call s.disk

end Scene

variable {ε α : Type}

def systemCall (call : Disk → Except IoError α) : Traced Scene IoError α := do
  update Scene.tick
  let answer ← read (Scene.answer call)
  ofExcept answer

end Disk

section Sources

inductive NspawnConfigSourceKind
  | administrator
  | runtime
  | imageAdjacent
  deriving DecidableEq

def NspawnConfigSourceKind.origin : NspawnConfigSourceKind → ConfigurationOrigin
  | .administrator => .administrator
  | .runtime => .runtime
  | .imageAdjacent => .imageAdjacent

structure NspawnConfigSource where
  kind : NspawnConfigSourceKind
  path : Path

def ConfigurationTarget.name : ConfigurationTarget → String
  | .machine name | .image name => name

/-- The directories that are searched. -/
structure Roots where
  administrator : Path
  runtime : Path
  machines : Path

def Path.join (base name : Path) : Path :=
  if isAbsolute name then name
  else if base = [] ∨ base.getLast? = some '/' then base ++ name
  else base ++ '/' :: name

def fromRoots (name : String) (imageAdjacent : Bool) (roots : Roots) : List NspawnConfigSource :=
  let filename := name.toList ++ ".nspawn".toList
  [⟨.administrator, Path.join roots.administrator filename⟩, ⟨.runtime, Path.join roots.runtime filename⟩] ++
    if imageAdjacent then [⟨.imageAdjacent, Path.join roots.machines filename⟩] else []

def sourcesForTarget (roots : Roots) : ConfigurationTarget → List NspawnConfigSource
  | .machine name => fromRoots name false roots
  | .image name => fromRoots name true roots

end Sources

section Revisions

variable (sha256 : List UInt8 → String)

def littleEndian (value : ℕ) : List UInt8 := (List.range 8).map fun i => UInt8.ofNat (value / 256 ^ i)

def textBytes (text : Text) : List UInt8 := (Disk.encodeUtf8 text).data.toList

def hashField (bytes : List UInt8) : List UInt8 := littleEndian bytes.length ++ bytes

def ConfigurationCandidateState.code : ConfigurationCandidateState → UInt8
  | .absent => 0
  | .selected => 1
  | .notConsulted => 2
  | .unavailable _ => 3

def targetCode : ConfigurationTarget → UInt8
  | .machine _ => 0
  | .image _ => 1

def discoveryRevision (target : ConfigurationTarget) (candidates : List ConfigurationCandidate) : String :=
  sha256 (textBytes "lasper-nspawn-file-search-v1\x00".toList ++ [targetCode target] ++
    hashField (textBytes target.name.toList) ++
    candidates.flatMap fun candidate => hashField (textBytes candidate.path) ++ [candidate.state.code])

def absenceRevision (path : Path) : String :=
  sha256 (textBytes "lasper-nspawn-absent-v1\x00".toList ++ hashField (textBytes path))

structure FileSnapshot where
  content : Text
  revision : String

def metadataRevision (metadata : FileMetadata) (length : ℕ) : List ℕ :=
  [metadata.dev, metadata.ino, length, metadata.uid, metadata.gid, metadata.mode, metadata.mtime,
    metadata.mtimeNsec, metadata.ctime, metadata.ctimeNsec]

def fileRevision (path : Path) (metadata : List ℕ) (bytes : ByteArray) : String :=
  sha256 (textBytes "lasper-nspawn-file-v1\x00".toList ++ hashField (textBytes path) ++
    metadata.flatMap littleEndian ++ hashField bytes.data.toList)

def maxNspawnContentBytes : ℕ := 1024 * 1024

def regularFile : Node → Except IoError (FileMetadata × ℕ)
  | .file metadata bytes => .ok (metadata, bytes.size)
  | _ => .error (.other "configuration is not a regular file")

def checkSize (length : ℕ) : Except IoError Unit :=
  if maxNspawnContentBytes < length then .error (.other "configuration exceeds the inspection size limit")
  else .ok ()

/-- At most the size limit and one byte are taken. -/
def readLimited (inode : ℕ) (disk : Disk) : Except IoError ByteArray :=
  match disk.node inode with
  | .file _ bytes => .ok (bytes.extract 0 (maxNspawnContentBytes + 1))
  | _ => .error (.other "Is a directory (os error 21)")

/-- What a node shows to a metadata comparison: nothing else equals a file. -/
def comparedRevision : Node → List ℕ
  | .file metadata bytes => metadataRevision metadata bytes.size
  | _ => []

def checkStable (before after current : List ℕ) : Except IoError Unit :=
  if before ≠ after ∨ before ≠ current then
    .error (.other "configuration changed during inspection; refresh to retry")
  else .ok ()

def readOpened (path : Path) (inode : ℕ) : Traced Scene IoError FileSnapshot := do
  let opened ← systemCall fun disk => .ok (disk.node inode)
  let (metadata, length) ← ofExcept (regularFile opened)
  ofExcept (checkSize length)
  let bytes ← systemCall (readLimited inode)
  ofExcept (checkSize bytes.size)
  let after ← systemCall fun disk => .ok (disk.node inode)
  let current ← systemCall fun disk => disk.symlinkMetadata path
  let before := metadataRevision metadata length
  ofExcept (checkStable before (comparedRevision after) (comparedRevision current))
  let content ← ofExcept (Disk.decodeUtf8 bytes)
  return ⟨content, fileRevision sha256 path before bytes⟩

def readFile (path : Path) : Traced Scene IoError (Option FileSnapshot) := do
  let opened ← attempt (systemCall fun disk => disk.openNoFollow path)
  match opened with
  | .ok inode => do
    let file ← readOpened sha256 path inode
    return some file
  | .error .notFound => return none
  | .error error => fail error

end Revisions

section Inspection

variable (sha256 : List UInt8 → String)

/-- What the search has found so far. -/
structure Discovery where
  candidates : List ConfigurationCandidate
  readSource : Option String
  writeTargetRevision : Option String
  writeTarget : Option ConfigurationWriteTarget
  selected : Option ConfigurationDocument
  failure : Option String

def Discovery.start : Discovery := ⟨[], none, none, none, none, none⟩

def Discovery.record (found : Discovery) (source : NspawnConfigSource) (state : ConfigurationCandidateState) :
    Discovery :=
  { found with candidates := found.candidates ++ [⟨source.path, source.kind.origin, state⟩] }

/-- The administrator's file is where changes are written, if the name allows it. -/
def Discovery.offer (found : Discovery) (writableName : Bool) (source : NspawnConfigSource)
    (revision : String) (fileExists : Bool) : Discovery :=
  if source.kind = .administrator ∧ writableName then
    { found with writeTargetRevision := some revision, writeTarget := some ⟨source.path, fileExists⟩ }
  else found

def Discovery.take (found : Discovery) (writableName : Bool) (source : NspawnConfigSource) :
    Except IoError (Option FileSnapshot) → Discovery
  | .ok (some file) =>
    { found.offer writableName source file.revision true with
      readSource := some file.revision
      selected := some ⟨source.path, source.kind.origin, file.content⟩ }.record source .selected
  | .ok none =>
    (found.offer writableName source (absenceRevision sha256 source.path) false).record source .absent
  | .error error =>
    { found with failure := some s!"Cannot inspect {String.ofList source.path}: {error.text}" }.record source
      (.unavailable error.text)

def consult (writableName : Bool) (found : Discovery) (source : NspawnConfigSource) :
    Traced Scene ε Discovery :=
  if found.selected.isSome || found.failure.isSome then return found.record source .notConsulted
  else do
    let file ← caught (readFile sha256 source.path)
    return found.take sha256 writableName source file

def search (writableName : Bool) : Discovery → List NspawnConfigSource → Traced Scene ε Discovery
  | found, [] => return found
  | found, source :: sources => do
    let found ← consult sha256 writableName found source
    search writableName found sources

def defaultRecommendation : DisplayBindRecommendation := .ready "default (systemd-nspawn@ -U)" true

def Discovery.snapshot (found : Discovery) (target : ConfigurationTarget) : ConfigurationSnapshot :=
  let revision := match found.failure with
    | some _ => none
    | none => some {
      discovery := discoveryRevision sha256 target found.candidates
      readSource := found.readSource
      writeTarget := found.writeTargetRevision }
  match found.selected with
  | some document => { project target document revision found.writeTarget with candidates := found.candidates }
  | none => ⟨target, none, found.candidates, revision, found.writeTarget, [], defaultRecommendation, [],
    defaultRecommendation⟩

def inspectAt (target : ConfigurationTarget) (sources : List NspawnConfigSource) :
    Traced Scene ε ConfigurationSnapshot := do
  let found ← search sha256 (Provisioning.isValidNspawnHostname target.name) .start sources
  return found.snapshot sha256 target

end Inspection

end Lasper.Config
