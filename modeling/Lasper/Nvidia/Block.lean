import Mathlib.Data.List.Infix
import Mathlib.Data.List.Sort
import Lasper.Config.Document
import Lasper.Lib.Lines
import Lasper.Nvidia.State

/-! The managed block of a settings file. Everything between its two markers is
Lasper's; the rest of the file is the administrator's, and is rewritten only
where it repeats a bind of the block. Offsets are counted in lines, since they
only stand between lines. -/

namespace Lasper.Nvidia

open Lib Config

section Lines

def nvidiaBlockBegin : Text := "X-Lasper-Nvidia-Begin=managed-by-lasper".toList
def nvidiaBlockEnd : Text := "X-Lasper-Nvidia-End=true".toList

def stripEnd (c : Char) (text : Text) : Text := if text.getLast? = some c then text.dropLast else text

def lineBody (line : Text) : Text := stripEnd '\r' (stripEnd '\n' line)

def isFilesSection (line : Text) : Bool := Text.eqIgnoreAsciiCase (Text.trim line) "[files]".toList

def isSectionHeader (line : Text) : Bool :=
  (Text.trim line).head? = some '[' && (Text.trim line).getLast? = some ']'

def isNvidiaBeginMarker (line : Text) : Bool := Text.trim line = nvidiaBlockBegin

def isNvidiaEndMarker (line : Text) : Bool := Text.trim line = nvidiaBlockEnd

/-- The errors of the surgery, with their texts. -/
inductive SurgeryError
  | runtime (text : String)
  | invalidConfig (text : String)

end Lines

section Binds

structure NspawnBindSemantics where
  source : Text
  destination : Text
  readonly : Bool
  options : List Text
  deriving DecidableEq

def NspawnBindSemantics.fromPassthrough (bind : PassthroughBind) : NspawnBindSemantics :=
  ⟨bind.hostPath, bind.containerPath, bind.readonly, []⟩

def parseNspawnBindValue (value : Text) (readonly : Bool) : Option NspawnBindSemantics := do
  let fields := parseNspawnBindFields (Text.trim value)
  if fields = [] ∨ 3 < fields.length then none
  else
    let source := Text.trim (fields.headD [])
    if source = [] then none
    else
      let destination := ((fields[1]?.map Text.trim).filter (· ≠ [])).getD source
      let options := ((fields[2]?.elim [] (·.splitOn ',')).map Text.trim).filter (· ≠ [])
      return ⟨source, destination, readonly, options⟩

def parseNspawnBindLine (line : Text) : Option NspawnBindSemantics := do
  let (key, value) ← Text.splitOnce '=' (Text.trim line)
  if Text.trim key = "Bind".toList then parseNspawnBindValue value false
  else if Text.trim key = "BindReadOnly".toList then parseNspawnBindValue value true
  else none

end Binds

section Purge

structure PurgeState where
  inFiles : Bool
  startOffset : Option ℕ
  endOffset : Option ℕ
  deathList : List Text
  offset : ℕ

namespace PurgeState

def start : PurgeState := ⟨false, none, none, [], 0⟩

/-- Between the markers. -/
def isOpen (s : PurgeState) : Bool := s.startOffset.isSome && s.endOffset.isNone

end PurgeState

def managedValue (body : Text) : Option Text := do
  let (key, value) ← Text.splitOnce '=' (Text.trim body)
  if Text.trim key = "Bind".toList ∨ Text.trim key = "BindReadOnly".toList then return value else none

def purgeStep (s : PurgeState) (line : Text) : Except SurgeryError PurgeState :=
  let body := lineBody line
  let next := { s with offset := s.offset + 1 }
  if isSectionHeader body then
    if s.isOpen then .error (.runtime "Incomplete NVIDIA markers cross a section boundary")
    else .ok { next with inFiles := isFilesSection body }
  else if s.inFiles && isNvidiaBeginMarker body then
    if s.startOffset.isSome then .error (.runtime "Duplicate X-Lasper-Nvidia-Begin marker")
    else .ok { next with startOffset := some s.offset }
  else if s.inFiles && isNvidiaEndMarker body then
    if s.startOffset.isNone || s.endOffset.isSome then
      .error (.runtime "X-Lasper-Nvidia-End marker has no matching begin marker")
    else .ok { next with endOffset := some (s.offset + 1) }
  else if s.isOpen then .ok { next with deathList := s.deathList ++ (managedValue body).toList }
  else .ok next

def purgeNvidiaBlock (content : Text) : Except SurgeryError (Text × List Text) := do
  let lines := pieces '\n' content
  let s ← lines.foldlM purgeStep .start
  match s.startOffset, s.endOffset with
  | some start, some stop => return ((lines.take start ++ lines.drop stop).flatten, s.deathList)
  | none, none => return (content, [])
  | _, _ => .error (.runtime "Incomplete markers found: one is missing")

end Purge

section Apply

structure RewriteState where
  result : List Text
  inFiles : Bool
  firstFilesSeen : Bool
  firstFilesOpen : Bool
  insertAt : Option ℕ
  conflicts : List Text

def RewriteState.start : RewriteState := ⟨[], false, false, false, none, []⟩

variable (newBinds removedBinds : List NspawnBindSemantics)

def rewriteHeader (s : RewriteState) (line : Text) : RewriteState :=
  let inFiles := isFilesSection (lineBody line)
  { s with
    result := s.result ++ [line]
    inFiles
    firstFilesSeen := s.firstFilesSeen || inFiles
    firstFilesOpen := inFiles && !s.firstFilesSeen
    insertAt := if s.firstFilesOpen then some s.result.length else s.insertAt }

def rewriteStep (s : RewriteState) (line : Text) : RewriteState :=
  let body := lineBody line
  if isSectionHeader body then rewriteHeader s line
  else
    match if s.inFiles then parseNspawnBindLine body else none with
    | some bind =>
      if bind ∈ newBinds ∨ bind ∈ removedBinds then s
      else
        { s with
          result := s.result ++ [line]
          conflicts :=
            if bind.destination ∈ newBinds.map (·.destination) then s.conflicts ++ [bind.destination]
            else s.conflicts }
    | none => { s with result := s.result ++ [line] }

def bindLine (bind : PassthroughBind) : Text :=
  nspawnBindKey bind.readonly ++ '=' :: (escapeNspawnBindPath bind.hostPath ++
    if bind.hostPath = bind.containerPath then [] else ':' :: escapeNspawnBindPath bind.containerPath)

def managedBlock (binds : List PassthroughBind) : List Text :=
  nvidiaBlockBegin :: (binds.map bindLine ++ [nvidiaBlockEnd])

def join (separator : Text) (block : List Text) : Text := List.intercalate separator block

def insertBlock (front back : List Text) (block : List Text) (lineEnding : Text) (preserveFinalNewline : Bool) : Text :=
  let first := front.flatten
  let rest := back.flatten
  first ++ (if first ≠ [] ∧ first.getLast? ≠ some '\n' then lineEnding else []) ++ join lineEnding block ++
    (if rest ≠ [] ∨ preserveFinalNewline then lineEnding else []) ++ rest

/-- The text ends in a line ending, and is set off by a blank line. -/
def setOff (lineEnding content : Text) : Text :=
  if content = [] then []
  else
    let ended := if content.getLast? ≠ some '\n' then content ++ lineEnding else content
    if lineEnding ++ lineEnding <:+ ended then ended else ended ++ lineEnding

def filesHeader : Text := "[Files]".toList

def appendFilesBlock (content : Text) (block : List Text) (lineEnding : Text) (preserveFinalNewline : Bool) : Text :=
  setOff lineEnding content ++ filesHeader ++ lineEnding ++ join lineEnding block ++
    if preserveFinalNewline then lineEnding else []

def lineEndingOf (content : Text) : Text := if ['\r', '\n'] <:+: content then ['\r', '\n'] else ['\n']

/-- The conflicting paths are named once each, in order. -/
def conflictError (conflicts : List Text) : SurgeryError :=
  .invalidConfig ("NVIDIA bind conflicts with administrator-owned entries at container path(s): " ++
    ", ".intercalate ((conflicts.map String.ofList).dedup.insertionSort (· ≤ ·)))

/-- The lines of the purged file, rewritten. -/
def rewrite (clean : Text) : RewriteState :=
  (pieces '\n' clean).foldl (rewriteStep newBinds removedBinds) .start

/-- Where the block goes: to the end of the first section of files. -/
def insertionOffset (s : RewriteState) : Option ℕ := if s.firstFilesOpen then some s.result.length else s.insertAt

def placeBlock (clean : Text) (s : RewriteState) (binds : List PassthroughBind) : Text :=
  match insertionOffset s with
  | some offset =>
    insertBlock (s.result.take offset) (s.result.drop offset) (managedBlock binds) (lineEndingOf clean)
      (clean.getLast? = some '\n')
  | none =>
    appendFilesBlock s.result.flatten (managedBlock binds) (lineEndingOf clean) (clean.getLast? = some '\n')

end Apply

def applyGpuPassthroughToContent (content : Text) (newState : NvidiaState) (removedBinds : List PassthroughBind) :
    Except SurgeryError Text := do
  let (clean, _) ← purgeNvidiaBlock content
  let s := rewrite (newState.binds.map .fromPassthrough) (removedBinds.map .fromPassthrough) clean
  if s.conflicts ≠ [] then .error (conflictError s.conflicts)
  else if newState.binds = [] then return s.result.flatten
  else return placeBlock clean s newState.binds

end Lasper.Nvidia
