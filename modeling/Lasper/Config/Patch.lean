import Lasper.Config.Projection

/-! Byte-preserving source mutations: their application, the diff shown before
it, and the checks that every configuration write shares. -/

namespace Lasper.Config

open Lib

structure SourceMutation where
  line : ℕ
  start : ℕ
  stop : ℕ
  old : List Text
  new : List Text
  replacement : Option Text

/-- Apply byte ranges of the original from the last mutation to the first. A
range that does not fit the text at hand has no result. -/
def applyMutations (content : Text) (mutations : List SourceMutation) : Option Text :=
  mutations.foldr (fun mutation after =>
    after.bind fun text =>
      Text.replaceRange text mutation.start mutation.stop (mutation.replacement.getD [])) (some content)

section Diff

def diffContextLines : ℕ := 2

def diffLine (mark : Char) (line : Text) : Text := mark :: line ++ ['\n']

def numberText (n : ℕ) : Text := (toString n).toList

/-- The lines shown around one mutation. -/
def mutationWindow (lineCount : ℕ) (mutation : SourceMutation) : ℕ × ℕ :=
  if mutation.old = [] then
    let point := max 1 (min mutation.line (lineCount + 1))
    (max (point - diffContextLines) 1, min (point + (diffContextLines - 1)) lineCount)
  else (max (mutation.line - diffContextLines) 1, min (mutation.line + diffContextLines) lineCount)

/-- Merge a window into the last range if they touch. -/
def extendRanges (ranges : List (ℕ × ℕ)) (window : ℕ × ℕ) : List (ℕ × ℕ) :=
  match ranges.getLast? with
  | some (first, last) =>
    if window.1 ≤ last + 1 then ranges.dropLast ++ [(first, max last window.2)] else ranges ++ [window]
  | none => [window]

def lineDelta (mutations : List SourceMutation) : ℤ :=
  (mutations.map fun mutation => (mutation.new.length : ℤ) - mutation.old.length).sum

def insertedAt (mutations : List SourceMutation) (number : ℕ) : Text :=
  (mutations.filter fun mutation => mutation.old = [] ∧ mutation.line = number).flatMap fun mutation =>
    mutation.new.flatMap (diffLine '+')

def shownLine (lines : List PhysicalLine) (mutations : List SourceMutation) (number : ℕ) : Text :=
  insertedAt mutations number ++
    match (mutations.filter fun mutation => mutation.old ≠ [] ∧ mutation.line = number).getLast? with
    | some mutation => mutation.old.flatMap (diffLine '-') ++ mutation.new.flatMap (diffLine '+')
    | none =>
      match lines[number - 1]? with
      | some line => diffLine ' ' line.body
      | none => []

def renderRange (lines : List PhysicalLine) (mutations : List SourceMutation) (range : ℕ × ℕ) : Text :=
  let (start, stop) := range
  let deltaBefore := lineDelta (mutations.filter (·.line < start))
  let oldCount := stop - start + 1
  let deltaHere := lineDelta (mutations.filter fun mutation =>
    start ≤ mutation.line ∧ mutation.line ≤ if mutation.old = [] then stop + 1 else stop)
  let newStart := (start + deltaBefore).toNat
  let newCount := (oldCount + deltaHere).toNat
  "@@ -".toList ++ numberText start ++ ",".toList ++ numberText oldCount ++ " +".toList ++
    numberText newStart ++ ",".toList ++ numberText newCount ++ " @@\n".toList ++
    (List.range' start oldCount).flatMap (shownLine lines mutations) ++ insertedAt mutations (stop + 1)

def renderDiff (path : Path) (content : Text) (mutations : List SourceMutation) : Text :=
  let lines := physicalLines content
  let header := "--- ".toList ++ path ++ "\n+++ ".toList ++ path ++ "\n".toList
  if lines = [] then
    let inserted := mutations.flatMap (·.new)
    header ++ "@@ -0,0 +1,".toList ++ numberText inserted.length ++ " @@\n".toList ++
      inserted.flatMap (diffLine '+')
  else
    header ++ ((mutations.map (mutationWindow lines.length)).foldl extendRanges []).flatMap
      (renderRange lines mutations)

end Diff

section Write

inductive ConfigurationTarget
  | machine (name : String)
  | image (name : String)
  deriving DecidableEq

inductive ConfigurationOrigin
  | administrator
  | runtime
  | imageAdjacent
  deriving DecidableEq

def ConfigurationOrigin.label : ConfigurationOrigin → String
  | .administrator => "Administrator configuration"
  | .runtime => "Runtime configuration"
  | .imageAdjacent => "Image-adjacent configuration; trust policy not verified"

structure ConfigurationDocument where
  path : Path
  origin : ConfigurationOrigin
  content : Text

structure ConfigurationRevision where
  discovery : String
  readSource : Option String
  writeTarget : Option String
  deriving DecidableEq

structure ConfigurationWriteTarget where
  path : Path
  fileExists : Bool

inductive ConfigurationCandidateState
  | absent
  | selected
  | notConsulted
  | unavailable (reason : String)

structure ConfigurationCandidate where
  path : Path
  origin : ConfigurationOrigin
  state : ConfigurationCandidateState

structure ConfigurationSnapshot where
  target : ConfigurationTarget
  document : Option ConfigurationDocument
  candidates : List ConfigurationCandidate
  revision : Option ConfigurationRevision
  writeTarget : Option ConfigurationWriteTarget
  x11Bindings : List X11BindingDeclaration
  x11BindRecommendation : DisplayBindRecommendation
  waylandBindings : List WaylandBindingDeclaration
  waylandBindRecommendation : DisplayBindRecommendation

/-- What inspection finds for a document, with the revision and the write target
that discovery established. -/
def project (target : ConfigurationTarget) (document : ConfigurationDocument)
    (revision : Option ConfigurationRevision) (writeTarget : Option ConfigurationWriteTarget) :
    ConfigurationSnapshot where
  target
  document := some document
  candidates := []
  revision
  writeTarget
  x11Bindings := x11Bindings document.content
  x11BindRecommendation := displayBindRecommendation document.content
  waylandBindings := waylandBindings document.content
  waylandBindRecommendation := displayBindRecommendation document.content

inductive ConfigurationWriteError
  | targetMismatch
  | discoveryIncomplete
  | revisionChanged
  | noDocument
  | nonAdministratorSource (label : String)
  | noWriteTarget
  | writeTargetMismatch

def ConfigurationWriteError.text : ConfigurationWriteError → String
  | .targetMismatch => "The draft target does not match the inspected resource"
  | .discoveryIncomplete =>
    "Configuration discovery was incomplete; resolve the source error before editing"
  | .revisionChanged =>
    "The selected configuration source or file revision changed; refresh before saving"
  | .noDocument => "No existing administrator configuration contains this declaration"
  | .nonAdministratorSource label =>
    s!"{label} is inspect-only; creating an administrator file would change source precedence"
  | .noWriteTarget => "This resource cannot be mapped to a safe administrator write target"
  | .writeTargetMismatch => "The selected source is not the existing administrator write target"

def ConfigurationSnapshot.writeContext (snapshot : ConfigurationSnapshot) (target : ConfigurationTarget)
    (baseRevision : ConfigurationRevision) : Except ConfigurationWriteError ConfigurationDocument :=
  if snapshot.target ≠ target then .error .targetMismatch
  else match snapshot.revision with
    | none => .error .discoveryIncomplete
    | some revision =>
      if revision ≠ baseRevision then .error .revisionChanged
      else match snapshot.document with
        | none => .error .noDocument
        | some document =>
          if document.origin ≠ .administrator then
            .error (.nonAdministratorSource document.origin.label)
          else match snapshot.writeTarget with
            | none => .error .noWriteTarget
            | some writeTarget =>
              if !writeTarget.fileExists || !Path.same writeTarget.path document.path then
                .error .writeTargetMismatch
              else .ok document

def maxDiffBytes : ℕ := 256 * 1024

structure PreparedChange where
  path : Path
  after : Text
  diff : Text

inductive Preparation
  | ready (change : PreparedChange)
  | unchanged (path : Path)
  | blocked (reason : String)
  | conflict (reason : String)

/-- Prepare a patch from a mutation calculation; no result stands for a panic
while the ranges are applied. -/
def preparePatch (snapshot : ConfigurationSnapshot) (target : ConfigurationTarget)
    (baseRevision : ConfigurationRevision) (calculate : Text → Except String (List SourceMutation)) :
    Option Preparation :=
  match snapshot.writeContext target baseRevision with
  | .error .revisionChanged => some (.conflict
      "The selected configuration source or file revision changed; refresh before saving")
  | .error error => some (.blocked error.text)
  | .ok document =>
    match calculate document.content with
    | .error reason => some (.blocked reason)
    | .ok mutations =>
      if mutations.isEmpty then some (.unchanged document.path)
      else
        let diff := renderDiff document.path document.content mutations
        if Text.byteLen diff > maxDiffBytes then
          some (.blocked s!"The generated diff exceeds the {maxDiffBytes}-byte preview limit; edit this declaration manually")
        else (applyMutations document.content mutations).map fun after =>
          .ready ⟨document.path, after, diff⟩

end Write

end Lasper.Config
