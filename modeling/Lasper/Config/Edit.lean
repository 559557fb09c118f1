import Lasper.Config.Patch

/-! Finite edits of display binds. Updates and removals name the line of a
declaration; additions go to one place that the document offers for them. -/

namespace Lasper.Config

open Lib

def maxX11Changes : ℕ := 128
def maxWaylandChanges : ℕ := 128
def maxConfigPathBytes : ℕ := 4096
def x11SocketBindReadOnly : Bool := true
def nvidiaBlockBegin : Text := "X-Lasper-Nvidia-Begin=managed-by-lasper".toList

/-- What a change of one line asks for. -/
inductive LineChange
  | update (source guestTarget : Path) (readonly : Bool)
  | remove
  deriving DecidableEq

inductive X11BindingChange
  | add (source : Path)
  | change (line : ℕ) (change : LineChange)

inductive WaylandBindingChange
  | add (source guestTarget : Path)
  | change (line : ℕ) (change : LineChange)

structure ConfigurationEdit where
  target : ConfigurationTarget
  baseRevision : ConfigurationRevision
  x11Changes : List X11BindingChange
  waylandChanges : List WaylandBindingChange

inductive DisplayKind
  | x11
  | wayland
  deriving DecidableEq

structure Requested where
  line : ℕ
  kind : DisplayKind
  change : LineChange
  deriving DecidableEq

inductive Addition
  | x11 (source : Path)
  | wayland (source guestTarget : Path)
  deriving DecidableEq

/-- The declarations a plan is made against. -/
structure Inspected where
  x11Declarations : List X11BindingDeclaration
  x11Recommendation : DisplayBindRecommendation
  waylandDeclarations : List WaylandBindingDeclaration
  waylandRecommendation : DisplayBindRecommendation

section Validation

def validatePlainAbsolutePath (path : Path) (relative : String) : Except String Unit :=
  if Text.byteLen path > maxConfigPathBytes then .error "path exceeds the configuration editor limit"
  else if !Path.isAbsolute path then .error relative
  else if '%' ∈ path ∨ path.any isControl then
    .error "path cannot contain systemd specifiers or control characters"
  else if .parentDir ∈ Path.components path ∨ .curDir ∈ Path.components path then
    .error "path must not contain '.' or '..' components"
  else .ok ()

def validateX11Source (path : Path) : Except String Unit := do
  validatePlainAbsolutePath path "X11 source must be absolute"
  if (x11Scope path).isNone then
    throw "source must be /tmp/.X11-unix or one of its X<number> endpoints"

def validateWaylandSource (path : Path) : Except String Unit := do
  validatePlainAbsolutePath path "Wayland source must be absolute"
  match Path.fileName path with
  | none => throw "Wayland source has no display name"
  | some name =>
    if (WaylandDisplay.new name).toOption.isNone then throw "Wayland source has an invalid display name"

def validateGuestTarget (path : Path) : Except String Unit := do
  validatePlainAbsolutePath path "guest target must be absolute"
  if Path.same path ['/'] then throw "guest target cannot replace the container root"

def rejectOccupiedTarget (line : ℕ) (guestTarget : Path) (occupied : List (ℕ × Path)) :
    Except String Unit :=
  if occupied.any fun (otherLine, target) => otherLine ≠ line && Path.same target guestTarget then
    .error s!"Line {line}: guest target {String.ofList guestTarget} is already used by another bind"
  else .ok ()

def rejectX11SourceOverlap (line : ℕ) (source : Path) (planned : List (ℕ × Path)) : Except String Unit :=
  if planned.any fun (otherLine, other) =>
      !(otherLine = line && line ≠ 0) &&
        (Path.same source x11SocketDirectory || Path.same other x11SocketDirectory || Path.same source other)
  then .error s!"X11 source {String.ofList source} overlaps another X11 projection"
  else .ok ()

end Validation

section Encoding

/-- The new text of a declaration's line: its indentation and its options stay. -/
def encodeDisplayReplacement (oldBody ending : Text) (source guestTarget : Path) (readonly : Bool)
    (options : List Text) : Text :=
  let indent := oldBody.takeWhile isWhitespace
  let options := if options.isEmpty then none else some ([','].intercalate options)
  indent ++ nspawnBindKey readonly ++ '=' :: encodeNspawnBindValue source (some guestTarget) options ++
    ending

def idmapSuffix (idmapped : Bool) : Option Text := if idmapped then some "idmap".toList else none

def encodeNewDirective (readonly : Bool) (source guestTarget : Path) (idmapped : Bool) : Text :=
  nspawnBindKey readonly ++ '=' :: encodeNspawnBindValue source (some guestTarget) (idmapSuffix idmapped)

def encodeNewX11Directive (source : Path) (idmapped : Bool) : Text :=
  encodeNewDirective x11SocketBindReadOnly source source idmapped

def encodeNewWaylandDirective (source guestTarget : Path) (idmapped : Bool) : Text :=
  encodeNewDirective false source guestTarget idmapped

end Encoding

section Requests

/-- Add a request in the order of lines; a line may be changed only once. -/
def insertRequest (request : Requested) : List Requested → Option (List Requested)
  | [] => some [request]
  | other :: rest =>
    if request.line < other.line then some (request :: other :: rest)
    else if request.line = other.line then none
    else (insertRequest request rest).map (other :: ·)

def addRequest (request : Requested) (requested : List Requested) : Except String (List Requested) :=
  if request.line = 0 then .error "Declaration line numbers start at one"
  else match insertRequest request requested with
    | some requested => .ok requested
    | none => .error s!"Line {request.line} is changed more than once in this draft"

def x11Requests (changes : List X11BindingChange) : List Requested :=
  changes.filterMap fun
    | .change line change => some ⟨line, .x11, change⟩
    | .add _ => none

def waylandRequests (changes : List WaylandBindingChange) : List Requested :=
  changes.filterMap fun
    | .change line change => some ⟨line, .wayland, change⟩
    | .add _ _ => none

namespace ConfigurationEdit

/-- The changes of existing lines, X11 first, as the draft lists them. -/
def requests (edit : ConfigurationEdit) : List Requested :=
  x11Requests edit.x11Changes ++ waylandRequests edit.waylandChanges

def additions (edit : ConfigurationEdit) : List Addition :=
  (edit.x11Changes.filterMap fun
    | .add source => some (Addition.x11 source)
    | .change _ _ => none) ++
  edit.waylandChanges.filterMap fun
    | .add source guestTarget => some (Addition.wayland source guestTarget)
    | .change _ _ => none

end ConfigurationEdit

def collectRequests (requests : List Requested) : Except String (List Requested) :=
  requests.foldlM (fun requested request => addRequest request requested) []

def requestedAt (requested : List Requested) (line : ℕ) : Option Requested :=
  requested.find? (·.line = line)

end Requests

section Planning

/-- The X11 sources after the edit. -/
def plannedX11Sources (requested : List Requested) (declarations : List X11BindingDeclaration) :
    List (ℕ × Path) :=
  declarations.filterMap fun declaration =>
    match requestedAt requested declaration.line with
    | some ⟨_, .x11, .remove⟩ => none
    | some ⟨_, .x11, .update source _ _⟩ => some (declaration.line, source)
    | _ => some (declaration.line, declaration.source)

/-- The guest targets after the edit. -/
def occupiedTargets (requested : List Requested) (content : Text) : List (ℕ × Path) :=
  (bindDestinations content).filterMap fun (line, target) =>
    match requestedAt requested line with
    | some ⟨_, _, .remove⟩ => none
    | some ⟨_, _, .update _ guestTarget _⟩ => some (line, guestTarget)
    | none => some (line, target)

/-- Does the update ask for what the declaration already says? -/
def BindingDeclaration.asks (declaration : BindingDeclaration) (source guestTarget : Path)
    (readonly : Bool) : Bool :=
  Path.same source declaration.source && Path.same guestTarget declaration.guestTarget &&
    readonly = declaration.readonly

/-- The new text of a line, or `none` for a removed line. -/
def replacementText (line : PhysicalLine) (declaration : BindingDeclaration) : LineChange → Option Text
  | .remove => none
  | .update source guestTarget readonly =>
    if declaration.asks source guestTarget readonly then some line.raw
    else some (encodeDisplayReplacement line.body line.ending source guestTarget readonly
      declaration.options)

/-- Calculate a replacement; X11 and Wayland declarations differ in their name
and in the check of the source. -/
def calculateReplacement (label : String) (validateSource : Path → Except String Unit)
    (line : PhysicalLine) (declarations : List BindingDeclaration) (occupied : List (ℕ × Path))
    (change : LineChange) : Except String (Option Text) :=
  match declarations.find? (·.line = line.number) with
  | none => .error s!"Line {line.number} is not a recognized {label} bind in this revision"
  | some declaration =>
    match change with
    | .remove => .ok none
    | .update source guestTarget readonly => do
      (validateSource source).mapError fun reason => s!"Line {line.number}: {reason}"
      (validateGuestTarget guestTarget).mapError fun reason => s!"Line {line.number}: {reason}"
      rejectOccupiedTarget line.number guestTarget occupied
      return replacementText line declaration (.update source guestTarget readonly)

def calculateX11Replacement (line : PhysicalLine) (declarations : List X11BindingDeclaration)
    (occupied : List (ℕ × Path)) (change : LineChange) : Except String (Option Text) :=
  calculateReplacement "X11" validateX11Source line (declarations.map (·.toBindingDeclaration)) occupied
    change

def calculateWaylandReplacement (line : PhysicalLine) (declarations : List WaylandBindingDeclaration)
    (occupied : List (ℕ × Path)) (change : LineChange) : Except String (Option Text) :=
  calculateReplacement "Wayland" validateWaylandSource line
    (declarations.map (·.toBindingDeclaration)) occupied change

def rejectUpdatedSource (line : ℕ) (planned : List (ℕ × Path)) : LineChange → Except String Unit
  | .remove => .ok ()
  | .update source _ _ =>
    (rejectX11SourceOverlap line source planned).mapError fun reason => s!"Line {line}: {reason}"

def lineMutation (line : PhysicalLine) (new : Option Text) : SourceMutation where
  line := line.number
  start := line.start
  stop := line.stop
  old := [line.body]
  -- the replacement without the ending of the line
  new := (new.map fun text =>
    if line.ending.isSuffixOf text then text.take (text.length - line.ending.length) else text).toList
  replacement := new

def requestedText (inspected : Inspected) (line : PhysicalLine) (planned occupied : List (ℕ × Path))
    (request : Requested) : Except String (Option Text) :=
  match request.kind with
  | .x11 => do
    rejectUpdatedSource request.line planned request.change
    calculateX11Replacement line inspected.x11Declarations occupied request.change
  | .wayland => calculateWaylandReplacement line inspected.waylandDeclarations occupied request.change

/-- The mutation of one requested line; a replacement equal to the line is none. -/
def planRequest (inspected : Inspected) (lines : List PhysicalLine) (planned occupied : List (ℕ × Path))
    (request : Requested) : Except String (Option SourceMutation) :=
  match lines[request.line - 1]? with
  | none => .error s!"Line {request.line} no longer exists"
  | some line =>
    if hasContinuation line.body then
      .error s!"Line {request.line} uses continuation syntax and must be edited manually"
    else do
      let new ← requestedText inspected line planned occupied request
      return if new = some line.raw then none else some (lineMutation line new)

def planRequests (inspected : Inspected) (lines : List PhysicalLine) (planned occupied : List (ℕ × Path)) :
    List Requested → Except String (List SourceMutation)
  | [] => .ok []
  | request :: rest => do
    let mutation ← planRequest inspected lines planned occupied request
    let mutations ← planRequests inspected lines planned occupied rest
    return mutation.toList ++ mutations

def recommendationIdmap (label : String) : DisplayBindRecommendation → Except String Bool
  | .ready _ idmapped => .ok idmapped
  | .unsupported _ reason => .error s!"New {label} bind: {reason}"

/-- The guest target and the text of one added bind. -/
def planAddition (inspected : Inspected) (planned : List (ℕ × Path)) :
    Addition → Except String (Path × Text)
  | .x11 source => do
    let idmapped ← recommendationIdmap "X11" inspected.x11Recommendation
    (validateX11Source source).mapError fun reason => s!"New X11 bind: {reason}"
    (rejectX11SourceOverlap 0 source planned).mapError fun reason => s!"New X11 bind: {reason}"
    return (source, encodeNewX11Directive source idmapped)
  | .wayland source guestTarget => do
    let idmapped ← recommendationIdmap "Wayland" inspected.waylandRecommendation
    (validateWaylandSource source).mapError fun reason => s!"New Wayland bind: {reason}"
    (validateGuestTarget guestTarget).mapError fun reason => s!"New Wayland bind: {reason}"
    return (guestTarget, encodeNewWaylandDirective source guestTarget idmapped)

def Addition.plannedSource : Addition → List (ℕ × Path)
  | .x11 source => [(0, source)]
  | .wayland _ _ => []

/-- Encode the additions one after the other; each one occupies its target. -/
def planAdditions (inspected : Inspected) (planned occupied : List (ℕ × Path)) :
    List Addition → Except String (List Text)
  | [] => .ok []
  | addition :: rest => do
    let (target, binding) ← planAddition inspected planned addition
    if occupied.any fun (_, other) => Path.same other target then
      throw s!"New display bind: guest target {String.ofList target} is already used by another bind"
    let bindings ← planAdditions inspected (planned ++ addition.plannedSource) (occupied ++ [(0, target)]) rest
    return binding :: bindings

end Planning

section Insertion

/-- Where additions go: the scan so far, its offset and the line after it. -/
structure InsertionPoint where
  inFiles : Bool
  filesSeen : Bool
  offset : ℕ
  beforeLine : ℕ

def scanInsertion (point : InsertionPoint) : List PhysicalLine → InsertionPoint
  | [] => point
  | line :: rest =>
    let trimmed := Text.trim line.body
    if trimmed.head? = some '[' ∧ trimmed.getLast? = some ']' then
      if Text.eqIgnoreAsciiCase trimmed "[Files]".toList then
        scanInsertion ⟨true, true, line.stop, line.number + 1⟩ rest
      else if point.inFiles then
        scanInsertion { point with inFiles := false, offset := line.start, beforeLine := line.number } rest
      else scanInsertion point rest
    else if point.inFiles then
      if trimmed = nvidiaBlockBegin then
        { point with offset := line.start, beforeLine := line.number }
      else scanInsertion { point with offset := line.stop, beforeLine := line.number + 1 } rest
    else scanInsertion point rest

def insertionPoint (content : Text) : InsertionPoint :=
  scanInsertion ⟨false, false, Text.byteLen content, (physicalLines content).length + 1⟩
    (physicalLines content)

/-- What has to stand before the added lines: an end for an unfinished line, and
a section header if the document has none. -/
def insertionHeader (content : Text) (point : InsertionPoint) : Text :=
  let ending := preferredLineEnding content
  if point.filesSeen then
    let before := ((Text.splitBytes content point.offset).map (·.1)).getD []
    if 0 < point.offset ∧ before.getLast? ≠ some '\n' then ending else []
  else
    (if content = [] then []
      else
        (if content.getLast? = some '\n' then [] else ending) ++
        (if (ending ++ ending).isSuffixOf content then [] else ending)) ++
    "[Files]".toList ++ ending

def insertionText (content : Text) (bindings : List Text) : Text :=
  insertionHeader content (insertionPoint content) ++
    bindings.flatMap fun binding => binding ++ preferredLineEnding content

def insertionMutation (content : Text) (bindings : List Text) : SourceMutation where
  line := max (insertionPoint content).beforeLine 1
  start := (insertionPoint content).offset
  stop := (insertionPoint content).offset
  old := []
  new := (physicalLines (insertionText content bindings)).map (·.body)
  replacement := some (insertionText content bindings)

end Insertion

def planDisplayMutations (inspected : Inspected) (edit : ConfigurationEdit) (content : Text) :
    Except String (List SourceMutation) := do
  let requested ← collectRequests edit.requests
  let planned := plannedX11Sources requested inspected.x11Declarations
  let occupied := occupiedTargets requested content
  let mutations ← planRequests inspected (physicalLines content) planned occupied requested
  let bindings ← planAdditions inspected planned occupied edit.additions
  return if bindings.isEmpty then mutations else mutations ++ [insertionMutation content bindings]

def ConfigurationSnapshot.inspected (snapshot : ConfigurationSnapshot) : Inspected where
  x11Declarations := snapshot.x11Bindings
  x11Recommendation := snapshot.x11BindRecommendation
  waylandDeclarations := snapshot.waylandBindings
  waylandRecommendation := snapshot.waylandBindRecommendation

def prepare (snapshot : ConfigurationSnapshot) (edit : ConfigurationEdit) : Option Preparation :=
  if edit.x11Changes.length > maxX11Changes then
    some (.blocked s!"A single draft may change at most {maxX11Changes} X11 declarations")
  else if edit.waylandChanges.length > maxWaylandChanges then
    some (.blocked s!"A single draft may change at most {maxWaylandChanges} Wayland declarations")
  else preparePatch snapshot edit.target edit.baseRevision (planDisplayMutations snapshot.inspected edit)

end Lasper.Config
