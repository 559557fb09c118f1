import Lasper.Lib.Text

/-! The source-preserving view of one settings document: physical lines with
their byte ranges, logical lines as the configuration parser joins them, and
the fields of a bind value. -/

namespace Lasper.Config

open Lib

structure PhysicalLine where
  number : ℕ
  start : ℕ
  body : Text
  ending : Text
  deriving DecidableEq

namespace PhysicalLine

def raw (line : PhysicalLine) : Text := line.body ++ line.ending

def stop (line : PhysicalLine) : ℕ := line.start + Text.byteLen line.raw

end PhysicalLine

/-- Number the raw lines and lay them out from a byte offset on. -/
def layLines (number offset : ℕ) : List Text → List PhysicalLine
  | [] => []
  | raw :: rest =>
    ⟨number, offset, (Text.splitEnding raw).1, (Text.splitEnding raw).2⟩ ::
      layLines (number + 1) (offset + Text.byteLen raw) rest

def physicalLines (content : Text) : List PhysicalLine := layLines 1 0 (pieces '\n' content)

/-- An odd number of backslashes ends the line. -/
def hasContinuation (line : Text) : Bool := (line.rtakeWhile (· = '\\')).length % 2 = 1

def byteOrderMark : Char := Char.ofNat 0xFEFF

def stripByteOrderMark : Text → Text
  | [] => []
  | c :: rest => if c = byteOrderMark then rest else c :: rest

def isComment (line : Text) : Bool :=
  match Text.trimStart line with
  | '#' :: _ | ';' :: _ => true
  | _ => false

/-- Join continued lines: comment lines are ignored even within a continuation,
and an unescaped final backslash becomes a space. -/
def joinLines (index : ℕ) (logical : Text) (firstLine : ℕ) : List Text → List (Text × ℕ)
  | [] => if logical = [] then [] else [(logical, firstLine)]
  | line :: rest =>
    if isComment line then joinLines (index + 1) logical firstLine rest
    else
      let first := if logical = [] then index + 1 else firstLine
      if hasContinuation line then
        joinLines (index + 1) ((logical ++ line).dropLast ++ [' ']) first rest
      else (logical ++ line, first) :: joinLines (index + 1) [] first rest

/-- The logical lines of a document, each with the number of its first physical line. -/
def logicalLines (content : Text) : List (Text × ℕ) :=
  joinLines 0 [] 1 (Text.lines (stripByteOrderMark content))

def preferredLineEnding (content : Text) : Text :=
  match Text.splitOnce '\n' content with
  | some (before, _) => if before.getLast? = some '\r' then ['\r', '\n'] else ['\n']
  | none => ['\n']

section BindFields

/-- Put a character in front of the first field. -/
def consField (c : Char) : List Text → List Text
  | [] => [[c]]
  | field :: fields => (c :: field) :: fields

/-- Split a bind value at its colons; a backslash escapes a backslash or a colon. -/
def parseNspawnBindFields : Text → List Text
  | [] => [[]]
  | '\\' :: '\\' :: rest => consField '\\' (parseNspawnBindFields rest)
  | '\\' :: ':' :: rest => consField ':' (parseNspawnBindFields rest)
  | ':' :: rest => [] :: parseNspawnBindFields rest
  | c :: rest => consField c (parseNspawnBindFields rest)

def escapeNspawnBindPath (path : Text) : Text :=
  path.flatMap fun c => if c = '\\' ∨ c = ':' then ['\\', c] else [c]

def nspawnBindKey (readonly : Bool) : Text :=
  if readonly then "BindReadOnly".toList else "Bind".toList

def encodeNspawnBindValue (source : Text) (target options : Option Text) : Text :=
  escapeNspawnBindPath source ++
    (match target with
      | some target => ':' :: escapeNspawnBindPath target
      | none => []) ++
    (match options with
      | some options => if options = [] then [] else ':' :: options
      | none => [])

end BindFields

/-- The destination of a bind line inside a `[Files]` section. -/
def bindDestination (line : Text) : Option Text := do
  let (key, value) ← Text.splitOnce '=' line
  if Text.trim key = "Bind".toList ∨ Text.trim key = "BindReadOnly".toList then
    let fields := parseNspawnBindFields (Text.trim value)
    let source ← fields.head?
    if fields.length > 3 ∨ source = [] then none
    else match fields[1]? with
      | some destination => some (if destination = [] then source else destination)
      | none => some source
  else none

/-- The guest targets that binds of the document occupy, whatever their kind. -/
def bindDestinationsFrom (inFiles : Bool) : List (Text × ℕ) → List (ℕ × Text)
  | [] => []
  | (logical, number) :: rest =>
    let line := Text.trim logical
    if line.head? = some '[' then
      bindDestinationsFrom (Text.eqIgnoreAsciiCase line "[Files]".toList) rest
    else if inFiles then
      ((bindDestination line).map fun destination => (number, destination)).toList ++
        bindDestinationsFrom inFiles rest
    else bindDestinationsFrom inFiles rest

def bindDestinations (content : Text) : List (ℕ × Text) :=
  bindDestinationsFrom false (logicalLines content)

end Lasper.Config
