import Lasper.Config.Document
import Lasper.Config.Paths
import Lasper.Lib.Numbers

/-! The read-only projection of a document: its X11 and Wayland bind
declarations, and the bind policy that its `PrivateUsers=` setting implies. -/

namespace Lasper.Config

open Lib

def x11SocketDirectory : Path := "/tmp/.X11-unix".toList
def containerWaylandRoot : Path := "/run/lasper/wayland".toList

inductive X11BindingScope
  | directory
  | socket (display : ℕ) (alternate : Bool)
  deriving DecidableEq

/-- What X11 and Wayland declarations have in common. -/
structure BindingDeclaration where
  line : ℕ
  source : Path
  guestTarget : Path
  readonly : Bool
  options : List Text
  deriving DecidableEq

structure X11BindingDeclaration extends BindingDeclaration where
  scope : X11BindingScope
  deriving DecidableEq

structure WaylandBindingDeclaration extends BindingDeclaration where
  display : WaylandDisplay
  deriving DecidableEq

/-- What one logical line of a `[Files]` section declares. -/
inductive BindReading
  | x11 (declaration : X11BindingDeclaration)
  | wayland (declaration : WaylandBindingDeclaration)
  | other
  | unresolved (line : ℕ)
  deriving DecidableEq

/-- The display number and endpoint of a socket name such as `X0` or `X0_`. -/
def x11SocketScope (name : Text) : Option X11BindingScope :=
  match name with
  | 'X' :: rest =>
    let alternate := rest.getLast? = some '_'
    let number := if alternate then rest.dropLast else rest
    if number = [] ∨ ¬ number.all Char.isDigit then none
    else (Text.parseUnsigned (2 ^ 16) number).map fun display => .socket display alternate
  | _ => none

def x11Scope (source : Path) : Option X11BindingScope :=
  if Path.same source x11SocketDirectory then some .directory
  else do
    let parent ← Path.parent source
    if parent = Path.components x11SocketDirectory then
      let name ← Path.fileName source
      x11SocketScope name
    else none

def namesWayland (name : Text) : Bool := "wayland-".toList.isPrefixOf name

def waylandDisplayForBinding (source destination : Path) : Option WaylandDisplay := do
  let sourceName ← Path.fileName source
  if !namesWayland sourceName && !Path.startsWith destination containerWaylandRoot then none
  else
    let display ← (WaylandDisplay.new sourceName).toOption
    if namesWayland sourceName then some display
    else if Path.fileName destination = some display.name then some display else none

/-- What the fields of a bind value declare. -/
def readFields (number : ℕ) (readonly : Bool) (fields : List Text) : BindReading :=
  let source := fields.head?.getD []
  let destination := fields[1]?.getD source
  if fields.length > 3 ∨ ¬ Path.isAbsolute source ∨ ¬ Path.isAbsolute destination ∨
      '%' ∈ source ∨ '%' ∈ destination then .unresolved number
  else
    let options := (fields[2]?.map (·.splitOn ',')).getD []
    match x11Scope source with
    | some scope => .x11 { line := number, source, guestTarget := destination, readonly, options, scope }
    | none =>
      match waylandDisplayForBinding source destination with
      | some display =>
        .wayland { line := number, source, guestTarget := destination, readonly, options, display }
      | none => .other

def bindAccess (key : Text) : Option Bool :=
  if key = "Bind".toList then some false
  else if key = "BindReadOnly".toList then some true
  else none

def readBind (number : ℕ) (line : Text) : Option BindReading := do
  let (key, value) ← Text.splitOnce '=' line
  let readonly ← bindAccess (Text.trim key)
  return readFields number readonly (parseNspawnBindFields (Text.trim value))

/-- Follow the sections and read the binds of every `[Files]` section. -/
def readBinds (inFiles : Bool) : List (Text × ℕ) → List BindReading
  | [] => []
  | (logical, number) :: rest =>
    let line := Text.trim logical
    if line.head? = some '[' then readBinds (line = "[Files]".toList) rest
    else if inFiles then (readBind number line).toList ++ readBinds inFiles rest
    else readBinds inFiles rest

def readBindDeclarations (content : Text) : List BindReading := readBinds false (logicalLines content)

def x11Bindings (content : Text) : List X11BindingDeclaration :=
  (readBindDeclarations content).filterMap fun
    | .x11 declaration => some declaration
    | _ => none

def waylandBindings (content : Text) : List WaylandBindingDeclaration :=
  (readBindDeclarations content).filterMap fun
    | .wayland declaration => some declaration
    | _ => none

section Policy

inductive DisplayBindRecommendation
  | ready (privateUsers : String) (idmapped : Bool)
  | unsupported (privateUsers : String) (reason : String)
  deriving DecidableEq

def matchesIgnoreAsciiCase (value : Text) (choices : List String) : Bool :=
  choices.any fun choice => Text.eqIgnoreAsciiCase value choice.toList

def numericPrivateUsers (value : Text) : Bool :=
  let (shift, range) := (Text.splitOnce ':' value).getD (value, "65536".toList)
  match Text.parseUnsigned (2 ^ 32) shift, Text.parseUnsigned (2 ^ 32) range with
  | some shift, some range => 0 < range && shift ≤ 2 ^ 32 - 1 - range
  | _, _ => false

def parsePrivateUsers (value : Text) : Option DisplayBindRecommendation :=
  let normalized := String.ofList (value.map Text.toAsciiLower)
  if matchesIgnoreAsciiCase value ["no", "false", "off", "0", "n"] then some (.ready "no" false)
  else if matchesIgnoreAsciiCase value ["yes", "true", "on", "1", "y"] then some (.ready "yes" true)
  else if Text.eqIgnoreAsciiCase value "pick".toList then some (.ready "pick" true)
  else if normalized = "managed" then
    some (.unsupported normalized
      "PrivateUsers=managed does not support Lasper's ordinary idmapped display bind policy")
  else if normalized = "identity" then
    some (.unsupported normalized "PrivateUsers=identity is not supported by Lasper's display bind policy")
  else if numericPrivateUsers value then
    some (.unsupported normalized
      "explicit PrivateUsers UID ranges are not yet supported by Lasper's display bind policy")
  else none

def privateUsersSetting (line : Text) : Option Text := do
  let (key, value) ← Text.splitOnce '=' line
  if Text.trim key = "PrivateUsers".toList then some (Text.trim value) else none

/-- The last valid `PrivateUsers=` of an `[Exec]` section wins. -/
def effectivePolicy (inExec : Bool) (policy : DisplayBindRecommendation) :
    List (Text × ℕ) → DisplayBindRecommendation
  | [] => policy
  | (logical, _) :: rest =>
    let line := Text.trim logical
    if line.head? = some '[' then effectivePolicy (line = "[Exec]".toList) policy rest
    else if inExec then
      effectivePolicy inExec (((privateUsersSetting line).bind parsePrivateUsers).getD policy) rest
    else effectivePolicy inExec policy rest

def displayBindRecommendation (content : Text) : DisplayBindRecommendation :=
  effectivePolicy false (.ready "default (systemd-nspawn@ -U)" true) (logicalLines content)

end Policy

end Lasper.Config
