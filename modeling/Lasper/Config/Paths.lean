import Lasper.Lib.Text

/-! Paths as the standard library reads them: a path is its text, but it is
compared by its components, in which repeated separators, a trailing separator
and inner `.` components do not show. -/

namespace Lasper.Config

open Lib

abbrev Path := Text

inductive Component
  | rootDir
  | curDir
  | parentDir
  | normal (name : Text)
  deriving DecidableEq

def componentOf (name : Text) : Option Component :=
  if name = [] ∨ name = ['.'] then none
  else if name = ['.', '.'] then some .parentDir
  else some (.normal name)

namespace Path

def isAbsolute (path : Path) : Bool := path.head? = some '/'

def components (path : Path) : List Component :=
  let names := path.splitOn '/'
  if isAbsolute path then .rootDir :: names.filterMap componentOf
  else if names.head? = some ['.'] then .curDir :: names.filterMap componentOf
  else names.filterMap componentOf

/-- Path equality compares components. -/
def same (a b : Path) : Bool := components a = components b

/-- The components before the last one; the root has no parent. -/
def parent (path : Path) : Option (List Component) :=
  match (components path).getLast? with
  | none | some .rootDir => none
  | some _ => some (components path).dropLast

def fileName (path : Path) : Option Text :=
  match (components path).getLast? with
  | some (.normal name) => some name
  | _ => none

def startsWith (path base : Path) : Bool := (components base).isPrefixOf (components path)

end Path

section Displays

def isWaylandDisplayName (name : Text) : Bool :=
  name ≠ [] && !name.any isControl && Path.fileName name = some name

/-- The name of a socket in the runtime directory of a session. -/
structure WaylandDisplay where
  name : Text
  valid : isWaylandDisplayName name = true
  deriving DecidableEq

def WaylandDisplay.new (name : Text) : Except String WaylandDisplay :=
  if h : isWaylandDisplayName name = true then .ok ⟨name, h⟩
  else .error s!"invalid Wayland display name: \"{String.ofList name}\""

end Displays

end Lasper.Config
