import Lasper.Config.Paths
import Lasper.Lib.Numbers
import Lasper.Provisioning.State

/-! What a command line asks for, and the names and commands that may stand in it. -/

namespace Lasper.Cli

open Lib Config Provisioning

inductive ElevationMethod
  | sudo | run0
  deriving DecidableEq

structure CliOptions where
  wantElevation : Bool := false
  elevationMethod : Option ElevationMethod := none
  wantSystemdTools : Bool := false
  deriving DecidableEq

structure DaemonOptions where
  fdSock : Option Text := none
  rpcSock : Option Text := none
  daemonUid : ℕ := 0
  daemonPid : ℕ := 0
  deriving DecidableEq

inductive ShellIoMode
  | interactive | launcher
  deriving DecidableEq

inductive HelpTopic
  | application | shell | launch
  deriving DecidableEq

section Users

inductive GuestUserNameError
  | empty | tooLong | nonAscii | leadingDash | invalidCharacter
  deriving DecidableEq

def GuestUserNameError.message : GuestUserNameError → String
  | .empty => "guest username cannot be empty"
  | .tooLong => "guest username exceeds the 32-byte limit"
  | .nonAscii => "guest username must be ASCII"
  | .leadingDash => "guest username cannot start with '-'"
  | .invalidCharacter => "guest username contains whitespace, control, path-separator, or '@' characters"

def isAsciiControl (c : Char) : Bool := c.toNat < 32 || c.toNat = 127

def isUserNameForbidden (c : Char) : Bool :=
  Text.isAsciiWhitespace c || isAsciiControl c || c = '/' || c = '\\' || c = '@'

/-- What is wrong with a user's name. -/
def userNameError (value : Text) : Option GuestUserNameError :=
  if value = [] then some .empty
  else if 32 < value.byteLen then some .tooLong
  else if value.any (fun c => 128 ≤ c.toNat) then some .nonAscii
  else if value.head? = some '-' then some .leadingDash
  else if value.any isUserNameForbidden then some .invalidCharacter
  else none

structure ValidatedGuestUserName where
  text : Text
  valid : userNameError text = none
  deriving DecidableEq

def ValidatedGuestUserName.new (value : Text) : Except GuestUserNameError ValidatedGuestUserName :=
  match h : userNameError value with
  | some error => .error error
  | none => .ok ⟨value, h⟩

structure ShellTarget where
  machine : MachineName
  user : ValidatedGuestUserName
  deriving DecidableEq

end Users

section Displays

inductive WaylandShellRequest
  | automatic
  | disabled
  | display (display : WaylandDisplay)
  deriving DecidableEq

inductive ShellX11Selection
  | disabled
  | current
  | display (number : ℕ)
  deriving DecidableEq

end Displays

section Commands

inductive GuestCommandError
  | emptyProgram
  | programNotAbsolute
  | nulByte
  | argumentTooLong (maximum : ℕ)
  | tooManyArguments (maximum : ℕ)
  | tooLong (maximum : ℕ)
  deriving DecidableEq

def GuestCommandError.message : GuestCommandError → String
  | .emptyProgram => "guest command executable cannot be empty"
  | .programNotAbsolute => "guest command executable must be an absolute path"
  | .nulByte => "guest command contains a NUL byte"
  | .argumentTooLong maximum => s!"guest command argument exceeds the {maximum}-byte limit"
  | .tooManyArguments maximum => s!"guest command has more than {maximum} arguments"
  | .tooLong maximum => s!"guest command exceeds the {maximum}-byte total limit"

def maxGuestCommandArgs : ℕ := 256

def maxGuestCommandArgBytes : ℕ := 4096

def maxGuestCommandTotalBytes : ℕ := 64 * 1024

structure GuestCommand where
  program : Text
  args : List Text
  deriving DecidableEq

def validateGuestCommandValue (value : Text) (program : Bool) : Except GuestCommandError Unit :=
  if program ∧ value = [] then .error .emptyProgram
  else if maxGuestCommandArgBytes < value.byteLen then .error (.argumentTooLong maxGuestCommandArgBytes)
  else if Char.ofNat 0 ∈ value then .error .nulByte
  else .ok ()

/-- The bytes of a command, with one more for each argument. -/
def totalBytes (program : Text) (args : List Text) : ℕ :=
  args.foldl (fun total argument => total + argument.byteLen + 1) program.byteLen

def GuestCommand.new (program : Text) (args : List Text) : Except GuestCommandError GuestCommand := do
  validateGuestCommandValue program true
  (if ¬ Path.isAbsolute program then .error .programNotAbsolute else .ok ())
  (if maxGuestCommandArgs < args.length then .error (.tooManyArguments maxGuestCommandArgs) else .ok ())
  args.forM (validateGuestCommandValue · false)
  (if maxGuestCommandTotalBytes < totalBytes program args then .error (.tooLong maxGuestCommandTotalBytes)
    else .ok ())
  .ok ⟨program, args⟩

end Commands

structure ShellCommand where
  ioMode : ShellIoMode
  target : ShellTarget
  wayland : WaylandShellRequest
  x11 : ShellX11Selection
  command : Option GuestCommand
  options : CliOptions
  quiet : Bool
  deriving DecidableEq

inductive CliDispatch
  | application (options : CliOptions)
  | shell (command : ShellCommand)
  | daemon (options : DaemonOptions)
  | x11Reconcile (wantSystemdTools : Bool)
  deriving DecidableEq

inductive Invocation
  | run (dispatch : CliDispatch)
  | help (topic : HelpTopic)
  | version
  deriving DecidableEq

end Lasper.Cli
