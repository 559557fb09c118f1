import Lasper.Cli.Invocation

/-! Host options are read until a guest executable starts its own arguments. One scanner
reads what stands before the command, another what stands after it. -/

namespace Lasper.Cli

open Lib Config Provisioning

abbrev Parsed := Except String

section Options

def elevatePrefix : Text := "--elevate=".toList

def parseElevationMethod (value : Text) : Parsed ElevationMethod :=
  if value = "sudo".toList then .ok .sudo
  else if value = "run0".toList then .ok .run0
  else .error s!"unknown elevation method '{String.ofList value}'; expected sudo or run0"

/-- The options with a common one among them, if the argument is one. -/
def parseCommonOption (options : CliOptions) (argument : Text) : Parsed (Option CliOptions) :=
  if argument = "--elevate".toList ∨ argument = "-e".toList then .ok (some { options with wantElevation := true })
  else if argument = "--systemd-tools".toList ∨ argument = "-s".toList then
    .ok (some { options with wantSystemdTools := true })
  else match Text.stripPrefix elevatePrefix argument with
    | none => .ok none
    | some method => (parseElevationMethod method).map fun method =>
      some { options with elevationMethod := some method, wantElevation := true }

def parseWaylandOption (argument : Text) : Parsed (Option WaylandShellRequest) :=
  if argument = "--wayland".toList then .ok (some .automatic)
  else if argument = "--no-wayland".toList then .ok (some .disabled)
  else match Text.stripPrefix "--wayland=".toList argument with
    | none => .ok none
    | some display =>
      if display = [] then .error "--wayland= requires a display name"
      else match WaylandDisplay.new display with
        | .ok display => .ok (some (.display display))
        | .error error => .error ("invalid --wayland display: " ++ error)

def parseX11Display (value : Text) : Parsed ℕ :=
  match value with
  | ':' :: number =>
    if number = [] ∨ ¬ number.all Char.isDigit then .error "--with-x11= requires a local display in :N form"
    else match Text.parseUnsigned (2 ^ 16) number with
      | some number => .ok number
      | none => .error "--with-x11 display number is outside the u16 range"
  | _ => .error "--with-x11= requires a local display in :N form"

def parseX11Option (argument : Text) : Parsed (Option ShellX11Selection) :=
  if argument = "--with-x11".toList then .ok (some .current)
  else match Text.stripPrefix "--with-x11=".toList argument with
    | none => .ok none
    | some display => (parseX11Display display).map fun number => some (.display number)

def parseShellTarget (target : Text) : Parsed ShellTarget :=
  match Text.splitOnce '@' target with
  | none => .error "session target must be USER@MACHINE"
  | some (user, machine) =>
    if machine = [] ∨ '@' ∈ machine ∨ '@' ∈ user then .error "session target must be USER@MACHINE"
    else match MachineName.new (String.ofList machine) with
      | .error error => .error ("invalid machine in session target: " ++ error)
      | .ok machine => match ValidatedGuestUserName.new user with
        | .error error => .error ("invalid user in session target: " ++ error.message)
        | .ok user => .ok ⟨machine, user⟩

end Options

section Session

def ShellIoMode.commandName : ShellIoMode → String
  | .interactive => "shell"
  | .launcher => "launch"

def ShellIoMode.topic : ShellIoMode → HelpTopic
  | .interactive => .shell
  | .launcher => .launch

structure SessionState where
  options : CliOptions
  target : Option ShellTarget := none
  wayland : Option WaylandShellRequest := none
  x11 : Option ShellX11Selection := none
  quiet : Bool := false
  optionsFinished : Bool := false
  deriving DecidableEq

/-- What one argument does: the scan goes on, or the invocation is decided, or the guest's
own arguments begin. -/
inductive Met
  | next (state : SessionState)
  | stop (result : Parsed Invocation)
  | executable

/-- An argument that is not an option. -/
def positional (state : SessionState) (argument : Text) : Met :=
  match state.target with
  | some _ => .executable
  | none => match parseShellTarget argument with
    | .ok target => .next { state with target := some target }
    | .error error => .stop (.error error)

def sessionX11 (mode : ShellIoMode) (state : SessionState) (argument : Text) : Met :=
  match parseX11Option argument with
  | .error error => .stop (.error error)
  | .ok (some selection) =>
    if state.x11.isSome then .stop (.error (mode.commandName ++ " accepts only one Host X11 selection option"))
    else .next { state with x11 := some selection }
  | .ok none =>
    if argument.head? = some '-' then
      .stop (.error s!"unknown {mode.commandName} option: {String.ofList argument}")
    else positional state argument

def sessionDisplay (mode : ShellIoMode) (state : SessionState) (argument : Text) : Met :=
  match parseWaylandOption argument with
  | .error error => .stop (.error error)
  | .ok (some selection) =>
    if state.wayland.isSome then .stop (.error (mode.commandName ++ " accepts only one Wayland selection option"))
    else .next { state with wayland := some selection }
  | .ok none => sessionX11 mode state argument

def sessionArgument (mode : ShellIoMode) (state : SessionState) (argument : Text) : Met :=
  if state.optionsFinished then positional state argument
  else if argument = "--".toList then .next { state with optionsFinished := true }
  else if argument = "--help".toList ∨ argument = "-h".toList then .stop (.ok (.help mode.topic))
  else if argument = "--quiet".toList then .next { state with quiet := true }
  else match parseCommonOption state.options argument with
    | .error error => .stop (.error error)
    | .ok (some options) => .next { state with options := options }
    | .ok none => sessionDisplay mode state argument

/-- The checks after the last argument. -/
def finishSession (mode : ShellIoMode) (state : SessionState) (command : Option GuestCommand) : Parsed Invocation :=
  match state.target with
  | none => .error (mode.commandName ++ " requires USER@MACHINE")
  | some target =>
    if mode = .launcher ∧ state.options.wantElevation then
      .error "launch does not support --elevate; desktop authorization uses polkit"
    else if mode = .launcher ∧ state.quiet then
      .error "launch does not support --quiet; it emits no shell notices"
    else if mode = .launcher ∧ command = none then .error "launch requires a guest executable"
    else .ok (.run (.shell
      { ioMode := mode
        target := target
        wayland := state.wayland.getD .automatic
        x11 := state.x11.getD .disabled
        command := command
        options := state.options
        quiet := state.quiet }))

/-- The guest's command, from the executable on. -/
def startGuest (mode : ShellIoMode) (state : SessionState) (program : Text) (args : List Text) : Parsed Invocation :=
  match GuestCommand.new program args with
  | .error error => .error ("invalid guest command: " ++ error.message)
  | .ok command => finishSession mode state (some command)

def sessionLoop (mode : ShellIoMode) (state : SessionState) : List Text → Parsed Invocation
  | [] => finishSession mode state none
  | argument :: rest => match sessionArgument mode state argument with
    | .next state => sessionLoop mode state rest
    | .stop result => result
    | .executable => startGuest mode state argument rest

def parseSession (mode : ShellIoMode) (args : List Text) (options : CliOptions) : Parsed Invocation :=
  sessionLoop mode { options := options } args

end Session

section Internal

def parseDaemon (options : DaemonOptions) : List Text → Parsed DaemonOptions
  | [] => .ok options
  | [argument] =>
    if argument ∈ ["--fd-sock", "--rpc-sock", "--daemon-uid", "--daemon-pid"].map String.toList then
      .error s!"{String.ofList argument} requires a value"
    else .error s!"unknown daemon option: {String.ofList argument}"
  | argument :: value :: rest =>
    if argument = "--fd-sock".toList then parseDaemon { options with fdSock := some value } rest
    else if argument = "--rpc-sock".toList then parseDaemon { options with rpcSock := some value } rest
    else if argument = "--daemon-uid".toList then match Text.parseUnsigned (2 ^ 32) value with
      | some uid => parseDaemon { options with daemonUid := uid } rest
      | none => .error "--daemon-uid must be a non-negative integer"
    else if argument = "--daemon-pid".toList then
      match (Text.parseUnsigned (2 ^ 32) value).filter (0 < ·) with
      | some pid => parseDaemon { options with daemonPid := pid } rest
      | none => .error "--daemon-pid must be a positive integer"
    else .error s!"unknown daemon option: {String.ofList argument}"

def parseReconcileFrom (options : CliOptions) : List Text → Parsed Invocation
  | [] => .ok (.run (.x11Reconcile options.wantSystemdTools))
  | argument :: rest =>
    if argument = "-s".toList ∨ argument = "--systemd-tools".toList then
      parseReconcileFrom { options with wantSystemdTools := true } rest
    else .error s!"unknown X11 reconcile option: {String.ofList argument}"

def parseReconcile (args : List Text) (options : CliOptions) : Parsed Invocation :=
  if options.wantElevation then .error "--internal-x11-reconcile does not support --elevate"
  else parseReconcileFrom options args

end Internal

section Application

/-- The command, where no option is expected. -/
def parseVerb (options : CliOptions) (argument : Text) (rest : List Text) : Parsed Invocation :=
  if argument = "shell".toList then parseSession .interactive rest options
  else if argument = "launch".toList then parseSession .launcher rest options
  else .error s!"unknown command or option: {String.ofList argument}"

def parseFrom (options : CliOptions) (optionsFinished : Bool) : List Text → Parsed Invocation
  | [] => .ok (.run (.application options))
  | argument :: rest =>
    if optionsFinished then parseVerb options argument rest
    else if argument = "--help".toList ∨ argument = "-h".toList then .ok (.help .application)
    else if argument = "--version".toList ∨ argument = "-v".toList then .ok .version
    else if argument = "--".toList then parseFrom options true rest
    else if argument = "--daemon".toList then
      if options ≠ {} then .error "--daemon cannot be combined with public execution options"
      else (parseDaemon {} rest).map fun daemon => .run (.daemon daemon)
    else if argument = "--internal-x11-reconcile".toList then parseReconcile rest options
    else match parseCommonOption options argument with
      | .error error => .error error
      | .ok (some options) => parseFrom options false rest
      | .ok none => parseVerb options argument rest

def parse (args : List Text) : Parsed Invocation := parseFrom {} false args

end Application

end Lasper.Cli
