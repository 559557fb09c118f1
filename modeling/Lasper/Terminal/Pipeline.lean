import Lasper.Lib.Runs
import Lasper.Terminal.Channel

/-! The tasks between the guest and the screen. The machine bridge reads and writes the
PTY, the output parser answers the queries that it finds in the output, and the bridge of
an embedded shell may stand between them. Each of them stops taking from its queues while
it waits to send. What the screen does with its output, and so what it answers, is a
parameter. -/

namespace Lasper.Terminal.Flow

open Lib

/-- Where the output parser is. -/
inductive Parser
  | receiving
  | replying (reply : List UInt8) (rest : List (List UInt8))
  | returned
  deriving DecidableEq

/-- The replies that are still to be sent. -/
def Parser.next : List (List UInt8) → Parser
  | [] => .receiving
  | reply :: rest => .replying reply rest

def Parser.waits : Parser → Bool
  | .replying _ _ => true
  | .receiving | .returned => false

inductive MachineTask
  | selecting
  | sending (chunk : List UInt8)
  | ended
  deriving DecidableEq

def MachineTask.waits : MachineTask → Bool
  | .sending _ => true
  | .selecting | .ended => false

structure Machine where
  task : MachineTask := .selecting
  pendingInput : List UInt8 := []
  readRetry : Bool := false
  writeRetry : Bool := false

def Machine.take (machine : Machine) : TerminalCommand → Machine
  | .input bytes | .reply bytes => { machine with pendingInput := bytes }
  | .resize _ => machine

/-- Where the bridge of a shell is. Input and replies are sent on with no way out. -/
inductive Bridge
  | selecting
  | sendingCommand (command : TerminalCommand)
  | sendingOutput (chunk : List UInt8)
  | closed
  | finished
  deriving DecidableEq

def Bridge.commandWaits : Bridge → Bool
  | .sendingCommand _ => true
  | _ => false

def Bridge.outputWaits : Bridge → Bool
  | .sendingOutput _ => true
  | _ => false

/-- The bridge and the channel to the shell's own session. -/
structure Shell where
  bridge : Bridge := .selecting
  remote : Channel := {}
  finished : Bool := false
  outputOpen : Bool := true

structure Pipeline (Core : Type*) where
  core : Core
  parser : Parser := .receiving
  session : Channel := {}
  shell : Option Shell := none
  machine : Machine := {}

inductive Action
  | tryInput (bytes : List UInt8)
  | tryResize (size : SessionSize)
  | parse
  | outputEnd
  | reply
  | bridgeCommand
  | bridgeSend
  | bridgeChunk
  | bridgeOutput
  | bridgeFinish
  | bridgeOutputEnd
  | bridgeClose
  | machineCommand
  | machineChunk (chunk : List UInt8)
  | machineOutput
  | machineWrite (count : ℕ)
  | readStall
  | writeStall
  | readRetry
  | writeRetry
  | machineEnd
  deriving DecidableEq

/-- The steps that a task does by itself while the guest reads and writes, none of them a close. -/
def Action.moves : Action → Bool
  | .parse | .reply | .bridgeCommand | .bridgeSend | .bridgeChunk | .bridgeOutput | .machineCommand
  | .machineChunk _ | .machineOutput | .machineWrite _ | .readRetry | .writeRetry => true
  | _ => false

/-- A command that the bridge waits to send on. -/
def awaited : TerminalCommand → Bool
  | .input _ | .reply _ => true
  | .resize _ => false

namespace Pipeline

variable {Core : Type*} (s : Pipeline Core)

/-- Is the endpoint of the session gone? -/
def inputClosed : Bool :=
  match s.shell with
  | none => s.machine.task = .ended
  | some shell => shell.bridge = .closed

/-- Does nobody take the machine's output any more? -/
def outputClosed : Bool :=
  match s.shell with
  | none => s.parser = .returned
  | some shell => shell.bridge = .closed || shell.bridge = .finished

/-- The channel that the machine bridge has the endpoint of. -/
def machineChannel : Channel :=
  match s.shell with
  | none => s.session
  | some shell => shell.remote

def setMachineChannel (channel : Channel) : Pipeline Core :=
  match s.shell with
  | none => { s with session := channel }
  | some shell => { s with shell := some { shell with remote := channel } }

def setTask (task : MachineTask) : Pipeline Core := { s with machine := { s.machine with task } }

def tryCommand (command : TerminalCommand) : Pipeline Core :=
  { s with session := { s.session with
      commands := (sendTerminalCommand s.inputClosed s.session.commands command).2 } }

end Pipeline

/-- What the bridge does with a command. It does not wait for a resize, and gives up what
comes after the shell has ended. -/
def Shell.accept (ended : Bool) (shell : Shell) (command : TerminalCommand) : Shell :=
  if shell.finished then shell
  else match command with
    | .input _ | .reply _ => { shell with bridge := .sendingCommand command }
    | .resize _ =>
      { shell with remote := { shell.remote with
          commands := (sendTerminalCommand ended shell.remote.commands command).2 } }

def bridgeStep {Core : Type*} (s : Pipeline Core) (shell : Shell) : Action → Option (Pipeline Core)
  | .bridgeCommand =>
    match shell.bridge, s.session.commands.recv with
    | .selecting, some (command, commands) =>
      some { s with
        session := { s.session with commands }
        shell := some (shell.accept (s.machine.task = .ended) command) }
    | _, _ => none
  | .bridgeSend =>
    match shell.bridge with
    | .sendingCommand command =>
      if s.machine.task = .ended then some { s with shell := some { shell with bridge := .selecting } }
      else (shell.remote.commands.trySend command).map fun commands =>
        { s with shell := some { shell with bridge := .selecting, remote := { shell.remote with commands } } }
    | _ => none
  | .bridgeChunk =>
    match shell.bridge, shell.remote.output.recv with
    | .selecting, some (chunk, output) =>
      if shell.outputOpen then
        some { s with shell := some { shell with
          bridge := .sendingOutput chunk
          remote := { shell.remote with output } } }
      else none
    | _, _ => none
  | .bridgeOutput =>
    match shell.bridge with
    | .sendingOutput chunk =>
      if s.parser = .returned then some { s with shell := some { shell with bridge := .closed } }
      else (s.session.output.trySend chunk).map fun output =>
        { s with
          session := { s.session with output }
          shell := some { shell with bridge := .selecting } }
    | _ => none
  | .bridgeFinish =>
    if shell.bridge = .selecting ∧ s.machine.task = .ended ∧ shell.finished = false then
      some { s with shell := some { shell with
        finished := true
        bridge := if shell.outputOpen then .selecting else .finished } }
    else none
  | .bridgeOutputEnd =>
    match shell.bridge, shell.remote.output.recv with
    | .selecting, none =>
      if s.machine.task = .ended ∧ shell.outputOpen = true then
        some { s with shell := some { shell with
          outputOpen := false
          bridge := if shell.finished then .finished else .selecting } }
      else none
    | _, _ => none
  | .bridgeClose =>
    match shell.bridge with
    | .selecting | .sendingOutput _ => some { s with shell := some { shell with bridge := .closed } }
    | _ => none
  | _ => none

def machineStep {Core : Type*} (s : Pipeline Core) : Action → Option (Pipeline Core)
  | .machineCommand =>
    match s.machine.task, s.machineChannel.commands.recv with
    | .selecting, some (command, commands) =>
      if s.machine.pendingInput = [] then
        some { s.setMachineChannel { s.machineChannel with commands } with machine := s.machine.take command }
      else none
    | _, _ => none
  | .machineChunk chunk =>
    if s.machine.task = .selecting ∧ s.machine.readRetry = false ∧ chunk ≠ [] ∧ chunk.length ≤ 4096 then
      some (s.setTask (.sending chunk))
    else none
  | .machineOutput =>
    match s.machine.task with
    | .sending chunk =>
      if s.outputClosed then some (s.setTask .ended)
      else (s.machineChannel.output.trySend chunk).map fun output =>
        (s.setMachineChannel { s.machineChannel with output }).setTask .selecting
    | _ => none
  | .machineWrite count =>
    if s.machine.task = .selecting ∧ s.machine.writeRetry = false ∧ 0 < count ∧
        count ≤ s.machine.pendingInput.length then
      some { s with machine := { s.machine with pendingInput := s.machine.pendingInput.drop count } }
    else none
  | .readStall =>
    if s.machine.task = .selecting ∧ s.machine.readRetry = false then
      some { s with machine := { s.machine with readRetry := true } }
    else none
  | .writeStall =>
    if s.machine.task = .selecting ∧ s.machine.writeRetry = false ∧ s.machine.pendingInput ≠ [] then
      some { s with machine := { s.machine with writeRetry := true } }
    else none
  | .readRetry =>
    if s.machine.task = .selecting ∧ s.machine.readRetry = true then
      some { s with machine := { s.machine with readRetry := false } }
    else none
  | .writeRetry =>
    if s.machine.task = .selecting ∧ s.machine.writeRetry = true then
      some { s with machine := { s.machine with writeRetry := false } }
    else none
  | .machineEnd => if s.machine.task = .ended then none else some (s.setTask .ended)
  | _ => none

section Steps

variable {Core : Type*} (process : Core → List UInt8 → Core × List (List UInt8))

def step (s : Pipeline Core) : Action → Option (Pipeline Core)
  | .tryInput bytes => some (s.tryCommand (.input bytes))
  | .tryResize size => some (s.tryCommand (.resize size))
  | .parse =>
    match s.parser, s.session.output.recv with
    | .receiving, some (chunk, output) =>
      some { s with
        core := (process s.core chunk).1
        parser := .next (process s.core chunk).2
        session := { s.session with output } }
    | _, _ => none
  | .outputEnd =>
    match s.parser, s.session.output.recv with
    | .receiving, none => if s.inputClosed then some { s with parser := .returned } else none
    | _, _ => none
  | .reply =>
    match s.parser with
    | .replying reply rest =>
      if s.inputClosed then some { s with parser := .returned }
      else (s.session.commands.trySend (.reply reply)).map fun commands =>
        { s with parser := .next rest, session := { s.session with commands } }
    | _ => none
  | .bridgeCommand => s.shell.bind fun shell => bridgeStep s shell .bridgeCommand
  | .bridgeSend => s.shell.bind fun shell => bridgeStep s shell .bridgeSend
  | .bridgeChunk => s.shell.bind fun shell => bridgeStep s shell .bridgeChunk
  | .bridgeOutput => s.shell.bind fun shell => bridgeStep s shell .bridgeOutput
  | .bridgeFinish => s.shell.bind fun shell => bridgeStep s shell .bridgeFinish
  | .bridgeOutputEnd => s.shell.bind fun shell => bridgeStep s shell .bridgeOutputEnd
  | .bridgeClose => s.shell.bind fun shell => bridgeStep s shell .bridgeClose
  | action => machineStep s action

def Step (s : Pipeline Core) (action : Action) (t : Pipeline Core) : Prop := step process s action = some t

end Steps

section Locking

namespace Pipeline

variable {Core : Type*} (s : Pipeline Core)

/-- Does the task that sends commands to the machine bridge wait? -/
def machineCommandWaits : Bool :=
  match s.shell with
  | none => s.parser.waits
  | some shell => shell.bridge.commandWaits

/-- Does the task that sends output to the parser wait? -/
def parserOutputWaits : Bool :=
  match s.shell with
  | none => s.machine.task.waits
  | some shell => shell.bridge.outputWaits

/-- Two tasks wait for each other, over the session's channel or over the machine's. -/
def locked : Bool :=
  s.session.jammed s.parser.waits s.parserOutputWaits ||
    s.machineChannel.jammed s.machineCommandWaits s.machine.task.waits

/-- Would one more command leave the parser and its counterpart waiting for each other? -/
def lastCommand : Bool := s.parserOutputWaits && s.session.commands.nearlyFull && s.session.output.full

/-- Does an action take the last way out? -/
def closesCycle : Action → Bool
  | .tryInput _ | .tryResize _ => s.parser.waits && s.lastCommand
  | .reply =>
    match s.parser with
    | .replying _ rest => !rest.isEmpty && s.lastCommand
    | _ => false
  | .bridgeCommand =>
    match s.shell, s.session.commands.recv with
    | some shell, some (command, _) =>
      !shell.finished && shell.remote.jammed (awaited command) s.machine.task.waits
    | _, _ => false
  | .bridgeChunk => s.session.jammed s.parser.waits true
  | .machineChunk _ => s.machineChannel.jammed s.machineCommandWaits true
  | _ => false

end Pipeline

end Locking

end Lasper.Terminal.Flow
