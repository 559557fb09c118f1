import Lasper.Lib.Queue

/-! The two bounded queues between the handle of a terminal session and its endpoint. -/

namespace Lasper.Terminal

open Lib

def terminalCommandCapacity : ℕ := 1024

def terminalOutputCapacity : ℕ := 256

theorem terminalOutputCapacity_pos : 0 < terminalOutputCapacity := by simp [terminalOutputCapacity]

structure SessionSize where
  cols : ℕ
  rows : ℕ
  deriving DecidableEq

inductive TerminalCommand
  | input (bytes : List UInt8)
  | reply (bytes : List UInt8)
  | resize (size : SessionSize)
  deriving DecidableEq

inductive SessionSendStatus
  | queued
  | full
  | closed
  deriving DecidableEq

abbrev Commands := Queue TerminalCommand terminalCommandCapacity

abbrev Output := Queue (List UInt8) terminalOutputCapacity

structure Channel where
  commands : Commands := .empty
  output : Output := .empty

/-- One side waits to send a command, the other to send output, and neither queue has room. -/
def Channel.jammed (channel : Channel) (commandWaits outputWaits : Bool) : Bool :=
  commandWaits && outputWaits && channel.commands.full && channel.output.full

/-- `try_send` to a receiver that may be gone. -/
def sendTerminalCommand (closed : Bool) (commands : Commands) (command : TerminalCommand) :
    SessionSendStatus × Commands :=
  if closed then (.closed, commands)
  else match commands.trySend command with
    | some commands => (.queued, commands)
    | none => (.full, commands)

end Lasper.Terminal
