import Mathlib.Logic.Function.Basic
import Lasper.Lib.Runs
import Lasper.Lib.Table

/-! The daemon's registry of session processes. The map is under one lock, which
no caller holds across its checks, so every operation is a task of several steps
and tasks interleave freely. Processes exit at any time, and ids and pids are
used again. -/

namespace Lasper.Sessions

open Lib

abbrev WireSessionId := ℕ

/-- A handle. The pidfd is shared by the clones of a handle, and by nothing else. -/
structure SessionProcess where
  pid : ℕ
  pidfd : ℕ
  deriving DecidableEq

def SessionProcess.sameProcess (process other : SessionProcess) : Bool :=
  process.pid = other.pid && process.pidfd = other.pidfd

/-- The map, and the pidfds of the handles whose completion flag is set. -/
structure SessionRegistry where
  sessions : Table WireSessionId SessionProcess := ∅
  completed : List ℕ := []

namespace SessionRegistry

variable (registry : SessionRegistry)

def isCurrent (id : WireSessionId) (process : SessionProcess) : Bool :=
  (registry.sessions.lookup id).any (·.sameProcess process)

def isCompleted (process : SessionProcess) : Bool := process.pidfd ∈ registry.completed

/-- The second half of `register`: the handle was captured without the lock. -/
def insert (id : WireSessionId) (process : SessionProcess) : SessionRegistry :=
  if id ∈ registry.sessions then registry
  else { registry with sessions := registry.sessions.insert id process }

def finish (id : WireSessionId) (process : SessionProcess) : SessionRegistry :=
  if registry.isCurrent id process then
    { sessions := registry.sessions.erase id, completed := process.pidfd :: registry.completed }
  else registry

def removeIfProcess (id : WireSessionId) (process : SessionProcess) : SessionRegistry :=
  if registry.isCurrent id process then { registry with sessions := registry.sessions.erase id } else registry

def processes : List SessionProcess := registry.sessions.entries.map (·.2)

end SessionRegistry

inductive Signal
  | term
  | kill
  deriving DecidableEq

/-- Where a call of `close_and_escalate` is, and later its escalation. -/
inductive ClosePhase
  | found
  | stale
  | valid
  | sleeping
  | awake
  | owned
  | unfinished
  | doomed
  deriving DecidableEq

inductive Task
  | registering (id : WireSessionId) (pid : ℕ)
  | captured (id : WireSessionId) (process : SessionProcess)
  | closing (phase : ClosePhase) (id : WireSessionId) (process : SessionProcess)
  deriving DecidableEq

/-- The registry, the pidfds that were opened and whose processes have exited, and
the tasks under way. Tasks are numbered in the order of their calls. -/
structure World where
  registry : SessionRegistry := {}
  opened : ℕ := 0
  exited : List ℕ := []
  calls : ℕ := 0
  tasks : ℕ → Option Task := fun _ => none

inductive Action
  | register (id : WireSessionId) (pid : ℕ)
  | capture (task : ℕ) (opened : Bool)
  | insert (task : ℕ)
  | finish (id : WireSessionId) (process : SessionProcess)
  | close (id : WireSessionId)
  | revalidate (task : ℕ) (failed : Bool)
  | removeStale (task : ℕ)
  | terminate (task : ℕ) (failed : Bool)
  | wake (task : ℕ)
  | checkCurrent (task : ℕ)
  | checkCompleted (task : ℕ)
  | kill (task : ℕ)
  | exit (pidfd : ℕ)
  deriving DecidableEq

namespace World

variable (w : World)

def setTask (task : ℕ) (next : Option Task) : World := { w with tasks := Function.update w.tasks task next }

def moveTo (task : ℕ) (phase : ClosePhase) (id : WireSessionId) (process : SessionProcess) : World :=
  w.setTask task (some (.closing phase id process))

/-- A new call, and the state it leaves if there is more to do. -/
def call (next : Task) : World := { w.setTask w.calls (some next) with calls := w.calls + 1 }

def revalidateProcess (process : SessionProcess) : Bool := process.pidfd ∉ w.exited

end World

def step (w : World) : Action → Option World
  | .register id pid => some (if id ∈ w.registry.sessions then w else w.call (.registering id pid))
  | .capture task opened =>
    match w.tasks task with
    | some (.registering id pid) =>
      some (if opened then { w.setTask task (some (.captured id ⟨pid, w.opened⟩)) with opened := w.opened + 1 }
        else w.setTask task none)
    | _ => none
  | .insert task =>
    match w.tasks task with
    | some (.captured id process) =>
      some { w.setTask task none with registry := w.registry.insert id process }
    | _ => none
  | .finish id process => some { w with registry := w.registry.finish id process }
  | .close id =>
    match w.registry.sessions.lookup id with
    | some process => some (w.call (.closing .found id process))
    | none => some w
  | .revalidate task failed =>
    match w.tasks task with
    | some (.closing .found id process) =>
      some (if failed then w.setTask task none
        else w.moveTo task (if w.revalidateProcess process then .valid else .stale) id process)
    | some (.closing .unfinished id process) =>
      some (if failed then w.setTask task none
        else w.moveTo task (if w.revalidateProcess process then .doomed else .stale) id process)
    | _ => none
  | .removeStale task =>
    match w.tasks task with
    | some (.closing .stale id process) =>
      some { w.setTask task none with registry := w.registry.removeIfProcess id process }
    | _ => none
  | .terminate task failed =>
    match w.tasks task with
    | some (.closing .valid id process) =>
      some (if failed then w.setTask task none else w.moveTo task .sleeping id process)
    | _ => none
  | .wake task =>
    match w.tasks task with
    | some (.closing .sleeping id process) => some (w.moveTo task .awake id process)
    | _ => none
  | .checkCurrent task =>
    match w.tasks task with
    | some (.closing .awake id process) =>
      some (if w.registry.isCurrent id process then w.moveTo task .owned id process else w.setTask task none)
    | _ => none
  | .checkCompleted task =>
    match w.tasks task with
    | some (.closing .owned id process) =>
      some (if w.registry.isCompleted process then w.setTask task none else w.moveTo task .unfinished id process)
    | _ => none
  | .kill task =>
    match w.tasks task with
    | some (.closing .doomed _ _) => some (w.setTask task none)
    | _ => none
  | .exit pidfd => some { w with exited := pidfd :: w.exited }

/-- The signal that an action sends: which task sends it, to which process group. -/
def Action.signal? (w : World) : Action → Option (ℕ × ℕ × Signal)
  | .terminate task _ =>
    match w.tasks task with
    | some (.closing .valid _ process) => some (task, process.pid, .term)
    | _ => none
  | .kill task =>
    match w.tasks task with
    | some (.closing .doomed _ process) => some (task, process.pid, .kill)
    | _ => none
  | _ => none

def Step (w : World) (a : Action) (w' : World) : Prop := step w a = some w'

end Lasper.Sessions
