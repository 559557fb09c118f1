import Lasper.Lib.Runs
import Lasper.Operations.Reservations
import Lasper.Operations.Resources

/-! Machine operations and the transitions they show. An operation reserves its
machine, installs a transition, runs, and is dropped, which removes the transition
from the table unless the run has asked to keep it, and then the reservation. Each of
these is a step of its own: the table of transitions and the registry have
different locks. Time is counted in nanoseconds. -/

namespace Lasper.Machines

open Lib Operations
open Provisioning (MachineName)

inductive AllowedSignal
  | terminate
  | kill
  deriving DecidableEq

inductive MachineRuntimeAction
  | terminate
  | poweroff
  | reboot
  | kill (signal : AllowedSignal)
  deriving DecidableEq

inductive NspawnUnitAction
  | enable
  | disable
  deriving DecidableEq

inductive MachineTransitionKind
  | starting
  | stopping
  | rebooting (sawAbsent : Bool)
  deriving DecidableEq

def MachineRuntimeAction.transition : MachineRuntimeAction → Option MachineTransitionKind
  | .terminate | .poweroff => some .stopping
  | .reboot => some (.rebooting false)
  | .kill _ => none

inductive MachineRejection
  | invalidTarget
  | busy
  | notFound
  | alreadyRunning
  | notRunning
  | permissionDenied
  | unsupported
  deriving DecidableEq

structure MachineTransition where
  kind : MachineTransitionKind
  startedAt : ℕ
  /-- The operation that installed it, which the code does not record. -/
  owner : ℕ
  deriving DecidableEq

def startTransitionTimeout : ℕ := 60 * 10 ^ 9

def otherTransitionTimeout : ℕ := 10 * 10 ^ 9

def MachineTransitionKind.timeout : MachineTransitionKind → ℕ
  | .starting => startTransitionTimeout
  | .stopping | .rebooting _ => otherTransitionTimeout

inductive MachineOperationKind
  | launch (image : ImageName)
  | runtime (action : MachineRuntimeAction)
  | unit (action : NspawnUnitAction)
  deriving DecidableEq

/-- What `begin_operation` is called with. -/
structure BeginRequest where
  machine : MachineName
  kind : MachineOperationKind
  transition : Option MachineTransitionKind
  resourceKey : ResourceKey

def launchTarget (image : ImageEntry) : Except MachineRejection (ImageName × MachineName) :=
  if image.isHidden then .error .invalidTarget
  else match ImageName.new image.name with
    | none => .error .invalidTarget
    | some name =>
      match MachineName.new name.name with
      | .error _ => .error .invalidTarget
      | .ok machine => .ok (name, machine)

def validateNspawnRuntimeEntry (entry : MachineEntry) : Except MachineRejection Unit :=
  if !entry.isNspawn then .error .unsupported
  else if !entry.state.acceptsRuntimeActions then .error .notRunning
  else .ok ()

def beginLaunch (image : ImageEntry) (observedState : Option MachineState) :
    Except MachineRejection BeginRequest := do
  let (image, machine) ← launchTarget image
  if observedState.isSome then throw .alreadyRunning
  return ⟨machine, .launch image, some .starting, .forImage image⟩

def beginRuntime (entry : MachineEntry) (action : MachineRuntimeAction) :
    Except MachineRejection BeginRequest := do
  validateNspawnRuntimeEntry entry
  match entry.validatedName with
  | .error _ => throw .invalidTarget
  | .ok machine => return ⟨machine, .runtime action, action.transition, .forMachine machine⟩

def beginUnit (image : ImageEntry) (action : NspawnUnitAction) : Except MachineRejection BeginRequest := do
  let (image, machine) ← launchTarget image
  return ⟨machine, .unit action, none, .forImage image⟩

inductive MachinePreparationErrorKind
  | invalidConfiguration
  | permissionDenied
  | busy
  | failed
  | outcomeUnknown
  deriving DecidableEq

structure MachinePreparationError where
  kind : MachinePreparationErrorKind
  message : String
  deriving DecidableEq

inductive MachineControlOutcome
  | succeeded
  | notAttempted (reason : String)
  | rejected (rejection : MachineRejection) (reason : String)
  | failed (reason : String)
  | outcomeUnknown (reason : String)
  deriving DecidableEq

structure RoutedMachineControlOutcome where
  outcome : MachineControlOutcome
  route : ExecutionRoute
  fallback : Option RouteFallback
  deriving DecidableEq

inductive StartConfirmation
  | started
  | failed (reason : String)
  | outcomeUnknown (reason : String)
  deriving DecidableEq

inductive MachineLifecycleResult
  | succeeded
  | notAttempted (reason : String)
  | rejected (rejection : MachineRejection) (reason : String)
  | failed (reason : String)
  | outcomeUnknown (reason : String)
  deriving DecidableEq

structure MachineLifecycleOutcome where
  machine : MachineName
  action : MachineOperationKind
  result : MachineLifecycleResult
  route : Option ExecutionRoute
  fallback : Option RouteFallback
  deriving DecidableEq

structure MachineOperation where
  machine : MachineName
  kind : MachineOperationKind
  transition : Option MachineTransitionKind
  retainTransition : Bool
  reservation : ResourceReservation
  deriving DecidableEq

/-- What the ports answer during a run. -/
structure Answers where
  preparation : Except MachinePreparationError Unit
  control : RoutedMachineControlOutcome
  confirmation : StartConfirmation

namespace MachineOperation

def retain (operation : MachineOperation) : MachineOperation :=
  { operation with retainTransition := operation.transition.isSome }

def outcome (operation : MachineOperation) (result : MachineLifecycleResult)
    (route : Option ExecutionRoute) (fallback : Option RouteFallback) : MachineLifecycleOutcome :=
  ⟨operation.machine, operation.kind, result, route, fallback⟩

/-- The launch's preparation failed. -/
def refusePreparation (operation : MachineOperation) (error : MachinePreparationError) :
    MachineLifecycleResult × MachineOperation :=
  match error.kind with
  | .permissionDenied => (.rejected .permissionDenied error.message, operation)
  | .invalidConfiguration => (.rejected .invalidTarget error.message, operation)
  | .busy => (.rejected .busy error.message, operation)
  | .outcomeUnknown => (.outcomeUnknown error.message, operation.retain)
  | .failed => (.failed error.message, operation)

def confirmStart (operation : MachineOperation) : StartConfirmation → MachineLifecycleResult × MachineOperation
  | .started => (.succeeded, operation.retain)
  | .failed reason => (.failed reason, operation)
  | .outcomeUnknown reason => (.outcomeUnknown reason, operation.retain)

def finishControl (operation : MachineOperation) (confirmation : StartConfirmation) :
    MachineControlOutcome → MachineLifecycleResult × MachineOperation
  | .succeeded =>
    match operation.kind with
    | .launch _ => operation.confirmStart confirmation
    | .runtime _ | .unit _ => (.succeeded, operation.retain)
  | .notAttempted reason => (.notAttempted reason, operation)
  | .rejected rejection reason => (.rejected rejection reason, operation)
  | .failed reason => (.failed reason, operation)
  | .outcomeUnknown reason => (.outcomeUnknown reason, operation.retain)

/-- The operation is returned as it is when it is dropped. -/
def run (operation : MachineOperation) (answers : Answers) : MachineLifecycleOutcome × MachineOperation :=
  match operation.kind, answers.preparation with
  | .launch _, .error error =>
    let (result, operation) := operation.refusePreparation error
    (operation.outcome result none none, operation)
  | _, _ =>
    let (result, operation) := operation.finishControl answers.confirmation answers.control.outcome
    (operation.outcome result (some answers.control.route) answers.control.fallback, operation)

end MachineOperation

/-- `observe_machines` for one transition: kept, or removed. -/
def MachineTransition.observe (entries : List MachineEntry) (name : String) (transition : MachineTransition) :
    Option MachineTransition :=
  match transition.kind, entries.find? (·.name = name) with
  | .starting, some entry => if entry.state ≠ .running then some transition else none
  | .starting, none => some transition
  | .stopping, some _ => some transition
  | .stopping, none => none
  | .rebooting _, none => some { transition with kind := .rebooting true }
  | .rebooting true, some _ => none
  | .rebooting false, some _ => some transition

abbrev Transitions := Table String MachineTransition

def observeMachines (transitions : Transitions) (entries : List MachineEntry) : Transitions :=
  transitions.retainMut (MachineTransition.observe entries)

def expireTransitions (transitions : Transitions) (now : ℕ) : Transitions :=
  transitions.retain fun transition => now - transition.startedAt < transition.kind.timeout

/-- Change the state of the first entry of a name. -/
def replaceFirst (name : String) (state : MachineState) : List MachineEntry → List MachineEntry
  | [] => []
  | entry :: entries =>
    if entry.name = name then { entry with state } :: entries else entry :: replaceFirst name state entries

def MachineTransitionKind.shown : MachineTransitionKind → MachineState
  | .starting => .starting
  | .stopping | .rebooting _ => .exiting

/-- One round of the loop over the transitions. -/
def projectTransition (entries : List MachineEntry) (transition : Σ _ : String, MachineTransition) :
    List MachineEntry :=
  if entries.any (·.name = transition.1) then replaceFirst transition.1 transition.2.kind.shown entries
  else if transition.2.kind = .starting then entries ++ [.optimisticNspawn transition.1 .starting]
  else entries

def projectMachines (iter : Iteration String MachineTransition) (transitions : Transitions)
    (observed : List MachineEntry) : List MachineEntry :=
  ((iter.order transitions.entries).foldl projectTransition observed).mergeSort MachineEntry.le

/-- How far an operation has come. -/
inductive Phase
  | reserved
  | active
  | ended
  | cleared
  deriving DecidableEq

/-- Can an operation be dropped, abandoned or after its run? -/
def Phase.droppable : Phase → Bool
  | .active | .ended => true
  | .reserved | .cleared => false

structure Owned where
  operation : MachineOperation
  phase : Phase

structure System where
  registry : OperationRegistry := {}
  transitions : Transitions := ∅
  now : ℕ := 0
  operations : ℕ → Option Owned := fun _ => none
  calls : ℕ := 0

/-- A call of one of the three functions that begin an operation. -/
inductive BeginCall
  | launch (image : ImageEntry) (observedState : Option MachineState)
  | runtime (entry : MachineEntry) (action : MachineRuntimeAction)
  | unit (image : ImageEntry) (action : NspawnUnitAction)

def BeginCall.request : BeginCall → Except MachineRejection BeginRequest
  | .launch image observedState => beginLaunch image observedState
  | .runtime entry action => beginRuntime entry action
  | .unit image action => beginUnit image action

inductive Action
  | begin (iter : Iteration ResourceKey ResourceAccess) (call : BeginCall)
  | install (n : ℕ)
  | run (n : ℕ) (answers : Answers)
  | clear (n : ℕ)
  | release (n : ℕ)
  | observe (entries : List MachineEntry)
  | expire
  | project (iter : Iteration String MachineTransition) (observed : List MachineEntry)
  | advance (duration : ℕ)
  | others (registry : OperationRegistry)

namespace System

def setOperation (s : System) (n : ℕ) (owned : Option Owned) : System :=
  { s with operations := fun m => if m = n then owned else s.operations m }

/-- The rest of the program leaves the keys of these operations to them. -/
def Undisturbed (s : System) (registry : OperationRegistry) : Prop :=
  ∀ n owned, s.operations n = some owned → ∀ key ∈ owned.operation.reservation.keys,
    registry.holders key = s.registry.holders key

/-- `clear_transition`, unless the transition is kept or there is none. -/
def clearTransition (s : System) (operation : MachineOperation) : Transitions :=
  if operation.transition.isSome && !operation.retainTransition then
    s.transitions.erase operation.machine.text
  else s.transitions

end System

variable (debugText : ResourceKey → String)

/-- The reservation that `begin_operation` asks for. -/
def reserveMachine (iter : Iteration ResourceKey ResourceAccess) (request : BeginRequest)
    (registry : OperationRegistry) : Except ResourceConflict ResourceReservation × OperationRegistry :=
  reserveInner debugText iter [⟨request.resourceKey, .exclusive⟩] none registry

def BeginRequest.operation (request : BeginRequest) (reservation : ResourceReservation) : MachineOperation :=
  ⟨request.machine, request.kind, request.transition, false, reservation⟩

inductive Step : System → Action → System → Prop
  | invalid {s : System} {iter : Iteration ResourceKey ResourceAccess} {call : BeginCall}
      {rejection : MachineRejection} (request : call.request = .error rejection) :
      Step s (.begin iter call) s
  | busy {s : System} {iter : Iteration ResourceKey ResourceAccess} {call : BeginCall} {request : BeginRequest}
      {conflict : ResourceConflict} {registry : OperationRegistry} (request_ok : call.request = .ok request)
      (result : reserveMachine debugText iter request s.registry = (.error conflict, registry)) :
      Step s (.begin iter call) { s with registry }
  | begun {s : System} {iter : Iteration ResourceKey ResourceAccess} {call : BeginCall} {request : BeginRequest}
      {reservation : ResourceReservation} {registry : OperationRegistry} (request_ok : call.request = .ok request)
      (result : reserveMachine debugText iter request s.registry = (.ok reservation, registry)) :
      Step s (.begin iter call)
        ({ s with registry, calls := s.calls + 1 }.setOperation s.calls
          (some ⟨request.operation reservation, .reserved⟩))
  | install {s : System} {n : ℕ} {operation : MachineOperation} {transitions : Transitions}
      (reserved : s.operations n = some ⟨operation, .reserved⟩)
      (installed : transitions = match operation.transition with
        | some kind => s.transitions.insert operation.machine.text ⟨kind, s.now, n⟩
        | none => s.transitions) :
      Step s (.install n) ({ s with transitions }.setOperation n (some ⟨operation, .active⟩))
  | run {s : System} {n : ℕ} {answers : Answers} {operation : MachineOperation}
      (active : s.operations n = some ⟨operation, .active⟩) :
      Step s (.run n answers) (s.setOperation n (some ⟨(operation.run answers).2, .ended⟩))
  | clear {s : System} {n : ℕ} {operation : MachineOperation} {phase : Phase}
      (held : s.operations n = some ⟨operation, phase⟩) (droppable : phase.droppable = true) :
      Step s (.clear n)
        ({ s with transitions := s.clearTransition operation }.setOperation n (some ⟨operation, .cleared⟩))
  | release {s : System} {n : ℕ} {operation : MachineOperation}
      (cleared : s.operations n = some ⟨operation, .cleared⟩) :
      Step s (.release n)
        ({ s with registry := release operation.reservation.id operation.reservation.keys s.registry }.setOperation
          n none)
  | observe {s : System} {entries : List MachineEntry} :
      Step s (.observe entries) { s with transitions := observeMachines s.transitions entries }
  | expire {s : System} : Step s .expire { s with transitions := expireTransitions s.transitions s.now }
  | project {s : System} {iter : Iteration String MachineTransition} {observed : List MachineEntry} :
      Step s (.project iter observed) s
  | advance {s : System} {duration : ℕ} : Step s (.advance duration) { s with now := s.now + duration }
  | others {s : System} {registry : OperationRegistry} (undisturbed : s.Undisturbed registry) :
      Step s (.others registry) { s with registry }

end Lasper.Machines
