import Lasper.Lib.Text
import Lasper.Machines.Lifecycle
import Lasper.Runtime.Observation

/-! Making sure that a machine runs. The catalog asks one port and falls back to another; what
these answer may differ at every query. A machine that is registered is waited for, and one that is
not is launched from its image; that launch is confirmed by looking at the machine's unit, again in
rounds under the same timeout. -/

namespace Lasper.Machines.Readiness

open Lib Operations
open Provisioning (MachineName)
open Lasper.Runtime (RuntimeError RuntimeQuery)

section Catalog

structure RuntimeSnapshot where
  machines : List MachineEntry
  images : List ImageEntry

/-- What a port answers at one query. -/
structure RuntimePort where
  snapshotRoute : ExecutionRoute
  isAvailable : Bool
  listMachines : Except RuntimeError (List MachineEntry)
  snapshot : Except RuntimeError RuntimeSnapshot

structure RuntimeCatalog where
  primary : Option RuntimePort
  fallback : RuntimePort

def fallbackReason : RuntimeError → String
  | .permissionDenied _ => "polkit denied access; run with -e to elevate"
  | error => error.display

variable {α : Type}

/-- The query at the second port, after the first one failed. -/
def fallbackQuery (ask : RuntimePort → Except RuntimeError α) (fallback primary : RuntimePort)
    (error : RuntimeError) : Except RuntimeError (RuntimeQuery α) :=
  (ask fallback).map fun value =>
    ⟨value, fallback.snapshotRoute,
      some ⟨primary.snapshotRoute, fallback.snapshotRoute, fallbackReason error⟩⟩

def query (ask : RuntimePort → Except RuntimeError α) (catalog : RuntimeCatalog) :
    Except RuntimeError (RuntimeQuery α) :=
  match catalog.primary with
  | none => (ask catalog.fallback).map fun value => ⟨value, catalog.fallback.snapshotRoute, none⟩
  | some primary =>
    if primary.isAvailable then
      match ask primary with
      | .ok value => .ok ⟨value, primary.snapshotRoute, none⟩
      | .error error => fallbackQuery ask catalog.fallback primary error
    else fallbackQuery ask catalog.fallback primary (.unavailable "D-Bus not available")

def machines : RuntimeCatalog → Except RuntimeError (RuntimeQuery (List MachineEntry)) :=
  query (·.listMachines)

def snapshot : RuntimeCatalog → Except RuntimeError (RuntimeQuery RuntimeSnapshot) := query (·.snapshot)

end Catalog

/-! ## Waiting and launching -/

section Ready

inductive MachineReadyError
  | observation (error : RuntimeError)
  | unavailable (machine : MachineName) (state : MachineState)
  | notFound (machine : MachineName)
  | rejected (rejection : MachineRejection) (reason : String)
  | notAttempted (reason : String)
  | failed (reason : String)
  | outcomeUnknown (reason : String)

def rejectionText : MachineRejection → String
  | .invalidTarget => "invalid machine target"
  | .busy => "machine has a conflicting operation in progress"
  | .notFound => "machine was not found"
  | .alreadyRunning => "machine is already running"
  | .notRunning => "machine is not running"
  | .permissionDenied => "permission was denied"
  | .unsupported => "operation is not supported"

/-- The properties of the machine's unit, as texts. -/
abbrev Properties := String → Option String

/-- What the service meets: the answers of the ports at each query and at each inspection, the time
that has passed at each round of a wait, the registry's answer to a reservation, and what the
preparation and the control of a launch are answered. -/
structure Surroundings where
  catalog : ℕ → RuntimeCatalog
  elapsed : ℕ → ℕ
  reserve : BeginRequest → Option ResourceReservation
  preparation : Except MachinePreparationError Unit
  control : RoutedMachineControlOutcome
  inspect : ℕ → Except String Properties
  startedEpoch : ℕ
  journalCommand : Option String → ℕ → String

variable (timeout : ℕ) (seconds : ℕ → String) (seen : Surroundings) (machine : MachineName)

def find (entries : List MachineEntry) : Option MachineEntry := entries.find? (·.name = machine.text)

/-- A query that a call made; its place among the queries of the call is its number. -/
inductive Look
  | machines
  | snapshot
  deriving DecidableEq

/-- What came of a call, the operation that was run in it, and the queries that it made. -/
structure EnsureOutcome where
  result : Option (Except MachineReadyError Unit)
  launched : Option MachineOperation
  looks : List Look

/-- The rounds of `wait_for_running`; each but the first comes after a query of its own. -/
def waitForRunning : List Look → ℕ → ℕ → MachineEntry → EnsureOutcome
  | looks, _, 0, _ => ⟨none, none, looks⟩
  | looks, round, rounds + 1, entry =>
    match entry.state with
    | .running => ⟨some (.ok ()), none, looks⟩
    | .starting =>
      if timeout ≤ seen.elapsed round then
        ⟨some (.error (.outcomeUnknown s!"machine {machine.text} is still starting after {seconds timeout}s")), none,
          looks⟩
      else
        match machines (seen.catalog looks.length) with
        | .error error => ⟨some (.error (.observation error)), none, looks ++ [.machines]⟩
        | .ok query =>
          match find machine query.value with
          | none => ⟨some (.error (.failed s!"machine {machine.text} disappeared while waiting for startup")), none,
              looks ++ [.machines]⟩
          | some entry => waitForRunning (looks ++ [.machines]) (round + 1) rounds entry
    | state => ⟨some (.error (.unavailable machine state)), none, looks⟩

inductive StartObservation
  | started
  | pending (details : String)
  | failed (details : String)

def observedKeys : List String := ["ActiveState", "SubState", "Result", "ExecMainCode", "ExecMainStatus", "StatusText"]

def startDetails (properties : Properties) : String :=
  ", ".intercalate (observedKeys.filterMap fun key => (properties key).map fun value => s!"{key}={value}")

def observeStart (properties : Properties) : StartObservation :=
  let activeState := (properties "ActiveState").getD ""
  let serviceResult := (properties "Result").getD ""
  if activeState = "active" then .started
  else if activeState = "failed" ∨
      serviceResult ≠ "" ∧ serviceResult ≠ "success" ∧ serviceResult ≠ "[not set]" then
    .failed (startDetails properties)
  else .pending (startDetails properties)

def validInvocationId (value : String) : Bool := value.utf8ByteSize = 32 && value.toList.all isAsciiHexdigit

def startFailureReason (details : String) (invocationId : Option String) : String :=
  s!"Container '{machine.text}' failed to start ({details}). Inspect host logs with `{seen.journalCommand invocationId seen.startedEpoch}`."

/-- What `confirm_start` remembers from round to round. -/
structure StartWait where
  lastObservation : String := "systemd unit properties unavailable"
  lastInvocationId : Option String := none

/-- One inspection: the start is decided, or there is something to remember. -/
def inspectStart (round : ℕ) (wait : StartWait) : Except StartConfirmation StartWait :=
  match seen.inspect round with
  | .error error => .ok { wait with lastObservation := error }
  | .ok properties =>
    let invocationId := (properties "InvocationID").filter validInvocationId
    let wait := { wait with lastInvocationId := invocationId <|> wait.lastInvocationId }
    match observeStart properties with
    | .started => .error .started
    | .failed details => .error (.failed (startFailureReason seen machine details invocationId))
    | .pending details => .ok (if details ≠ "" then { wait with lastObservation := details } else wait)

/-- The rounds of `confirm_start`. -/
def confirmStart : ℕ → ℕ → StartWait → Option StartConfirmation
  | _, 0, _ => none
  | round, rounds + 1, wait =>
    match inspectStart seen machine round wait with
    | .error confirmation => some confirmation
    | .ok wait =>
      if timeout ≤ seen.elapsed round then
        some (.outcomeUnknown (startFailureReason seen machine
          s!"start confirmation timed out after {seconds timeout}s; {wait.lastObservation}" wait.lastInvocationId))
      else confirmStart (round + 1) rounds wait

/-- The launch has been prepared and begun, so that its start is confirmed. -/
def Surroundings.begun : Bool := seen.preparation.isOk && seen.control.outcome = .succeeded

def Surroundings.answers (confirmation : StartConfirmation) : Answers := ⟨seen.preparation, seen.control, confirmation⟩

/-- The run of a launch. Where it has not been begun nothing is confirmed, and `run` does not look
at a confirmation. -/
def runLaunch (rounds : ℕ) (operation : MachineOperation) : Option MachineLifecycleResult :=
  if seen.begun then
    (confirmStart timeout seconds seen machine 0 rounds {}).map fun confirmation =>
      (operation.run (seen.answers confirmation)).1.result
  else some (operation.run (seen.answers .started)).1.result

/-- `begin_launch`, with the reservation that `begin_operation` asks for. -/
def beginOperation (image : ImageEntry) : Except MachineRejection MachineOperation :=
  match beginLaunch image none with
  | .error rejection => .error rejection
  | .ok request =>
    match seen.reserve request with
    | none => .error .busy
    | some reservation => .ok (request.operation reservation)

def ofResult : MachineLifecycleResult → Except MachineReadyError Unit
  | .succeeded => .ok ()
  | .notAttempted reason => .error (.notAttempted reason)
  | .rejected rejection reason => .error (.rejected rejection reason)
  | .failed reason => .error (.failed reason)
  | .outcomeUnknown reason => .error (.outcomeUnknown reason)

def launch (rounds : ℕ) (looks : List Look) (image : ImageEntry) : EnsureOutcome :=
  match beginOperation seen image with
  | .error rejection => ⟨some (.error (.rejected rejection (rejectionText rejection))), none, looks⟩
  | .ok operation => ⟨(runLaunch timeout seconds seen machine rounds operation).map ofResult, some operation, looks⟩

/-- The registrations are looked at twice before anything is started. -/
def ensureRunning (rounds : ℕ) : EnsureOutcome :=
  match machines (seen.catalog 0) with
  | .error error => ⟨some (.error (.observation error)), none, [.machines]⟩
  | .ok listed =>
    match find machine listed.value with
    | some entry => waitForRunning timeout seconds seen machine [.machines] 0 rounds entry
    | none =>
      match snapshot (seen.catalog 1) with
      | .error error => ⟨some (.error (.observation error)), none, [.machines, .snapshot]⟩
      | .ok shot =>
        match find machine shot.value.machines with
        | some entry => waitForRunning timeout seconds seen machine [.machines, .snapshot] 0 rounds entry
        | none =>
          match shot.value.images.find? (·.name = machine.text) with
          | none => ⟨some (.error (.notFound machine)), none, [.machines, .snapshot]⟩
          | some image => launch timeout seconds seen machine rounds [.machines, .snapshot] image

end Ready

/-! ## What a call comes to -/

section Results

variable {timeout : ℕ} {seconds : ℕ → String} {seen : Surroundings} {machine : MachineName}

/-- The query of that number shows the machine, in this state. -/
def Shows (seen : Surroundings) (machine : MachineName) (number : ℕ) (entry : MachineEntry) : Look → Prop
  | .machines => ∃ answer, machines (seen.catalog number) = .ok answer ∧ find machine answer.value = some entry
  | .snapshot => ∃ answer, snapshot (seen.catalog number) = .ok answer ∧
      find machine answer.value.machines = some entry

/-- The last of some queries shows the machine. -/
def LastShows (seen : Surroundings) (machine : MachineName) (looks : List Look) (entry : MachineEntry) : Prop :=
  ∃ before look, looks = before ++ [look] ∧ Shows seen machine before.length entry look

/-- A wait that succeeds has seen the machine run at its last query. -/
theorem waitForRunning_ok {looks : List Look} {round rounds : ℕ} {entry : MachineEntry}
    (hentry : LastShows seen machine looks entry)
    (h : (waitForRunning timeout seconds seen machine looks round rounds entry).result = some (.ok ())) :
    ∃ last, LastShows seen machine (waitForRunning timeout seconds seen machine looks round rounds entry).looks last ∧
      last.state = .running := by
  induction rounds generalizing looks round entry with
  | zero => cases h
  | succ rounds ih =>
    rw [waitForRunning] at h ⊢
    split at h
    · rename_i hrunning
      exact ⟨entry, hentry, hrunning⟩
    · split at h
      · cases h
      · rename_i hwaits
        rw [if_neg hwaits]
        split at h
        · cases h
        · rename_i query hquery
          split at h
          · cases h
          · rename_i found hfound
            exact ih ⟨looks, .machines, rfl, query, hquery, hfound⟩ h
    · cases h

theorem waitForRunning_launched (looks : List Look) (round rounds : ℕ) (entry : MachineEntry) :
    (waitForRunning timeout seconds seen machine looks round rounds entry).launched = none := by
  induction rounds generalizing looks round entry with
  | zero => rfl
  | succ rounds ih =>
    rw [waitForRunning]
    split
    · rfl
    · split
      · rfl
      · split
        · rfl
        · split
          · rfl
          · exact ih _ _ _
    · rfl

/-- While the clock advances with every round, a wait comes to its end. -/
theorem waitForRunning_returns {interval rounds round : ℕ} {looks : List Look} {entry : MachineEntry}
    (hclock : ∀ round, round * interval ≤ seen.elapsed round) (h : timeout ≤ (round + rounds) * interval) :
    (waitForRunning timeout seconds seen machine looks round (rounds + 1) entry).result.isSome = true := by
  induction rounds generalizing round entry looks with
  | zero =>
    rw [waitForRunning]
    split
    · rfl
    · rw [if_pos (h.trans (hclock round))]
      rfl
    · rfl
  | succ rounds ih =>
    rw [waitForRunning]
    split
    · rfl
    · split
      · rfl
      · split
        · rfl
        · split
          · rfl
          · apply ih
            rw [Nat.add_right_comm, Nat.add_assoc]
            exact h
    · rfl

/-- So does the confirmation of a start. -/
theorem confirmStart_returns {interval rounds round : ℕ} {wait : StartWait}
    (hclock : ∀ round, round * interval ≤ seen.elapsed round) (h : timeout ≤ (round + rounds) * interval) :
    (confirmStart timeout seconds seen machine round (rounds + 1) wait).isSome = true := by
  induction rounds generalizing round wait with
  | zero =>
    rw [confirmStart]
    split
    · rfl
    · rw [if_pos (h.trans (hclock round))]
      rfl
  | succ rounds ih =>
    rw [confirmStart]
    split
    · rfl
    · split
      · rfl
      · apply ih
        rw [Nat.add_right_comm, Nat.add_assoc]
        exact h

theorem inspectStart_started {round : ℕ} {wait : StartWait}
    (h : inspectStart seen machine round wait = .error .started) :
    ∃ properties, seen.inspect round = .ok properties ∧ properties "ActiveState" = some "active" := by
  unfold inspectStart at h
  split at h
  · cases h
  · rename_i properties hproperties
    refine ⟨properties, hproperties, ?_⟩
    have hactive : (properties "ActiveState").getD "" = "active" := by
      by_contra hnot
      simp only [observeStart, if_neg hnot] at h
      split_ifs at h
      all_goals cases h
    cases hstate : properties "ActiveState" with
    | none => simp [hstate] at hactive
    | some state => simpa [hstate] using hactive

/-- A start is confirmed by an inspection that shows the unit active. -/
theorem confirmStart_started {round rounds : ℕ} {wait : StartWait}
    (h : confirmStart timeout seconds seen machine round rounds wait = some .started) :
    ∃ inspection < round + rounds, ∃ properties, seen.inspect inspection = .ok properties ∧
      properties "ActiveState" = some "active" := by
  induction rounds generalizing round wait with
  | zero => cases h
  | succ rounds ih =>
    rw [confirmStart] at h
    split at h
    · rename_i confirmation hinspect
      cases h
      exact ⟨round, by omega, inspectStart_started hinspect⟩
    · split_ifs at h
      · cases h
      · obtain ⟨inspection, hlt, hactive⟩ := ih h
        exact ⟨inspection, by omega, hactive⟩

theorem begun_iff : seen.begun = true ↔ seen.preparation = .ok () ∧ seen.control.outcome = .succeeded := by
  unfold Surroundings.begun
  cases seen.preparation <;> simp [Except.isOk, Except.toBool]

/-- `run` looks at the confirmation of a launch only once it has been begun. -/
theorem run_unbegun {operation : MachineOperation} {name : ImageName} (hkind : operation.kind = .launch name)
    (h : seen.begun = false) (confirmation other : StartConfirmation) :
    operation.run (seen.answers confirmation) = operation.run (seen.answers other) := by
  cases hprepared : seen.preparation with
  | error error => simp only [MachineOperation.run, Surroundings.answers, hkind, hprepared]
  | ok _ =>
    have hcontrol : seen.control.outcome ≠ .succeeded := fun hsucceeded => by
      simp [begun_iff.mpr ⟨hprepared, hsucceeded⟩] at h
    simp only [MachineOperation.run, Surroundings.answers, hkind, hprepared, MachineOperation.finishControl]
    split
    · contradiction
    all_goals rfl

theorem launchTarget_ok {image : ImageEntry} {name : ImageName} {target : MachineName}
    (h : launchTarget image = .ok (name, target)) : target.text = image.name := by
  rw [launchTarget] at h
  split at h
  · cases h
  · split at h
    · cases h
    · rename_i accepted haccepted
      have hname : accepted.name = image.name := by
        rw [ImageName.new] at haccepted
        split at haccepted
        · cases haccepted
          rfl
        · cases haccepted
      split at h
      · cases h
      · rename_i found hfound
        cases h
        rw [MachineName.new] at hfound
        split at hfound
        · cases hfound
          exact hname
        · cases hfound

/-- An operation that is begun is a launch of the image, on the machine of its name. -/
theorem beginOperation_ok {image : ImageEntry} {operation : MachineOperation}
    (h : beginOperation seen image = .ok operation) :
    operation.machine.text = image.name ∧ ∃ name, operation.kind = .launch name := by
  rw [beginOperation] at h
  split at h
  · cases h
  · rename_i request hrequest
    split at h
    · cases h
    · cases h
      rw [beginLaunch] at hrequest
      cases htarget : launchTarget image with
      | error rejection =>
        rw [htarget] at hrequest
        cases hrequest
      | ok target =>
        rw [htarget] at hrequest
        cases hrequest
        exact ⟨launchTarget_ok htarget, _, rfl⟩

theorem find_none {entries : List MachineEntry} (h : find machine entries = none) :
    ∀ entry ∈ entries, entry.name ≠ machine.text := by
  intro entry hentry hname
  simpa [hname] using List.find?_eq_none.mp h entry hentry

/-- Both looks found no registration of the machine, and the second one its image. -/
def Stopped (seen : Surroundings) (machine : MachineName) (image : ImageEntry) : Prop :=
  ∃ listed shot, machines (seen.catalog 0) = .ok listed ∧ snapshot (seen.catalog 1) = .ok shot ∧
    (∀ entry ∈ listed.value ++ shot.value.machines, entry.name ≠ machine.text) ∧
    image ∈ shot.value.images ∧ image.name = machine.text

/-- What a call does: it fails without a launch, waits for a registered machine, or launches one
that is not. -/
theorem ensureRunning_cases (rounds : ℕ) :
    (∃ error looks, ensureRunning timeout seconds seen machine rounds = ⟨some (.error error), none, looks⟩) ∨
      (∃ looks entry, LastShows seen machine looks entry ∧
        ensureRunning timeout seconds seen machine rounds =
          waitForRunning timeout seconds seen machine looks 0 rounds entry) ∨
      ∃ image, Stopped seen machine image ∧
        ensureRunning timeout seconds seen machine rounds =
          launch timeout seconds seen machine rounds [.machines, .snapshot] image := by
  rw [ensureRunning]
  split
  · exact .inl ⟨_, _, rfl⟩
  · rename_i listed hlisted
    split
    · rename_i entry hentry
      exact .inr (.inl ⟨[.machines], entry, ⟨[], .machines, rfl, listed, hlisted, hentry⟩, rfl⟩)
    · rename_i hunlisted
      split
      · exact .inl ⟨_, _, rfl⟩
      · rename_i shot hshot
        split
        · rename_i entry hentry
          exact .inr (.inl ⟨_, entry, ⟨[.machines], .snapshot, rfl, shot, hshot, hentry⟩, rfl⟩)
        · rename_i hunregistered
          split
          · exact .inl ⟨_, _, rfl⟩
          · rename_i image himage
            refine .inr (.inr ⟨image, ⟨listed, shot, hlisted, hshot, fun entry hentry => ?_,
              List.mem_of_find?_eq_some himage, by simpa using List.find?_some himage⟩, rfl⟩)
            obtain hentry | hentry := List.mem_append.mp hentry
            · exact find_none hunlisted entry hentry
            · exact find_none hunregistered entry hentry

variable {rounds : ℕ} {looks : List Look} {image : ImageEntry}

theorem launch_launched {operation : MachineOperation}
    (h : (launch timeout seconds seen machine rounds looks image).launched = some operation) :
    beginOperation seen image = .ok operation ∧ launch timeout seconds seen machine rounds looks image =
      ⟨(runLaunch timeout seconds seen machine rounds operation).map ofResult, some operation, looks⟩ := by
  cases hbegin : beginOperation seen image with
  | error rejection =>
    rw [launch, hbegin] at h
    cases h
  | ok begun =>
    rw [launch, hbegin] at h ⊢
    cases h
    exact ⟨rfl, rfl⟩

theorem ofResult_ok {result : MachineLifecycleResult} (h : ofResult result = .ok ()) : result = .succeeded := by
  cases result with
  | succeeded => rfl
  | _ => cases h

theorem launch_ok (h : (launch timeout seconds seen machine rounds looks image).result = some (.ok ())) :
    ∃ operation, (launch timeout seconds seen machine rounds looks image).launched = some operation ∧
      runLaunch timeout seconds seen machine rounds operation = some .succeeded := by
  cases hbegin : beginOperation seen image with
  | error rejection =>
    rw [launch, hbegin] at h
    cases h
  | ok begun =>
    rw [launch, hbegin] at h ⊢
    obtain ⟨result, hresult, hok⟩ := Option.map_eq_some_iff.mp h
    exact ⟨begun, rfl, ofResult_ok hok ▸ hresult⟩

/-- The result of a launch that was begun is the one that was confirmed. -/
theorem run_begun {operation : MachineOperation} {name : ImageName} (hkind : operation.kind = .launch name)
    (h : seen.begun = true) (confirmation : StartConfirmation) :
    (operation.run (seen.answers confirmation)).1.result = (operation.confirmStart confirmation).1 := by
  obtain ⟨hprepared, hcontrol⟩ := begun_iff.mp h
  simp only [MachineOperation.run, Surroundings.answers, hkind, hprepared, hcontrol, MachineOperation.finishControl,
    MachineOperation.outcome]

/-- One that was not begun fails. -/
theorem run_unbegun_failed {operation : MachineOperation} {name : ImageName} (hkind : operation.kind = .launch name)
    (h : seen.begun = false) (confirmation : StartConfirmation) :
    (operation.run (seen.answers confirmation)).1.result ≠ .succeeded := by
  cases hprepared : seen.preparation with
  | error error =>
    simp only [MachineOperation.run, Surroundings.answers, hkind, hprepared, MachineOperation.refusePreparation,
      MachineOperation.outcome]
    split <;> simp
  | ok _ =>
    have hcontrol : seen.control.outcome ≠ .succeeded := fun hsucceeded => by
      simp [begun_iff.mpr ⟨hprepared, hsucceeded⟩] at h
    simp only [MachineOperation.run, Surroundings.answers, hkind, hprepared, MachineOperation.finishControl,
      MachineOperation.outcome]
    split
    · contradiction
    all_goals simp

/-- A launch succeeds only when it was prepared and begun, and an inspection then showed the unit
active. -/
theorem runLaunch_succeeded {operation : MachineOperation} {name : ImageName} (hkind : operation.kind = .launch name)
    (h : runLaunch timeout seconds seen machine rounds operation = some .succeeded) :
    seen.preparation = .ok () ∧ seen.control.outcome = .succeeded ∧
      ∃ inspection < rounds, ∃ properties, seen.inspect inspection = .ok properties ∧
        properties "ActiveState" = some "active" := by
  unfold runLaunch at h
  split_ifs at h with hbegun
  · obtain ⟨confirmation, hconfirmed, hresult⟩ := Option.map_eq_some_iff.mp h
    rw [run_begun hkind hbegun] at hresult
    obtain ⟨hprepared, hcontrol⟩ := begun_iff.mp hbegun
    cases confirmation with
    | started =>
      obtain ⟨inspection, hlt, hactive⟩ := confirmStart_started hconfirmed
      exact ⟨hprepared, hcontrol, inspection, by omega, hactive⟩
    | failed reason => cases hresult
    | outcomeUnknown reason => cases hresult
  · exact absurd (Option.some.inj h) (run_unbegun_failed hkind (by simpa using hbegun) _)

theorem runLaunch_returns {operation : MachineOperation} {interval : ℕ}
    (hclock : ∀ round, round * interval ≤ seen.elapsed round) (h : timeout ≤ rounds * interval) :
    (runLaunch timeout seconds seen machine (rounds + 1) operation).isSome = true := by
  unfold runLaunch
  split_ifs
  · rw [Option.isSome_map]
    exact confirmStart_returns hclock (by rwa [Nat.zero_add])
  · rfl

theorem ensureRunning_returns {interval : ℕ} (hclock : ∀ round, round * interval ≤ seen.elapsed round)
    (h : timeout ≤ rounds * interval) :
    (ensureRunning timeout seconds seen machine (rounds + 1)).result.isSome = true := by
  obtain ⟨error, looks, hcase⟩ | ⟨looks, entry, -, hcase⟩ | ⟨image, -, hcase⟩ :=
    @ensureRunning_cases timeout seconds seen machine (rounds + 1)
  · rw [hcase]
    rfl
  · rw [hcase]
    exact waitForRunning_returns hclock (by rwa [Nat.zero_add])
  · rw [hcase, launch]
    split
    · rfl
    · rw [Option.isSome_map]
      exact runLaunch_returns hclock h

/-- A call, whatever the ports answer in its course. It begins a launch only when neither look shows
the machine as registered, and reports what came of it; it succeeds only when its last query has
shown the machine running, or such a launch was begun and an inspection then showed its unit active;
and while the clock advances with every round, it comes to its end. -/
theorem ensureRunning_sound (timeout : ℕ) (seconds : ℕ → String) (seen : Surroundings) (machine : MachineName)
    (rounds : ℕ) :
    (∀ operation, (ensureRunning timeout seconds seen machine rounds).launched = some operation →
      (∃ image, Stopped seen machine image ∧ beginOperation seen image = .ok operation) ∧
        operation.machine.text = machine.text ∧
        (ensureRunning timeout seconds seen machine rounds).looks = [.machines, .snapshot] ∧
        (ensureRunning timeout seconds seen machine rounds).result =
          (runLaunch timeout seconds seen machine rounds operation).map ofResult ∧
        (seen.begun = false → ∀ confirmation, (ensureRunning timeout seconds seen machine rounds).result =
          some (ofResult (operation.run (seen.answers confirmation)).1.result))) ∧
    ((ensureRunning timeout seconds seen machine rounds).result = some (.ok ()) →
      (∃ entry, LastShows seen machine (ensureRunning timeout seconds seen machine rounds).looks entry ∧
        entry.state = .running) ∨
        ∃ operation, (ensureRunning timeout seconds seen machine rounds).launched = some operation ∧
          seen.preparation = .ok () ∧ seen.control.outcome = .succeeded ∧
          ∃ inspection < rounds, ∃ properties, seen.inspect inspection = .ok properties ∧
            properties "ActiveState" = some "active") ∧
    ∀ interval, (∀ round, round * interval ≤ seen.elapsed round) → timeout ≤ rounds * interval →
      (ensureRunning timeout seconds seen machine (rounds + 1)).result.isSome = true := by
  refine ⟨?_, ?_, fun interval hclock henough => ensureRunning_returns hclock henough⟩
  · intro operation hlaunched
    obtain ⟨error, looks, h⟩ | ⟨looks, entry, -, h⟩ | ⟨image, hstopped, h⟩ :=
      @ensureRunning_cases timeout seconds seen machine rounds
    · rw [h] at hlaunched
      cases hlaunched
    · rw [h, waitForRunning_launched] at hlaunched
      cases hlaunched
    · rw [h] at hlaunched ⊢
      obtain ⟨hbegin, hlaunch⟩ := launch_launched hlaunched
      have hname : image.name = machine.text := by
        obtain ⟨_, _, -, -, -, -, hname⟩ := hstopped
        exact hname
      obtain ⟨htext, name, hkind⟩ := beginOperation_ok hbegin
      rw [hlaunch]
      refine ⟨⟨image, hstopped, hbegin⟩, htext.trans hname, rfl, rfl, fun hunbegun confirmation => ?_⟩
      rw [runLaunch, if_neg (by simp [hunbegun]), run_unbegun hkind hunbegun .started confirmation]
      rfl
  · intro hok
    obtain ⟨error, looks, h⟩ | ⟨looks, entry, hshows, h⟩ | ⟨image, -, h⟩ :=
      @ensureRunning_cases timeout seconds seen machine rounds
    · rw [h] at hok
      cases hok
    · rw [h] at hok ⊢
      exact .inl (waitForRunning_ok hshows hok)
    · rw [h] at hok ⊢
      obtain ⟨operation, hlaunched, hsucceeded⟩ := launch_ok hok
      obtain ⟨-, name, hkind⟩ := beginOperation_ok (launch_launched hlaunched).1
      exact .inr ⟨operation, hlaunched, runLaunch_succeeded hkind hsucceeded⟩

theorem demo_valid : Provisioning.isValidNspawnHostname "demo" = true := by decide

/-- A machine that somebody else is starting; the third query shows it running. -/
def startingUp : Surroundings where
  catalog number := {
    primary := none
    fallback := {
      snapshotRoute := .localSystemdTools
      isAvailable := true
      listMachines := .ok [.optimisticNspawn "demo" (if number < 2 then .starting else .running)]
      snapshot := .error (.unavailable "no snapshot was asked for") } }
  elapsed round := 100 * round
  reserve _ := none
  preparation := .ok ()
  control := ⟨.notAttempted "no launch was asked for", .localSystemdTools, none⟩
  inspect _ := .error "no inspection was asked for"
  startedEpoch := 0
  journalCommand _ _ := "journalctl"

/-- With the timeout and the interval of the service, in milliseconds. -/
theorem ensureRunning_sound_waiting :
    (ensureRunning 30000 toString startingUp ⟨"demo", demo_valid⟩ 301).result.isSome = true ∧
      ∃ entry, LastShows startingUp ⟨"demo", demo_valid⟩
        (ensureRunning 30000 toString startingUp ⟨"demo", demo_valid⟩ 301).looks entry ∧ entry.state = .running := by
  obtain ⟨-, -, hreturns⟩ := ensureRunning_sound 30000 toString startingUp ⟨"demo", demo_valid⟩ 300
  obtain ⟨-, hsucceeds, -⟩ := ensureRunning_sound 30000 toString startingUp ⟨"demo", demo_valid⟩ 301
  refine ⟨hreturns 100 (fun round => Nat.le_of_eq (Nat.mul_comm round 100)) (Nat.le_refl _), ?_⟩
  obtain hshown | ⟨operation, hlaunched, -⟩ := hsucceeds rfl
  · exact hshown
  · cases hlaunched

end Results

end Lasper.Machines.Readiness
