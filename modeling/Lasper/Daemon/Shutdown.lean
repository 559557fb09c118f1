import Lasper.Jobs.Effects
import Lasper.Sessions.Ownership

/-! The gate of the daemon. A request is admitted with a lease, which its handler holds
until the session or the job that it starts is registered. Shutdown closes the gate,
waits until no lease is left, and then looks which jobs and sessions there are. The
waiter enables its notification before it looks at the counter. -/

namespace Lasper.Daemon

open Lib Jobs Sessions

structure RequestState where
  requested : Bool := false
  active : ℕ := 0

/-- What an admitted request asks for. -/
inductive Request
  | journalctl
  | terminal
  | submitDeployment
  | rpc
  deriving DecidableEq

def Request.startsSession : Request → Bool
  | .journalctl | .terminal => true
  | .submitDeployment | .rpc => false

/-- A handler with a lease. Its session is registered by a task on the blocking pool, which it awaits. -/
inductive Handler
  | running (request : Request)
  | registering (task : ℕ)
  | done
  deriving DecidableEq

def Handler.ended : Handler → Bool
  | .registering _ => false
  | .running _ | .done => true

/-- Where the main flow is. -/
inductive ServerPhase
  | serving
  | draining
  | enabled (notified : Bool)
  | waiting (notified : Bool)
  | drained
  | cancelling (jobs : List DeploymentId)
  | stopping (jobs : List DeploymentId) (processes : List SessionProcess)

/-- `notify_waiters` reaches a waiter that has been enabled. -/
def ServerPhase.notify : ServerPhase → ServerPhase
  | .enabled _ => .enabled true
  | .waiting _ => .waiting true
  | phase => phase

/-- Has the main flow found that no request is active? -/
def ServerPhase.hasDrained : ServerPhase → Bool
  | .drained | .cancelling _ | .stopping _ _ => true
  | _ => false

structure DaemonServerState where
  gate : RequestState := {}
  handlers : Table ℕ Handler := ∅
  admitted : ℕ := 0
  sessions : Sessions.World := {}
  jobs : Jobs.System := {}
  server : ServerPhase := .serving
  /-- The sessions that handlers have registered. -/
  registeredSessions : List (WireSessionId × SessionProcess) := []
  /-- The jobs that handlers have registered, and which registration the last one of an id was. -/
  registeredJobs : List (ℕ × DeploymentId) := []
  serials : DeploymentId → ℕ := fun _ => 0

inductive Action
  | begin
  | notifyBegun
  | admitting (request : Request)
  | drop (n : ℕ)
  | register (n : ℕ) (id : WireSessionId) (pid : ℕ)
  | capture (n : ℕ) (opened : Bool)
  | insert (n : ℕ)
  | session (action : Sessions.Action)
  | registerJob (n : ℕ) (requestId : DeploymentRequestId) (deploymentId : DeploymentId)
      (reserved : Except String ResourceReservation)
  | job (operation : Operation)
  | shutdown
  | enable
  | check
  | wake
  | cancelAll
  | takeProcesses

/-- Does an action call `begin`? -/
def Action.begins : Action → Bool
  | .begin | .shutdown => true
  | _ => false

/-- Is an action part of the registration of a session or of a job? -/
def Action.registers : Action → Bool
  | .register _ _ _ | .capture _ _ | .insert _ | .registerJob _ _ _ _ => true
  | _ => false

/-- The steps of a registration belong to a handler, the rest is done by anybody. -/
def registersSession : Sessions.Action → Bool
  | .register _ _ | .capture _ _ | .insert _ => true
  | _ => false

def registersJob : Operation → Bool
  | .register _ _ _ => true
  | _ => false

namespace DaemonServerState

/-- `begin` closes the gate and gives the lock back before it notifies. -/
def beginShutdown (s : DaemonServerState) : DaemonServerState := { s with gate := { s.gate with requested := true } }

def admitRequest (s : DaemonServerState) (request : Request) : DaemonServerState :=
  { s with
    gate := { s.gate with active := s.gate.active + 1 }
    handlers := s.handlers.insert s.admitted (.running request)
    admitted := s.admitted + 1 }

/-- The drop of an `ActiveRequest`. -/
def dropRequest (s : DaemonServerState) (n : ℕ) : DaemonServerState :=
  { s with
    gate := { s.gate with active := s.gate.active - 1 }
    handlers := s.handlers.erase n
    server := if s.gate.active - 1 = 0 then s.server.notify else s.server }

def setHandler (s : DaemonServerState) (n : ℕ) (handler : Handler) : DaemonServerState :=
  { s with handlers := s.handlers.insert n handler }

/-- The job table after a registration, and what the handler has registered. -/
def acceptJob (s : DaemonServerState) (deploymentId : DeploymentId) (jobs : Jobs.System) (accepted : Bool) :
    DaemonServerState :=
  if accepted then
    { s with
      jobs
      registeredJobs := (s.registeredJobs.length, deploymentId) :: s.registeredJobs
      serials := fun id => if id = deploymentId then s.registeredJobs.length else s.serials id }
  else { s with jobs }

end DaemonServerState

inductive Step : DaemonServerState → Action → DaemonServerState → Prop
  | begin {s : DaemonServerState} : Step s .begin s.beginShutdown
  | notifyBegun {s : DaemonServerState} (closed : s.gate.requested = true) :
      Step s .notifyBegun { s with server := s.server.notify }
  | refused {s : DaemonServerState} {request : Request} (closed : s.gate.requested = true) :
      Step s (.admitting request) s
  | admitted {s : DaemonServerState} {request : Request} (accepting : s.gate.requested = false) :
      Step s (.admitting request) (s.admitRequest request)
  | drop {s : DaemonServerState} {n : ℕ} {handler : Handler} (held : s.handlers.lookup n = some handler)
      (ended : handler.ended = true) : Step s (.drop n) (s.dropRequest n)
  | register {s : DaemonServerState} {n : ℕ} {request : Request} {id : WireSessionId} {pid : ℕ} {sessions : Sessions.World}
      (held : s.handlers.lookup n = some (.running request)) (starts : request.startsSession = true)
      (step : Sessions.Step s.sessions (.register id pid) sessions) :
      Step s (.register n id pid) ({ s with sessions }.setHandler n
        (if id ∈ s.sessions.registry.sessions then .done else .registering s.sessions.calls))
  | capture {s : DaemonServerState} {n task : ℕ} {opened : Bool} {sessions : Sessions.World}
      (held : s.handlers.lookup n = some (.registering task))
      (step : Sessions.Step s.sessions (.capture task opened) sessions) :
      Step s (.capture n opened) ({ s with sessions }.setHandler n (if opened then .registering task else .done))
  | insert {s : DaemonServerState} {n task : ℕ} {id : WireSessionId} {process : SessionProcess} {sessions : Sessions.World}
      (held : s.handlers.lookup n = some (.registering task))
      (captured : s.sessions.tasks task = some (.captured id process))
      (step : Sessions.Step s.sessions (.insert task) sessions) :
      Step s (.insert n) ({ s with
        sessions
        registeredSessions := if id ∈ s.sessions.registry.sessions then s.registeredSessions
          else (id, process) :: s.registeredSessions }.setHandler n .done)
  | session {s : DaemonServerState} {action : Sessions.Action} {sessions : Sessions.World}
      (others : registersSession action = false) (step : Sessions.Step s.sessions action sessions) :
      Step s (.session action) { s with sessions }
  | registerJob {s : DaemonServerState} {n : ℕ} {requestId : DeploymentRequestId} {deploymentId : DeploymentId}
      {reserved : Except String ResourceReservation} {jobs : Jobs.System}
      (held : s.handlers.lookup n = some (.running .submitDeployment))
      (step : System.Step s.jobs (.register requestId deploymentId reserved) jobs) :
      Step s (.registerJob n requestId deploymentId reserved)
        ((s.acceptJob deploymentId jobs
          (Jobs.register requestId deploymentId reserved s.jobs.registry).1.isOk).setHandler n .done)
  | job {s : DaemonServerState} {operation : Operation} {jobs : Jobs.System}
      (others : registersJob operation = false) (step : System.Step s.jobs operation jobs) :
      Step s (.job operation) { s with jobs }
  | shutdown {s : DaemonServerState} (serving : s.server = .serving) :
      Step s .shutdown { s.beginShutdown with server := .draining }
  | enable {s : DaemonServerState} (draining : s.server = .draining) :
      Step s .enable { s with server := .enabled false }
  | check {s : DaemonServerState} {notified : Bool} (enabled : s.server = .enabled notified) :
      Step s .check { s with server := if s.gate.active = 0 then .drained else .waiting notified }
  | wake {s : DaemonServerState} (waiting : s.server = .waiting true) : Step s .wake { s with server := .draining }
  | cancelAll {s : DaemonServerState} (drained : s.server = .drained) :
      Step s .cancelAll { s with server := .cancelling s.jobs.registry.jobs.keys }
  | takeProcesses {s : DaemonServerState} {jobs : List DeploymentId} (cancelling : s.server = .cancelling jobs) :
      Step s .takeProcesses { s with server := .stopping jobs s.sessions.registry.processes }

section Gate

variable {s t : DaemonServerState} {action : Action} {actions : List Action}

/-- The counter counts the leases, and the main flow only goes on when there are none. -/
structure Gated (s : DaemonServerState) : Prop where
  counted : s.gate.active = s.handlers.len
  fresh : ∀ n, s.admitted ≤ n → n ∉ s.handlers
  closed : s.server.hasDrained = true → s.gate.requested = true ∧ s.handlers.len = 0
  requested : s.server = .draining ∨ (∃ notified, s.server = .enabled notified ∨ s.server = .waiting notified) →
    s.gate.requested = true
  awake : s.server = .waiting false → 0 < s.handlers.len

theorem Gated.start : Gated {} := by
  constructor
  · rfl
  · intro n _ hmem
    cases hmem
  · intro hdrained
    cases hdrained
  · rintro (hphase | ⟨notified, hphase | hphase⟩) <;> cases hphase
  · intro hwaiting
    cases hwaiting

theorem ServerPhase.notify_hasDrained (phase : ServerPhase) : phase.notify.hasDrained = phase.hasDrained := by
  cases phase <;> rfl

theorem ServerPhase.notify_ne_waiting (phase : ServerPhase) : phase.notify ≠ .waiting false := by
  cases phase <;> simp [notify]

/-- Being notified does not take the main flow to another place. -/
theorem ServerPhase.notify_waits {phase : ServerPhase}
    (h : phase.notify = .draining ∨ ∃ notified, phase.notify = .enabled notified ∨ phase.notify = .waiting notified) :
    phase = .draining ∨ ∃ notified, phase = .enabled notified ∨ phase = .waiting notified := by
  cases phase <;> simp [notify] at h ⊢

theorem Gated.notify (h : Gated s) (hcounted : t.gate.active = t.handlers.len)
    (hfresh : ∀ n, t.admitted ≤ n → n ∉ t.handlers) (hrequested : s.gate.requested = true → t.gate.requested = true)
    (hlen : t.handlers.len ≤ s.handlers.len) (hserver : t.server = s.server.notify) : Gated t where
  counted := hcounted
  fresh := hfresh
  closed hdrained := by
    rw [hserver, ServerPhase.notify_hasDrained] at hdrained
    obtain ⟨hclosed, hnone⟩ := h.closed hdrained
    exact ⟨hrequested hclosed, by omega⟩
  requested hphase := by
    rw [hserver] at hphase
    exact hrequested (h.requested (ServerPhase.notify_waits hphase))
  awake hwaiting := by
    rw [hserver] at hwaiting
    exact absurd hwaiting s.server.notify_ne_waiting

/-- A step that changes neither the gate, nor the number of leases, nor the main flow. -/
theorem Gated.of_handler (h : Gated s) {n : ℕ} {old new : Handler} (hn : s.handlers.lookup n = some old)
    (hgate : t.gate = s.gate) (hhandlers : t.handlers = s.handlers.insert n new) (hadmitted : t.admitted = s.admitted)
    (hserver : t.server = s.server) : Gated t := by
  have hmem : n ∈ s.handlers := Table.mem_of_lookup hn
  have hlen : t.handlers.len = s.handlers.len := by
    rw [hhandlers]
    exact Table.len_insert_of_mem hmem new
  constructor
  · rw [hgate, hlen]
    exact h.counted
  · intro m hm hin
    rw [hadmitted] at hm
    rw [hhandlers] at hin
    rcases (AList.mem_insert s.handlers).mp hin with heq | hold
    · exact h.fresh m hm (heq ▸ hmem)
    · exact h.fresh m hm hold
  · rw [hserver, hgate, hlen]
    exact h.closed
  · rw [hserver, hgate]
    exact h.requested
  · rw [hserver, hlen]
    exact h.awake

theorem Gated.of_same (h : Gated s) (hgate : t.gate = s.gate) (hhandlers : t.handlers = s.handlers)
    (hadmitted : t.admitted = s.admitted) (hserver : t.server = s.server) : Gated t := by
  constructor
  · rw [hgate, hhandlers]
    exact h.counted
  · rw [hadmitted, hhandlers]
    exact h.fresh
  · rw [hserver, hgate, hhandlers]
    exact h.closed
  · rw [hserver, hgate]
    exact h.requested
  · rw [hserver, hhandlers]
    exact h.awake

theorem Step.gated (hs : Step s action t) (h : Gated s) : Gated t := by
  cases hs with
  | begin =>
    refine ⟨h.counted, h.fresh, ?_, fun _ => rfl, h.awake⟩
    intro hdrained
    exact ⟨rfl, (h.closed hdrained).2⟩
  | notifyBegun => exact h.notify h.counted h.fresh (fun hclosed => hclosed) (le_refl _) rfl
  | refused => exact h
  | @admitted request accepting =>
    have hnew : s.admitted ∉ s.handlers := h.fresh s.admitted (le_refl _)
    have hlen : Table.len (s.handlers.insert s.admitted (.running request)) = s.handlers.len + 1 :=
      Table.len_insert_of_notMem hnew _
    have hopen : s.server = .serving := by
      have hclosed := h.closed
      have hrequested := h.requested
      rw [accepting] at hclosed hrequested
      cases hserver : s.server with
      | serving => rfl
      | draining => simp [hserver] at hrequested
      | enabled notified => simp [hserver] at hrequested
      | waiting notified => simp [hserver] at hrequested
      | drained => simp [hserver, ServerPhase.hasDrained] at hclosed
      | cancelling jobs => simp [hserver, ServerPhase.hasDrained] at hclosed
      | stopping jobs processes => simp [hserver, ServerPhase.hasDrained] at hclosed
    constructor
    · show s.gate.active + 1 = _
      rw [h.counted]
      exact hlen.symm
    · intro n hn hmem
      have hn : s.admitted + 1 ≤ n := hn
      rcases (AList.mem_insert s.handlers).mp hmem with heq | hold
      · omega
      · exact h.fresh n (by omega) hold
    · intro hdrained
      have hserver : (s.admitRequest request).server = .serving := hopen
      rw [hserver] at hdrained
      cases hdrained
    · intro hphase
      have hserver : (s.admitRequest request).server = .serving := hopen
      rw [hserver] at hphase
      rcases hphase with hphase | ⟨notified, hphase | hphase⟩ <;> cases hphase
    · intro hwaiting
      have hserver : (s.admitRequest request).server = .serving := hopen
      rw [hserver] at hwaiting
      cases hwaiting
  | @drop n handler held ended =>
    have hmem : n ∈ s.handlers := Table.mem_of_lookup held
    have hlen : Table.len (s.handlers.erase n) + 1 = s.handlers.len := Table.len_erase_of_mem hmem
    have hcounted : s.gate.active - 1 = Table.len (s.handlers.erase n) := by
      rw [h.counted]
      omega
    have hfresh : ∀ m, s.admitted ≤ m → m ∉ s.handlers.erase n := by
      intro m hm hin
      exact h.fresh m hm (AList.mem_erase.mp hin).2
    by_cases hlast : s.gate.active - 1 = 0
    · exact h.notify hcounted hfresh (fun hclosed => hclosed) (by show Table.len (s.handlers.erase n) ≤ _; omega)
        (if_pos hlast)
    · have hserver : (s.dropRequest n).server = s.server := if_neg hlast
      constructor
      · exact hcounted
      · exact hfresh
      · intro hdrained
        rw [hserver] at hdrained
        obtain ⟨hclosed, hnone⟩ := h.closed hdrained
        omega
      · rw [hserver]
        exact h.requested
      · intro _
        show 0 < Table.len (s.handlers.erase n)
        omega
  | register held => exact h.of_handler held rfl rfl rfl rfl
  | capture held => exact h.of_handler held rfl rfl rfl rfl
  | insert held => exact h.of_handler held rfl rfl rfl rfl
  | session => exact h.of_same rfl rfl rfl rfl
  | registerJob held =>
    apply h.of_handler held
    · unfold DaemonServerState.acceptJob
      split <;> rfl
    · unfold DaemonServerState.acceptJob
      split <;> rfl
    · unfold DaemonServerState.acceptJob
      split <;> rfl
    · unfold DaemonServerState.acceptJob
      split <;> rfl
  | job => exact h.of_same rfl rfl rfl rfl
  | shutdown serving =>
    refine ⟨h.counted, h.fresh, ?_, ?_, ?_⟩
    · intro hdrained
      cases hdrained
    · exact fun _ => rfl
    · intro hwaiting
      cases hwaiting
  | enable draining =>
    have hrequested := h.requested (.inl draining)
    refine ⟨h.counted, h.fresh, ?_, ?_, ?_⟩
    · intro hdrained
      cases hdrained
    · exact fun _ => hrequested
    · intro hwaiting
      cases hwaiting
  | @check notified enabled =>
    have hrequested := h.requested (.inr ⟨notified, .inl enabled⟩)
    refine ⟨h.counted, h.fresh, ?_, ?_, ?_⟩
    · intro hdrained
      dsimp only at hdrained
      split_ifs at hdrained with hnone
      · exact ⟨hrequested, by rw [← h.counted]; exact hnone⟩
      · cases hdrained
    · exact fun _ => hrequested
    · intro hwaiting
      dsimp only at hwaiting
      split_ifs at hwaiting with hnone
      rw [← h.counted]
      exact Nat.pos_of_ne_zero hnone
  | wake waiting =>
    have hrequested := h.requested (.inr ⟨true, .inr waiting⟩)
    refine ⟨h.counted, h.fresh, ?_, ?_, ?_⟩
    · intro hdrained
      cases hdrained
    · exact fun _ => hrequested
    · intro hwaiting
      cases hwaiting
  | cancelAll drained =>
    have hclosed := h.closed (by rw [drained]; rfl)
    refine ⟨h.counted, h.fresh, fun _ => hclosed, fun _ => hclosed.1, ?_⟩
    intro hwaiting
    cases hwaiting
  | takeProcesses cancelling =>
    have hclosed := h.closed (by rw [cancelling]; rfl)
    refine ⟨h.counted, h.fresh, fun _ => hclosed, fun _ => hclosed.1, ?_⟩
    intro hwaiting
    cases hwaiting

theorem run_gated (h : Run Step {} actions s) : Gated s := h.invariant .start fun _ _ _ hg hs => hs.gated hg

end Gate

end Lasper.Daemon
