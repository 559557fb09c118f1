import Lasper.Daemon.Shutdown

/-! What the daemon finds when no lease is left. Every session that a handler registered
is in the registry or has ended, every job is in the job table or has finished, and
nothing more is registered. -/

namespace Lasper.Daemon

open Lib Jobs Sessions

section Sessions

variable {w w' : Sessions.World} {a : Sessions.Action}

theorem exited_mono (h : Sessions.Step w a w') {pidfd : ℕ} (hexited : pidfd ∈ w.exited) : pidfd ∈ w'.exited := by
  cases a with
  | exit other =>
    cases h
    exact List.mem_cons_of_mem other hexited
  | _ =>
    simp only [Sessions.Step, Sessions.step] at h
    repeat' split at h
    all_goals cases h
    all_goals exact hexited

/-- A close removes a handle only when it has seen that its process is gone. -/
def StaleExited (w : Sessions.World) : Prop :=
  ∀ task id process, w.tasks task = some (.closing .stale id process) → process.pidfd ∈ w.exited

theorem StaleExited.step (h : StaleExited w) (hs : Sessions.Step w a w') : StaleExited w' := by
  intro task id process htask
  cases step_tasks hs htask with
  | inl hold => exact exited_mono hs (h task id process hold)
  | inr hadvanced =>
    cases hadvanced with
    | stale hclosing =>
      have hgone : process.pidfd ∈ w.exited := by
        by_contra halive
        simp only [Sessions.Step, Sessions.step] at hs
        split at hs
        · rename_i other current hfound
          rw [hclosing] at hfound
          cases hfound
          cases hs
          simp [Sessions.World.revalidateProcess, halive, Sessions.World.moveTo, Sessions.World.setTask] at htask
        · rename_i other current hfound
          rw [hclosing] at hfound
          cases hfound
          cases hs
          simp [Sessions.World.revalidateProcess, halive, Sessions.World.moveTo, Sessions.World.setTask] at htask
        · cases hs
      exact exited_mono hs hgone

/-- The reaper of a session has finished, or its process has exited. -/
def SessionEnded (w : Sessions.World) (process : SessionProcess) : Prop :=
  process.pidfd ∈ w.registry.completed ∨ process.pidfd ∈ w.exited

theorem SessionEnded.step {process : SessionProcess} (h : SessionEnded w process) (hs : Sessions.Step w a w') :
    SessionEnded w' process :=
  h.imp (completed_mono hs) (exited_mono hs)

/-- A registered session stays registered until it has ended. -/
theorem registered_step {id : WireSessionId} {process : SessionProcess} (hstale : StaleExited w)
    (hs : Sessions.Step w a w') (hl : w.registry.sessions.lookup id = some process) :
    w'.registry.sessions.lookup id = some process ∨ SessionEnded w' process := by
  cases entry_of_step hs hl with
  | inl hkept => exact .inl hkept
  | inr hgone =>
    rcases hgone.2 with rfl | ⟨task, rfl, htask⟩
    · cases hs
      have hcurrent : w.registry.isCurrent id process = true := isCurrent_iff.mpr hl
      apply Or.inr
      apply Or.inl
      simp [SessionRegistry.finish, hcurrent]
    · exact .inr (.inr (exited_mono hs (hstale task id process htask)))

end Sessions

section Steps

variable {s t : DaemonServerState} {action : Action}

/-- What a step does to the sessions. -/
theorem Step.sessions (hs : Step s action t) :
    (t.sessions = s.sessions ∧ t.registeredSessions = s.registeredSessions) ∨
    ∃ a, Sessions.Step s.sessions a t.sessions ∧
      (t.registeredSessions = s.registeredSessions ∨
        ∃ id process, t.sessions.registry.sessions.lookup id = some process ∧
          t.registeredSessions = (id, process) :: s.registeredSessions) := by
  cases hs with
  | register held starts step => exact .inr ⟨_, step, .inl rfl⟩
  | capture held step => exact .inr ⟨_, step, .inl rfl⟩
  | @insert n task id process sessions held captured step =>
    refine .inr ⟨_, step, ?_⟩
    by_cases hmem : id ∈ s.sessions.registry.sessions
    · exact .inl (if_pos hmem)
    · apply Or.inr
      use id, process
      constructor
      · simp only [Sessions.Step, Sessions.step, captured] at step
        cases step
        simp [DaemonServerState.setHandler, SessionRegistry.insert, hmem]
      · exact if_neg hmem
  | session others step => exact .inr ⟨_, step, .inl rfl⟩
  | registerJob held step =>
    apply Or.inl
    unfold DaemonServerState.acceptJob
    split <;> exact ⟨rfl, rfl⟩
  | _ => exact .inl ⟨rfl, rfl⟩

/-- What a step does to the jobs. -/
theorem Step.jobs (hs : Step s action t) :
    (t.jobs = s.jobs ∧ t.registeredJobs = s.registeredJobs ∧ t.serials = s.serials) ∨
    ∃ op, System.Step s.jobs op t.jobs ∧
      ((t.registeredJobs = s.registeredJobs ∧ t.serials = s.serials) ∨
        ∃ requestId id reserved, op = .register requestId id reserved ∧
          (Jobs.register requestId id reserved s.jobs.registry).1 = .ok () ∧
          t.registeredJobs = (s.registeredJobs.length, id) :: s.registeredJobs ∧
          ∀ other, t.serials other = if other = id then s.registeredJobs.length else s.serials other) := by
  cases hs with
  | @registerJob n requestId id reserved jobs held step =>
    cases hresult : (Jobs.register requestId id reserved s.jobs.registry).1 with
    | ok =>
      exact .inr ⟨_, step, .inr ⟨requestId, id, reserved, rfl, hresult, rfl, fun other => rfl⟩⟩
    | error failure => exact .inr ⟨_, step, .inl ⟨rfl, rfl⟩⟩
  | job others step => exact .inr ⟨_, step, .inl ⟨rfl, rfl⟩⟩
  | _ => exact .inl ⟨rfl, rfl, rfl⟩

end Steps

section Accounted

variable {s t : DaemonServerState} {action : Action} {actions : List Action}

/-- Every session that a handler registered is in the registry or has ended. -/
structure SessionsKept (s : DaemonServerState) : Prop where
  stale : StaleExited s.sessions
  registered : ∀ id process, (id, process) ∈ s.registeredSessions →
    s.sessions.registry.sessions.lookup id = some process ∨ SessionEnded s.sessions process

theorem SessionsKept.start : SessionsKept {} := by
  constructor
  · intro task id process htask
    cases htask
  · intro id process hmem
    cases hmem

theorem SessionsKept.step (h : SessionsKept s) (hs : Step s action t) : SessionsKept t := by
  rcases hs.sessions with ⟨hsame, hnone⟩ | ⟨a, hstep, hnew⟩
  · constructor
    · rw [hsame]
      exact h.stale
    · rw [hsame, hnone]
      exact h.registered
  · have hkept : ∀ id process, (id, process) ∈ s.registeredSessions →
        t.sessions.registry.sessions.lookup id = some process ∨ SessionEnded t.sessions process := by
      intro id process hmem
      cases h.registered id process hmem with
      | inl hl => exact registered_step h.stale hstep hl
      | inr hended => exact .inr (hended.step hstep)
    constructor
    · exact h.stale.step hstep
    · intro id process hmem
      rcases hnew with hsame | ⟨newId, newProcess, hl, hcons⟩
      · rw [hsame] at hmem
        exact hkept id process hmem
      · rw [hcons] at hmem
        cases hmem with
        | head => exact .inl hl
        | tail _ hold => exact hkept id process hold

/-- The `k`th job that a handler registered was finished at some point of the run. -/
def JobFinished (k : ℕ) (id : DeploymentId) (actions : List Action) : Prop :=
  Occurred Step {} actions fun _ u _ =>
    u.serials id = k ∧ ∃ job, u.jobs.registry.jobs.lookup id = some job ∧ job.status.isFinished = true

/-- Every job that a handler registered is in the job table or has finished. -/
structure JobsKept (actions : List Action) (s : DaemonServerState) : Prop where
  consistent : Consistent s.jobs.registry
  registered : ∀ k id, (k, id) ∈ s.registeredJobs →
    (id ∈ s.jobs.registry.jobs ∧ s.serials id = k) ∨ JobFinished k id actions

theorem JobsKept.start : JobsKept [] {} := by
  constructor
  · exact consistent_empty
  · intro k id hmem
    cases hmem

/-- An operation on the job table removes only jobs that have finished. -/
theorem removed_finished {jobs jobs' : Jobs.System} {op : Operation} {id : DeploymentId}
    (hc : Consistent jobs.registry) (hs : System.Step jobs op jobs') (hmem : id ∈ jobs.registry.jobs) :
    id ∈ jobs'.registry.jobs ∨ ∃ job, jobs.registry.jobs.lookup id = some job ∧ job.status.isFinished = true := by
  obtain ⟨job, hl⟩ := Table.lookup_of_mem hmem
  cases hs with
  | mk enabled =>
    rcases op.apply_job id jobs.registry with hsame | ⟨old, hold, hpinned, -⟩ | ⟨old, new, -, hnew, -⟩ | ⟨hnone, -⟩
    · rw [hl] at hsame
      exact .inl (Table.mem_of_lookup hsame)
    · have hheld : old.claim ≠ .held := by
        intro hclaim
        exact hpinned (.inl hclaim)
      exact .inr ⟨old, hold, (hc.job id old hold).finished_iff.mpr hheld⟩
    · exact .inl (Table.mem_of_lookup hnew)
    · rw [hl] at hnone
      cases hnone

theorem register_new {requestId : DeploymentRequestId} {id : DeploymentId} {registry : DeploymentRegistry}
    {reserved : Except String ResourceReservation} (h : (Jobs.register requestId id reserved registry).1 = .ok ()) :
    id ∉ registry.jobs := by
  intro hmem
  unfold Jobs.register at h
  split at h
  · cases h
  · split_ifs at h

theorem register_present {requestId : DeploymentRequestId} {id : DeploymentId} {jobs jobs' : Jobs.System}
    {reserved : Except String ResourceReservation} (hs : System.Step jobs (.register requestId id reserved) jobs')
    (h : (Jobs.register requestId id reserved jobs.registry).1 = .ok ()) : id ∈ jobs'.registry.jobs := by
  cases hs with
  | mk enabled =>
    obtain ⟨⟨job, hl, -⟩, -⟩ := register_ok (Prod.ext h rfl)
    exact Table.mem_of_lookup hl

theorem JobsKept.step (hrun : Run Step {} actions s) (h : JobsKept actions s) (hs : Step s action t) :
    JobsKept (actions ++ [action]) t := by
  rcases hs.jobs with ⟨hsame, hnone, hserials⟩ | ⟨op, hstep, hnew⟩
  · constructor
    · rw [hsame]
      exact h.consistent
    · intro k id hmem
      rw [hnone] at hmem
      rw [hsame, hserials]
      exact (h.registered k id hmem).imp_right fun hfinished => hfinished.snoc action
  · constructor
    · exact hstep.consistent h.consistent
    · have hkept : ∀ k id, (k, id) ∈ s.registeredJobs →
          (id ∈ s.jobs.registry.jobs ∧ id ∈ t.jobs.registry.jobs ∧ s.serials id = k) ∨
            JobFinished k id (actions ++ [action]) := by
        intro k id hmem
        cases h.registered k id hmem with
        | inr hfinished => exact .inr (hfinished.snoc action)
        | inl hl =>
          obtain ⟨hpresent, hserial⟩ := hl
          cases removed_finished h.consistent hstep hpresent with
          | inl hstays => exact .inl ⟨hpresent, hstays, hserial⟩
          | inr hfinished => exact .inr (hrun.occurs ⟨hserial, hfinished⟩)
      intro k id hmem
      rcases hnew with ⟨hsame, hserials⟩ | ⟨requestId, newId, reserved, rfl, hok, hcons, hserials⟩
      · rw [hsame] at hmem
        rw [hserials]
        exact (hkept k id hmem).imp_left fun hl => ⟨hl.2.1, hl.2.2⟩
      · have hfresh : newId ∉ s.jobs.registry.jobs := register_new hok
        rw [hcons] at hmem
        rw [hserials]
        cases hmem with
        | head =>
          exact .inl ⟨register_present hstep hok, if_pos rfl⟩
        | tail _ hold =>
          cases hkept k id hold with
          | inr hfinished => exact .inr hfinished
          | inl hl =>
            obtain ⟨hpresent, hstays, hserial⟩ := hl
            have hne : id ≠ newId := by
              intro heq
              exact hfresh (heq ▸ hpresent)
            exact .inl ⟨hstays, by rw [if_neg hne, hserial]⟩

theorem run_sessions (h : Run Step {} actions s) : SessionsKept s :=
  h.invariant .start fun _ _ _ hkept hs => hkept.step hs

theorem run_jobs (h : Run Step {} actions s) : JobsKept actions s := by
  have hkept : Run Step {} actions s ∧ JobsKept actions s := by
    apply h.history ⟨.nil, .start⟩
    intro before u a v hI hs
    exact ⟨.snoc hI.1 hs, hI.2.step hI.1 hs⟩
  exact hkept.2

end Accounted

section Drained

variable {s t : DaemonServerState} {action : Action} {actions : List Action}

/-- With no lease left there is no handler to do a step of a registration. -/
theorem lookup_of_drained (hnone : s.handlers.len = 0) (n : ℕ) : s.handlers.lookup n = none := by
  rw [AList.lookup_eq_none]
  intro hmem
  have hlen := Table.len_erase_of_mem hmem
  omega

theorem Step.registers_of_drained (hs : Step s action t) (hnone : s.handlers.len = 0) : action.registers = false := by
  have hempty := lookup_of_drained hnone
  cases hs with
  | register held => simp [hempty] at held
  | capture held => simp [hempty] at held
  | insert held => simp [hempty] at held
  | registerJob held => simp [hempty] at held
  | _ => rfl

/-- The main flow does not go back. -/
theorem Step.hasDrained (hs : Step s action t) (h : s.server.hasDrained = true) : t.server.hasDrained = true := by
  cases hs with
  | begin => exact h
  | notifyBegun =>
    show s.server.notify.hasDrained = true
    rw [ServerPhase.notify_hasDrained]
    exact h
  | refused => exact h
  | admitted => exact h
  | drop =>
    unfold DaemonServerState.dropRequest
    dsimp only
    split_ifs
    · rw [ServerPhase.notify_hasDrained]
      exact h
    · exact h
  | register => exact h
  | capture => exact h
  | insert => exact h
  | session => exact h
  | registerJob =>
    unfold DaemonServerState.acceptJob
    split <;> exact h
  | job => exact h
  | shutdown serving =>
    rw [serving] at h
    cases h
  | enable draining =>
    rw [draining] at h
    cases h
  | check enabled =>
    rw [enabled] at h
    cases h
  | wake waiting =>
    rw [waiting] at h
    cases h
  | cancelAll => rfl
  | takeProcesses => rfl

theorem registers_after {later : List Action} (h : Run Step s later t) (hg : Gated s)
    (hdrained : s.server.hasDrained = true) : ∀ a ∈ later, a.registers = false := by
  have hall : (Gated t ∧ t.server.hasDrained = true) ∧ ∀ a ∈ later, a.registers = false := by
    apply h.history
    · exact ⟨⟨hg, hdrained⟩, by simp⟩
    · intro before u a v hI hs
      obtain ⟨⟨hgated, hphase⟩, hbefore⟩ := hI
      have hnone : u.handlers.len = 0 := (hgated.closed hphase).2
      refine ⟨⟨hs.gated hgated, hs.hasDrained hphase⟩, ?_⟩
      intro b hb
      rw [List.mem_append, List.mem_singleton] at hb
      rcases hb with hold | rfl
      · exact hbefore b hold
      · exact hs.registers_of_drained hnone
  exact hall.2

theorem Step.requested (hs : Step s action t) (h : action.begins = true ∨ s.gate.requested = true) :
    t.gate.requested = true := by
  cases hs with
  | begin => rfl
  | shutdown => rfl
  | refused closed => exact closed
  | notifyBegun closed => exact closed
  | registerJob =>
    unfold DaemonServerState.acceptJob
    rcases h with h | h
    · cases h
    · split <;> exact h
  | _ =>
    rcases h with h | h
    · cases h
    · exact h

/-- Once `begin` has been called the gate is closed. -/
theorem requested_of_run (h : Run Step {} actions s) (hbegun : ∃ a ∈ actions, a.begins = true) :
    s.gate.requested = true := by
  have hkept : (∃ a ∈ actions, a.begins = true) → s.gate.requested = true := by
    apply h.history (I := fun actions s => (∃ a ∈ actions, a.begins = true) → s.gate.requested = true)
    · intro hnone
      simp at hnone
    · intro before u a v hI hs hmem
      apply hs.requested
      obtain ⟨b, hb, hbegins⟩ := hmem
      rw [List.mem_append, List.mem_singleton] at hb
      rcases hb with hold | rfl
      · exact .inr (hI ⟨b, hold, hbegins⟩)
      · exact .inl hbegins
  exact hkept hbegun

/-- In every run: after the first `begin` no request is admitted; the counter is the number of leases,
and a drop takes one off it; who waits for a notification waits for a lease; and when the snapshots are
taken there is no lease, what handlers have registered is in them or has finished, and no step of a
registration follows. -/
theorem shutdown_drains (h : Run Step {} actions s) :
    ((∃ a ∈ actions, a.begins = true) → ∀ request t, Step s (.admitting request) t → t = s) ∧
    s.gate.active = s.handlers.len ∧
    (∀ n t, Step s (.drop n) t → 0 < s.gate.active ∧ t.gate.active + 1 = s.gate.active) ∧
    (s.server = .waiting false → 0 < s.handlers.len) ∧
    (∀ t, Step s .cancelAll t → s.handlers.len = 0 ∧ ∃ jobs, t.server = .cancelling jobs ∧
      ∀ k id, (k, id) ∈ s.registeredJobs → (id ∈ jobs ∧ s.serials id = k) ∨ JobFinished k id actions) ∧
    (∀ t, Step s .takeProcesses t → s.handlers.len = 0 ∧ ∃ jobs processes, t.server = .stopping jobs processes ∧
      ∀ id process, (id, process) ∈ s.registeredSessions →
        process ∈ processes ∨ SessionEnded s.sessions process) ∧
    (s.server.hasDrained = true → ∀ later t, Run Step s later t → ∀ a ∈ later, a.registers = false) := by
  have hg := run_gated h
  refine ⟨?_, hg.counted, ?_, hg.awake, ?_, ?_, ?_⟩
  · intro hbegun request t hs
    have hclosed := requested_of_run h hbegun
    cases hs with
    | refused => rfl
    | admitted accepting =>
      rw [hclosed] at accepting
      cases accepting
  · intro n t hs
    cases hs with
    | drop held =>
      have hlen := Table.len_erase_of_mem (Table.mem_of_lookup held)
      have hcounted := hg.counted
      constructor
      · omega
      · show s.gate.active - 1 + 1 = s.gate.active
        omega
  · intro t hs
    cases hs with
    | cancelAll drained =>
      refine ⟨(hg.closed (by rw [drained]; rfl)).2, _, rfl, ?_⟩
      exact (run_jobs h).registered
  · intro t hs
    cases hs with
    | takeProcesses cancelling =>
      refine ⟨(hg.closed (by rw [cancelling]; rfl)).2, _, _, rfl, ?_⟩
      intro id process hmem
      apply ((run_sessions h).registered id process hmem).imp_left
      intro hl
      exact List.mem_map_of_mem (f := fun entry => entry.2) (AList.mem_lookup_iff.mp hl)
  · intro hdrained later t hlater
    exact registers_after hlater hg hdrained

/-- Shutdown begins while a terminal is still being opened, and has to wait for its registration. -/
private def busyRun : List Action :=
  [.admitting .terminal, .register 0 7 100, .shutdown, .enable, .check, .capture 0 true, .insert 0, .drop 0, .wake,
    .enable, .check, .cancelAll]

theorem shutdown_drains_busy :
    ∃ s, Run Step {} busyRun s ∧ (7, ⟨100, 0⟩) ∈ s.registeredSessions ∧
      ∃ t, Step s .takeProcesses t ∧ ∃ jobs processes, t.server = .stopping jobs processes ∧
        (SessionProcess.mk 100 0 ∈ processes ∨ SessionEnded s.sessions ⟨100, 0⟩) := by
  have hwaiting : Run Step {} [.admitting .terminal, .register 0 7 100, .shutdown, .enable, .check] _ :=
    .snoc (.snoc (.snoc (.snoc (.snoc .nil (.admitted rfl)) (.register rfl rfl rfl)) (.shutdown rfl)) (.enable rfl))
      (.check rfl)
  have hcaptured := Run.snoc hwaiting (@Step.capture _ 0 0 true _ rfl rfl)
  have hinserted := Run.snoc hcaptured (@Step.insert _ 0 0 7 ⟨100, 0⟩ _ rfl rfl rfl)
  have hdropped := Run.snoc hinserted (@Step.drop _ 0 .done rfl rfl)
  have hrun : Run Step {} busyRun _ :=
    .snoc (.snoc (.snoc (.snoc hdropped (.wake rfl)) (.enable rfl)) (.check rfl)) (.cancelAll rfl)
  have hmem : (7, SessionProcess.mk 100 0) ∈ _ := List.mem_singleton_self _
  obtain ⟨-, jobs, processes, hserver, hsnapshot⟩ := (shutdown_drains hrun).2.2.2.2.2.1 _ (.takeProcesses rfl)
  exact ⟨_, hrun, hmem, _, .takeProcesses rfl, jobs, processes, hserver, hsnapshot 7 ⟨100, 0⟩ hmem⟩

end Drained

end Lasper.Daemon
