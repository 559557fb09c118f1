import Lasper.Jobs.Stream

/-! What the forwarder delivers. As long as it never asks the registry to
observe a status of a job that is already finalized, every queued event is
handed to `write_frame` once and in order and the last frame is a terminal
snapshot; a call that comes too late makes it return at once, and then no
terminal snapshot is ever written. Of what is handed over a frame that is too
long is written as a warning instead. -/

namespace Lasper.Jobs

open Lib DeploymentRegistry

namespace DeploymentStreamFrame

def event? : DeploymentStreamFrame → Option DeploymentEvent
  | .event queued => some queued
  | .snapshot _ => none

/-- A snapshot of a finished job. -/
def isTerminal : DeploymentStreamFrame → Bool
  | .event _ => false
  | .snapshot taken => taken.status.isFinished

end DeploymentStreamFrame

namespace StreamState

/-- The events written so far. -/
def forwarded (s : StreamState) : List DeploymentEvent :=
  s.frames.filterMap DeploymentStreamFrame.event?

/-- The events handed over to be written so far. -/
def givenEvents (s : StreamState) : List DeploymentEvent :=
  s.given.filterMap DeploymentStreamFrame.event?

/-- The event taken from the queue whose frame is being written. -/
def inFlight (s : StreamState) : List DeploymentEvent :=
  match s.forwarder with
  | .writing frame _ => frame.event?.toList
  | _ => []

/-- Every queued event was written, in order, and a terminal snapshot last. -/
def Complete (s : StreamState) : Prop :=
  s.forwarded = s.queued ∧ ∃ frame, s.frames.getLast? = some frame ∧ frame.isTerminal = true

/-- The same of what was handed over. -/
def HandedOver (s : StreamState) : Prop :=
  s.givenEvents = s.queued ∧ ∃ frame, s.given.getLast? = some frame ∧ frame.isTerminal = true

/-- The forwarder returned without a terminal snapshot. -/
def Cut (s : StreamState) : Prop :=
  s.forwarder = .returned ∧ ∀ frame ∈ s.given, frame.isTerminal = false

/-- How far the executor is, against the job's status in the registry. -/
def ExecutorAgrees (s : StreamState) (status : DeploymentStatus) : Prop :=
  match s.executor with
  | .running => status.isFinished = false ∧ s.status.isFinished = false
  | .returned terminal =>
    (status.isFinished = false ∧ s.status.isFinished = false) ∧
      ∃ claim, terminalClaimState terminal.status terminal.claimStatus = .ok claim
  | .finalized final => (status = final ∧ final.isFinished = true) ∧ s.status.isFinished = false
  | .done => (status.isFinished = true ∧ s.status.isFinished = true) ∧
      (s.seen ≠ s.version ∨ s.forwarder = .woken ∨ ∃ current, s.forwarder = .observing current)

def ForwarderAgrees (s : StreamState) : Prop :=
  match s.forwarder with
  | .head | .selecting | .woken => True
  | .observing current => current.isFinished = true → s.status.isFinished = true
  | .draining | .writing (.event _) .drain => s.status.isFinished = true
  | .reporting => s.status.isFinished = true ∧ s.queue = []
  | .writing (.event _) .head => True
  | .writing (.snapshot snapshot) .head => snapshot.status.isFinished = false
  | .writing (.snapshot snapshot) .finish =>
    snapshot.status.isFinished = true ∧ s.status.isFinished = true ∧ s.queue = []
  | .writing _ _ | .returned => False

/-- A forwarder that is still going, with the stream open. -/
structure Live (id : DeploymentId) (s : StreamState) : Prop where
  accounted : s.givenEvents ++ s.inFlight ++ s.queue = s.queued
  streamOpen : s.streamOpen = true
  seen_le : s.seen ≤ s.version
  early : ∀ frame ∈ s.given, frame.isTerminal = false
  job : ∃ job, s.registry.jobs.lookup id = some job ∧ job.streamLeases ≠ 0 ∧ s.ExecutorAgrees job.status
  forwarder : s.ForwarderAgrees

/-- The frame that is written is short enough for a line of the stream, or is the
warning itself. -/
def Fits (frameBytes : DeploymentStreamFrame → ℕ) (frame : DeploymentStreamFrame) : Prop :=
  frameBytes frame + 1 ≤ maxDeploymentStreamFrameBytes ∨ frame = omittedFrame

def Fitting (frameBytes : DeploymentStreamFrame → ℕ) (s : StreamState) : StreamAction → Prop
  | .written _ => ∀ frame next, s.forwarder = .writing frame next → Fits frameBytes frame
  | _ => True

/-- The job is not finished when the forwarder asks to observe a status. -/
def Timely (id : DeploymentId) (s : StreamState) : StreamAction → Prop
  | .observe => ∀ job, s.registry.jobs.lookup id = some job → job.status.isFinished = false
  | _ => True

end StreamState

/-- The states of a run in which no observation comes too late. -/
inductive TimelyStep (frameBytes : DeploymentStreamFrame → ℕ) (id : DeploymentId) : StreamState → StreamAction → StreamState → Prop
  | mk {s t : StreamState} {a : StreamAction} (step : StreamStep frameBytes id s a t) (timely : s.Timely id a) :
      TimelyStep frameBytes id s a t

/-- The states of a run in which moreover every frame fits. -/
inductive FittingStep (frameBytes : DeploymentStreamFrame → ℕ) (id : DeploymentId) :
    StreamState → StreamAction → StreamState → Prop
  | mk {s t : StreamState} {a : StreamAction} (step : TimelyStep frameBytes id s a t) (fitting : s.Fitting frameBytes a) :
      FittingStep frameBytes id s a t

namespace StreamState

variable {frameBytes : DeploymentStreamFrame → ℕ} {id : DeploymentId} {s t : StreamState}

theorem live_launched {system : System} (h : Launched id system) : Live id { system := system } := by
  obtain ⟨job, hj, hs, hl⟩ := h.job
  exact ⟨rfl, rfl, le_rfl, by simp, ⟨job, hj, hl, by simp [ExecutorAgrees, hs, DeploymentStatus.isFinished]⟩, trivial⟩

/-- Once the channel shows a terminal status, the executor is done. -/
theorem ExecutorAgrees.done {status : DeploymentStatus} (h : s.ExecutorAgrees status)
    (hf : s.status.isFinished = true) : s.executor = .done := by
  unfold ExecutorAgrees at h
  split at h <;> rename_i he
  · simp [hf] at h
  · simp [hf] at h
  · simp [hf] at h
  · exact he

theorem Live.executor_done (h : Live id s) (hf : s.status.isFinished = true) : s.executor = .done := by
  obtain ⟨job, -, -, ha⟩ := h.job
  exact ha.done hf

theorem Live.not_returned (h : Live id s) : s.forwarder ≠ .returned := by
  intro he
  have := h.forwarder
  simp [ForwarderAgrees, he] at this

/-- Other callers leave the stream and the job's status alone. -/
theorem Live.other (h : Live id s) {op : Operation} (ho : ¬ op.Owned id) :
    Live id { s with system := ⟨op.apply s.registry, op.leases s.system⟩ } := by
  obtain ⟨job, hj, hl, ha⟩ := h.job
  obtain ⟨job', hj', -, hf⟩ := op.apply_keeps ho hj (.inr hl)
  refine ⟨h.accounted, h.streamOpen, h.seen_le, h.early, ⟨job', hj', hf.leases_eq ▸ hl, ?_⟩, h.forwarder⟩
  rw [hf.status_eq]
  exact ha

/-! ### The executor's steps -/

/-- Steps that touch only the executor's side keep the forwarder's view. -/
theorem ForwarderAgrees.of_eq (h : s.ForwarderAgrees) (hf : t.forwarder = s.forwarder)
    (hq : s.queue = [] → s.status.isFinished = true → t.queue = [])
    (hs : s.status.isFinished = true → t.status.isFinished = true) : t.ForwarderAgrees := by
  unfold ForwarderAgrees at h ⊢
  rw [hf]
  split <;> simp_all

theorem Live.queueEvent (h : Live id s) (hr : s.executor = .running) (event : DeploymentEvent) :
    Live id { s with queue := s.queue ++ [event], queued := s.queued ++ [event] } where
  accounted := by
    rw [← h.accounted]
    simp [givenEvents, inFlight]
  streamOpen := h.streamOpen
  seen_le := h.seen_le
  early := h.early
  job := h.job
  forwarder := h.forwarder.of_eq rfl (fun _ hs => by simp [h.executor_done hs] at hr) fun hf => hf

theorem Live.setRollingBack (h : Live id s) (hr : s.executor = .running) {status : DeploymentStatus}
    (hs : status.isFinished = false) : Live id { s with status := status, version := s.version + 1 } where
  accounted := h.accounted
  streamOpen := h.streamOpen
  seen_le := Nat.le_succ_of_le h.seen_le
  early := h.early
  job := by
    obtain ⟨job, hj, hl, ha⟩ := h.job
    refine ⟨job, hj, hl, ?_⟩
    simp only [ExecutorAgrees, hr] at ha ⊢
    exact ⟨ha.1, hs⟩
  forwarder := h.forwarder.of_eq rfl (fun _ hf => by simp [h.executor_done hf] at hr)
    fun hf => by simp [h.executor_done hf] at hr

theorem Live.complete (h : Live id s) (hr : s.executor = .running)
    (result : Option (Except DeploymentError Unit)) :
    Live id { s with executor := .returned (runDeploymentExecutor result) } where
  accounted := h.accounted
  streamOpen := h.streamOpen
  seen_le := h.seen_le
  early := h.early
  job := by
    obtain ⟨job, hj, hl, ha⟩ := h.job
    refine ⟨job, hj, hl, ?_⟩
    simp only [ExecutorAgrees, hr] at ha ⊢
    exact ⟨ha, runDeploymentExecutor_terminal result⟩
  forwarder := h.forwarder.of_eq rfl (fun hq _ => hq) fun hf => hf

theorem Live.finalize (h : Live id s) {terminal : DeploymentTerminal}
    (hr : s.executor = .returned terminal) :
    ∃ snapshot registry, Jobs.finalize id terminal.status terminal.claimStatus s.registry =
        (.ok snapshot, registry) ∧
      Live id { s.setRegistry registry with executor := .finalized terminal.status } := by
  obtain ⟨job, hj, hl, ha⟩ := h.job
  simp only [ExecutorAgrees, hr] at ha
  obtain ⟨⟨hn, hs⟩, claim, hc⟩ := ha
  obtain ⟨snapshot, registry, job', he, hj', hs', -, hl', -⟩ := finalize_ok hj hn hc
  refine ⟨snapshot, registry, he, h.accounted, h.streamOpen, h.seen_le, h.early, ⟨job', hj', hl' ▸ hl, ?_⟩,
    h.forwarder.of_eq rfl (fun hq _ => hq) fun hf => hf⟩
  exact ⟨⟨hs', (terminalClaimState_ok hc).1⟩, hs⟩

theorem Live.publish (h : Live id s) {status : DeploymentStatus} (hr : s.executor = .finalized status) :
    Live id { s with status := status, version := s.version + 1, executor := .done } := by
  obtain ⟨job, hj, hl, ha⟩ := h.job
  simp only [ExecutorAgrees, hr] at ha
  obtain ⟨⟨hs, hf⟩, hn⟩ := ha
  refine ⟨h.accounted, h.streamOpen, Nat.le_succ_of_le h.seen_le, h.early, ⟨job, hj, hl, ?_⟩,
    h.forwarder.of_eq rfl (fun hq _ => hq) fun _ => hf⟩
  have := h.seen_le
  exact ⟨⟨hs ▸ hf, hf⟩, .inl (by simp only; omega)⟩

theorem Live.executorStep (h : Live id s) {a : StreamAction} (hs : s.executorStep id a = some t) :
    Live id t := by
  unfold StreamState.executorStep at hs
  split at hs
  · split_ifs at hs with hg
    cases hs
    exact h.queueEvent hg.1 _
  · split_ifs at hs with hg
    · cases hs
      exact h.setRollingBack hg rfl
    · cases hs
      exact h.setRollingBack hg rfl
  · split_ifs at hs with hg
    cases hs
    exact h.complete hg _
  · split at hs
    · rename_i terminal hr
      obtain ⟨snapshot, registry, he, hlive⟩ := h.finalize hr
      rw [he] at hs
      cases hs
      exact hlive
    · cases hs
  · split at hs
    · rename_i status hr
      cases hs
      exact h.publish hr
    · cases hs
  · cases hs

/-! ### The forwarder's steps -/

/-- The executor's side of a step of the forwarder. -/
theorem ExecutorAgrees.move {status : DeploymentStatus} (h : s.ExecutorAgrees status)
    (he : t.executor = s.executor) (hs : t.status = s.status)
    (hd : s.executor = .done →
      t.seen ≠ t.version ∨ t.forwarder = .woken ∨ ∃ current, t.forwarder = .observing current) :
    t.ExecutorAgrees status := by
  unfold ExecutorAgrees at h ⊢
  rw [he, hs]
  split at h <;> rename_i hx
  · exact h
  · exact h
  · exact h
  · exact ⟨h.1, hd hx⟩

theorem Live.agrees (h : Live id s) (hr : t.registry = s.registry) (he : t.executor = s.executor)
    (hs : t.status = s.status)
    (hd : s.executor = .done →
      t.seen ≠ t.version ∨ t.forwarder = .woken ∨ ∃ current, t.forwarder = .observing current) :
    ∃ job, t.registry.jobs.lookup id = some job ∧ job.streamLeases ≠ 0 ∧ t.ExecutorAgrees job.status := by
  obtain ⟨job, hj, hl, ha⟩ := h.job
  exact ⟨job, hr ▸ hj, hl, ha.move he hs hd⟩

/-- At any point but after a wake-up, a finished executor has left an unseen change. -/
theorem Live.unseen (h : Live id s) (hw : s.forwarder ≠ .woken)
    (ho : ∀ current, s.forwarder ≠ .observing current) (hd : s.executor = .done) : s.seen ≠ s.version := by
  obtain ⟨job, -, -, ha⟩ := h.job
  simp only [ExecutorAgrees, hd] at ha
  rcases ha.2 with h | h | ⟨current, h⟩
  · exact h
  · exact absurd h hw
  · exact absurd h (ho current)

/-- A step to another program point, with nothing being written before or after it. -/
theorem Live.goto (h : Live id s) {point : Forwarder} (hi : s.inFlight = [])
    (hp : ∀ frame next, point ≠ .writing frame next)
    (hd : s.executor = .done → s.seen ≠ s.version ∨ point = .woken ∨ ∃ current, point = .observing current)
    (hf : ForwarderAgrees { s with forwarder := point }) : Live id { s with forwarder := point } where
  accounted := by
    have hi' : inFlight { s with forwarder := point } = [] := by
      cases point <;> first | rfl | exact absurd rfl (hp _ _)
    rw [hi', ← hi]
    exact h.accounted
  streamOpen := h.streamOpen
  seen_le := h.seen_le
  early := h.early
  job := h.agrees rfl rfl rfl hd
  forwarder := hf

/-- Taking the next event from the queue to write it. -/
theorem Live.take (h : Live id s) {event : DeploymentEvent} {queue : List DeploymentEvent} (next : Resume)
    (hq : s.queue = event :: queue) (hi : s.inFlight = []) (hu : s.executor = .done → s.seen ≠ s.version)
    (hf : ForwarderAgrees { s with queue := queue, forwarder := .writing (.event event) next }) :
    Live id { s with queue := queue, forwarder := .writing (.event event) next } where
  accounted := by
    rw [← h.accounted, hi, hq]
    simp [givenEvents, inFlight, DeploymentStreamFrame.event?]
  streamOpen := h.streamOpen
  seen_le := h.seen_le
  early := h.early
  job := h.agrees rfl rfl rfl fun hd => .inl (hu hd)
  forwarder := hf

theorem Live.wake (h : Live id s) (hf : s.forwarder = .selecting) :
    Live id { s with forwarder := .woken, seen := s.version } where
  accounted := by
    rw [← h.accounted]
    simp [givenEvents, inFlight, hf]
  streamOpen := h.streamOpen
  seen_le := le_rfl
  early := h.early
  job := h.agrees rfl rfl rfl fun _ => .inr (.inl rfl)
  forwarder := trivial

/-- The executor has published nothing terminal while the job is unfinished. -/
theorem ExecutorAgrees.unpublished {status : DeploymentStatus} (h : s.ExecutorAgrees status)
    (hn : status.isFinished = false) : s.status.isFinished = false := by
  unfold ExecutorAgrees at h
  split at h
  · exact h.2
  · exact h.1.2
  · exact h.2
  · simp [hn] at h

/-- An observation that keeps the job unfinished. -/
theorem ExecutorAgrees.observe {status status' : DeploymentStatus} (h : s.ExecutorAgrees status)
    (hn : status.isFinished = false) (hn' : status'.isFinished = false) (he : t.executor = s.executor)
    (hs : t.status = s.status) : t.ExecutorAgrees status' := by
  have hu := h.unpublished hn
  unfold ExecutorAgrees at h ⊢
  rw [he, hs]
  split at h
  · exact ⟨hn', hu⟩
  · exact ⟨⟨hn', hu⟩, h.2⟩
  · simp [← h.1.1, hn] at h
  · simp [hn] at h

/-- An observation in time is written as a frame of its own. -/
theorem Live.observe (h : Live id s) {current : DeploymentStatus} (hf : s.forwarder = .observing current)
    (ht : s.Timely id .observe) :
    ∃ snapshot registry, observeStatus id current s.registry = (.ok snapshot, registry) ∧
      current.isFinished = false ∧
      Live id { s.setRegistry registry with forwarder := .writing (.snapshot snapshot) .head } := by
  obtain ⟨job, hj, hl, ha⟩ := h.job
  have hn := ht job hj
  have hc : current.isFinished = false := by
    have := h.forwarder
    simp only [ForwarderAgrees, hf, ha.unpublished hn] at this
    simpa using this
  obtain ⟨snapshot, registry, job', he, hss, hj', hs', -, hl', -⟩ := observeStatus_ok hj hn hc
  refine ⟨snapshot, registry, he, hc, ?_, h.streamOpen, h.seen_le, h.early,
    ⟨job', hj', hl' ▸ hl, ha.observe hn (hs' ▸ hc) rfl rfl⟩, ?_⟩
  · have ha := h.accounted
    simp only [inFlight, hf] at ha
    exact ha
  · show snapshot.status.isFinished = false
    rw [hss, hc]

/-- Handing over the last frame. -/
theorem Live.report (h : Live id s) (hf : s.forwarder = .reporting) :
    ∃ snapshot, Jobs.snapshot id s.registry = .ok snapshot ∧
      Live id { s with forwarder := .writing (.snapshot snapshot) .finish } := by
  obtain ⟨job, hj, hl, ha⟩ := h.job
  have hr := h.forwarder
  simp only [ForwarderAgrees, hf] at hr
  have hd := h.executor_done hr.1
  have hu := h.unseen (by simp [hf]) (by simp [hf]) hd
  refine ⟨snapshotOf id job, by simp [Jobs.snapshot, hj], ?_, h.streamOpen, h.seen_le, h.early,
    h.agrees rfl rfl rfl fun _ => .inl hu, ?_⟩
  · have ha := h.accounted
    simp only [inFlight, hf] at ha
    exact ha
  · simp only [ExecutorAgrees, hd] at ha
    exact ⟨ha.1.1, hr⟩

theorem offer_open (h : s.streamOpen = true) (frame : DeploymentStreamFrame) (next : Resume) :
    s.offer id frame next = { s with forwarder := .writing frame next } := by
  simp [offer, h]

theorem givenEvents_append (s : StreamState) (frame : DeploymentStreamFrame) {next : Resume}
    (hf : s.forwarder = .writing frame next) :
    (s.given ++ [frame]).filterMap DeploymentStreamFrame.event? = s.givenEvents ++ s.inFlight := by
  simp only [givenEvents, inFlight, hf, List.filterMap_append]
  cases frame <;> rfl

/-- A written frame leaves the forwarder going, unless it was the last. -/
theorem Live.written (h : Live id s) {frame : DeploymentStreamFrame} {next : Resume}
    (written : List DeploymentStreamFrame) (hf : s.forwarder = .writing frame next) :
    let t := { s with given := s.given ++ [frame], frames := written, streamOpen := true }.resume id next
    Live id t ∨ (t.forwarder = .returned ∧ t.HandedOver) := by
  have ha := h.accounted
  have hp := h.forwarder
  have hu := h.unseen (by simp [hf]) (by simp [hf])
  rw [← givenEvents_append s frame hf] at ha
  simp only [ForwarderAgrees, hf] at hp
  -- going on: nothing is in flight any more, and the frame just written is not terminal
  have go : ∀ point, frame.isTerminal = false → inFlight { s with forwarder := point } = [] →
      ForwarderAgrees { s with given := s.given ++ [frame], frames := written, streamOpen := true, forwarder := point } →
      Live id { s with given := s.given ++ [frame], frames := written, streamOpen := true, forwarder := point } := by
    intro point hte hi hfo
    refine ⟨?_, rfl, h.seen_le, ?_, h.agrees rfl rfl rfl fun hd => .inl (hu hd), hfo⟩
    · have hi' : inFlight { s with
          given := s.given ++ [frame], frames := written, streamOpen := true, forwarder := point } = [] := hi
      rw [hi', List.append_nil]
      exact ha
    · intro g hg
      rcases List.mem_append.mp hg with hg | hg
      · exact h.early g hg
      · rw [List.mem_singleton.mp hg, hte]
  cases next with
  | head =>
    cases frame with
    | event e => exact .inl (go .head rfl rfl trivial)
    | snapshot taken => exact .inl (go .head hp rfl trivial)
  | drain =>
    cases frame with
    | event e => exact .inl (go .draining rfl rfl hp)
    | snapshot taken => exact hp.elim
  | finish =>
    cases frame with
    | event e => exact hp.elim
    | snapshot taken =>
      refine .inr ⟨rfl, ?_, .snapshot taken, by simp [resume, finish], hp.1⟩
      simpa [givenEvents, resume, finish, hp.2.2] using ha

/-- A step of the forwarder in time, with a successful write if it writes. -/
theorem Live.forwarderStep (h : Live id s) {a : StreamAction} (hs : s.forwarderStep frameBytes id a = some t)
    (ht : s.Timely id a) (hw : a ≠ .written false) :
    Live id t ∨ (t.forwarder = .returned ∧ t.HandedOver) := by
  have hu := h.unseen
  unfold StreamState.forwarderStep at hs
  split at hs
  · split_ifs at hs with hf hfin <;> cases hs
    · exact .inl (h.goto (by simp [inFlight, hf]) (by simp)
        (fun hd => .inl (hu (by simp [hf]) (by simp [hf]) hd)) hfin)
    · exact .inl (h.goto (by simp [inFlight, hf]) (by simp)
        (fun hd => .inl (hu (by simp [hf]) (by simp [hf]) hd)) trivial)
  · split at hs <;> cases hs
    rename_i event queue hf hq
    rw [offer_open (s := { s with queue := queue }) h.streamOpen]
    exact .inl (h.take .head hq (by simp [inFlight, hf]) (hu (by simp [hf]) (by simp [hf])) trivial)
  · split_ifs at hs with hf
    cases hs
    exact .inl (h.goto (by simp [inFlight, hf]) (by simp)
      (fun hd => .inl (hu (by simp [hf]) (by simp [hf]) hd)) trivial)
  · split_ifs at hs with hf
    cases hs
    exact .inl (h.wake hf.1)
  · -- the terminal status is still unseen, so the channel cannot look closed
    split_ifs at hs with hf
    cases hs
    exact absurd hf.2.1 (hu (by simp [hf.1]) (by simp [hf.1]) hf.2.2)
  · split_ifs at hs with hf
    cases hs
    exact .inl (h.goto (by simp [inFlight, hf]) (by simp) (fun _ => .inr (.inr ⟨_, rfl⟩)) fun hc => hc)
  · split at hs
    · rename_i current hf
      obtain ⟨snapshot, registry, he, hc, hlive⟩ := h.observe hf ht
      rw [he] at hs
      simp only [hc, Bool.not_false, if_true, Option.some.injEq] at hs
      subst hs
      rw [offer_open (s := s.setRegistry registry) h.streamOpen]
      exact .inl hlive
    · cases hs
  · split at hs <;> cases hs
    rename_i event queue hf hq
    have hp := h.forwarder
    simp only [ForwarderAgrees, hf] at hp
    rw [offer_open (s := { s with queue := queue }) h.streamOpen]
    exact .inl (h.take .drain hq (by simp [inFlight, hf]) (hu (by simp [hf]) (by simp [hf])) hp)
  · split_ifs at hs with hf
    cases hs
    have hp := h.forwarder
    simp only [ForwarderAgrees, hf] at hp
    exact .inl (h.goto (by simp [inFlight, hf]) (by simp)
      (fun hd => .inl (hu (by simp [hf]) (by simp [hf]) hd)) ⟨hp, hf.2⟩)
  · split_ifs at hs with hf
    obtain ⟨snapshot, he, hlive⟩ := h.report hf
    rw [he] at hs
    cases hs
    rw [offer_open h.streamOpen]
    exact .inl hlive
  · split at hs <;> cases hs
    rename_i ok _ frame next hf
    obtain rfl : ok = true := by simpa using hw
    exact h.written _ hf
  · cases hs

/-- An observation that comes too late ends the stream at once. -/
theorem Live.late (h : Live id s) {a : StreamAction} (hs : s.forwarderStep frameBytes id a = some t)
    (ht : ¬ s.Timely id a) : t.Cut := by
  cases a with
  | observe =>
    simp only [Timely, not_forall] at ht
    obtain ⟨job, hj, hn⟩ := ht
    simp only [StreamState.forwarderStep] at hs
    split at hs
    · rename_i current hf
      obtain ⟨failure, he, -⟩ := observeStatus_late current hj (by simpa using hn)
      split at hs
      · cases hs
        exact ⟨rfl, h.early⟩
      · rename_i heq
        rw [heq] at he
        cases he
    · cases hs
  | _ => exact absurd trivial ht

/-- After the forwarder returned, no step writes a frame or queues an event. -/
theorem returned_step {a : StreamAction} (hr : s.forwarder = .returned) (hs : StreamStep frameBytes id s a t) :
    (t.forwarder = .returned ∧ t.given = s.given ∧ t.queued = s.queued) ∧ s.Timely id a := by
  cases hs with
  | executor h =>
    unfold executorStep at h
    split at h
    · simp [hr] at h
    · split_ifs at h <;> cases h <;> exact ⟨⟨hr, rfl, rfl⟩, trivial⟩
    · split_ifs at h
      cases h
      exact ⟨⟨hr, rfl, rfl⟩, trivial⟩
    · split at h
      · split at h <;> cases h <;> exact ⟨⟨hr, rfl, rfl⟩, trivial⟩
      · cases h
    · split at h
      · cases h
        exact ⟨⟨hr, rfl, rfl⟩, trivial⟩
      · cases h
    · cases h
  | forwarder h =>
    rw [forwarderStep_returned hr] at h
    cases h
  | other enabled owned => exact ⟨⟨hr, rfl, rfl⟩, trivial⟩

theorem Live.step (h : Live id s) {a : StreamAction} (hs : StreamStep frameBytes id s a t) (ht : s.Timely id a)
    (hw : a ≠ .written false) : Live id t ∨ (t.forwarder = .returned ∧ t.HandedOver) := by
  cases hs with
  | executor hs => exact .inl (h.executorStep hs)
  | forwarder hs => exact h.forwarderStep hs ht hw
  | other enabled owned => exact .inl (h.other owned)

theorem Live.step_late (h : Live id s) {a : StreamAction} (hs : StreamStep frameBytes id s a t)
    (ht : ¬ s.Timely id a) : t.Cut := by
  cases hs with
  | executor hs => cases a <;> first | exact absurd trivial ht | cases hs
  | forwarder hs => exact h.late hs ht
  | other enabled owned => exact absurd trivial ht

/-- In a timely run with successful writes the forwarder is going, or has written everything. -/
theorem run_timely {as : List StreamAction} {system : System} (hl : Launched id system)
    (h : Run (TimelyStep frameBytes id) { system := system } as t) (hw : .written false ∉ as) :
    Live id t ∨ (t.forwarder = .returned ∧ t.HandedOver) := by
  refine h.history (I := fun as t => .written false ∉ as → Live id t ∨ (t.forwarder = .returned ∧ t.HandedOver))
    (fun _ => .inl (live_launched hl)) ?_ hw
  rintro as t a u ih ⟨hs, ht⟩ hw
  simp only [List.mem_append, List.mem_singleton, not_or] at hw
  rcases ih hw.1 with hlive | ⟨hr, hc⟩
  · exact hlive.step hs ht fun he => hw.2 he.symm
  · obtain ⟨⟨hr', hf, hq⟩, -⟩ := returned_step hr hs
    exact .inr ⟨hr', by simpa only [HandedOver, givenEvents, hf, hq] using hc⟩

/-- A run with successful writes is timely, or was cut by a late observation. -/
theorem run_stands {as : List StreamAction} {system : System} (hl : Launched id system)
    (h : Run (StreamStep frameBytes id) { system := system } as t) (hw : .written false ∉ as) :
    Run (TimelyStep frameBytes id) { system := system } as t ∨ t.Cut := by
  refine h.history (I := fun as t => .written false ∉ as → Run (TimelyStep frameBytes id) { system := system } as t ∨ t.Cut)
    (fun _ => .inl .nil) ?_ hw
  intro as t a u ih hs hw
  simp only [List.mem_append, List.mem_singleton, not_or] at hw
  rcases ih hw.1 with hrun | ⟨hr, hc⟩
  · by_cases ht : t.Timely id a
    · exact .inl (.snoc hrun ⟨hs, ht⟩)
    · rcases run_timely hl hrun hw.1 with hlive | ⟨hr, -⟩
      · exact .inr (hlive.step_late hs ht)
      · exact absurd (returned_step hr hs).2 ht
  · obtain ⟨⟨hr', hf, -⟩, -⟩ := returned_step hr hs
    exact .inr ⟨hr', hf ▸ hc⟩

theorem Cut.not_handedOver (h : s.Cut) : ¬ s.HandedOver := by
  rintro ⟨-, frame, hl, ht⟩
  simp [h.2 frame (List.mem_of_getLast? hl)] at ht

/-! ### What is written -/

variable {frame : DeploymentStreamFrame} {frames : List DeploymentStreamFrame}

theorem writtenFrame_eq_iff : writtenFrame frameBytes frame = frame ↔ Fits frameBytes frame := by
  unfold writtenFrame Fits
  split_ifs with hlong
  · rw [eq_comm]
    exact (or_iff_right (Nat.not_le.mpr hlong)).symm
  · exact iff_of_true rfl (.inl (Nat.not_lt.mp hlong))

theorem writtenFrame_of_not_fits (h : ¬ Fits frameBytes frame) : writtenFrame frameBytes frame = omittedFrame := by
  unfold Fits at h
  unfold writtenFrame
  rw [if_pos]
  omega

theorem map_written (h : ∀ frame ∈ frames, Fits frameBytes frame) : frames.map (writtenFrame frameBytes) = frames :=
  (List.map_congr_left fun frame hf => writtenFrame_eq_iff.mpr (h frame hf)).trans (List.map_id frames)

/-- No event is left out: a snapshot that is too long is written as an event more. -/
theorem length_forwarded (frames : List DeploymentStreamFrame) :
    (frames.filterMap DeploymentStreamFrame.event?).length ≤
      ((frames.map (writtenFrame frameBytes)).filterMap DeploymentStreamFrame.event?).length := by
  induction frames with
  | nil => exact le_rfl
  | cons frame frames ih =>
    by_cases hfits : Fits frameBytes frame
    · simp only [List.map_cons, writtenFrame_eq_iff.mpr hfits, List.filterMap_cons]
      cases frame.event? with
      | none => exact ih
      | some event => exact Nat.succ_le_succ ih
    · simp only [List.map_cons, writtenFrame_of_not_fits hfits, List.filterMap_cons, omittedFrame,
        DeploymentStreamFrame.event?]
      cases frame with
      | event event => exact Nat.succ_le_succ ih
      | snapshot taken => exact Nat.le_succ_of_le ih

/-- The events that are written are those handed over exactly if every frame fits. -/
theorem written_events_iff (frames : List DeploymentStreamFrame) :
    (frames.map (writtenFrame frameBytes)).filterMap DeploymentStreamFrame.event? =
        frames.filterMap DeploymentStreamFrame.event? ↔ ∀ frame ∈ frames, Fits frameBytes frame := by
  induction frames with
  | nil => simp
  | cons frame frames ih =>
    rw [List.forall_mem_cons]
    by_cases hfits : Fits frameBytes frame
    · rw [List.map_cons, writtenFrame_eq_iff.mpr hfits, and_iff_right hfits, ← ih]
      simp only [List.filterMap_cons]
      cases frame.event? with
      | none => exact Iff.rfl
      | some event => simp
    · refine iff_of_false ?_ fun h => hfits h.1
      have hlength : (frames.filterMap DeploymentStreamFrame.event?).length ≤
          ((frames.map (writtenFrame frameBytes)).filterMap DeploymentStreamFrame.event?).length :=
        length_forwarded frames
      rw [List.map_cons, writtenFrame_of_not_fits hfits]
      intro heq
      cases frame with
      | event event =>
        have hsame := (List.cons.inj heq).1
        exact hfits (.inr (congrArg DeploymentStreamFrame.event hsame.symm))
      | snapshot taken =>
        have hmore := congrArg List.length heq
        simp only [List.filterMap_cons, omittedFrame, DeploymentStreamFrame.event?, List.length_cons] at hmore
        omega

@[simp]
theorem offer_given (frame : DeploymentStreamFrame) (next : Resume) : (s.offer id frame next).given = s.given := by
  unfold offer
  split_ifs
  · rfl
  · cases next <;> rfl

@[simp]
theorem offer_frames (frame : DeploymentStreamFrame) (next : Resume) : (s.offer id frame next).frames = s.frames := by
  unfold offer
  split_ifs
  · rfl
  · cases next <;> rfl

/-- A step hands nothing over, or a write of one frame ends. -/
theorem step_given {a : StreamAction} (hs : StreamStep frameBytes id s a t) :
    (∀ ok, a ≠ .written ok) ∧ t.given = s.given ∧ t.frames = s.frames ∨
      ∃ ok frame next, a = .written ok ∧ s.forwarder = .writing frame next ∧
        t.given = s.given ++ [frame] ∧ t.frames = s.frames ++ [writtenFrame frameBytes frame] := by
  cases hs with
  | executor h =>
    unfold executorStep at h
    split at h
    · split_ifs at h
      cases h
      exact .inl ⟨by simp, rfl, rfl⟩
    · split_ifs at h <;> cases h <;> exact .inl ⟨by simp, rfl, rfl⟩
    · split_ifs at h
      cases h
      exact .inl ⟨by simp, rfl, rfl⟩
    · split at h
      · split at h <;> cases h <;> exact .inl ⟨by simp, rfl, rfl⟩
      · cases h
    · split at h
      · cases h
        exact .inl ⟨by simp, rfl, rfl⟩
      · cases h
    · cases h
  | other enabled owned => exact .inl ⟨by simp, rfl, rfl⟩
  | forwarder h =>
    cases a with
    | written ok =>
      simp only [StreamState.forwarderStep] at h
      split at h <;> cases h
      rename_i frame next hf
      refine .inr ⟨ok, frame, next, rfl, hf, ?_⟩
      cases next <;> exact ⟨rfl, rfl⟩
    | _ =>
      simp only [StreamState.forwarderStep] at h
      repeat' split at h
      all_goals cases h
      all_goals exact .inl ⟨by simp, by simp [finish, setRegistry]⟩

theorem run_frames {as : List StreamAction} {system : System}
    (h : Run (StreamStep frameBytes id) { system := system } as t) : t.frames = t.given.map (writtenFrame frameBytes) := by
  refine h.invariant (I := fun t => t.frames = t.given.map (writtenFrame frameBytes)) rfl fun s a t ih hs => ?_
  rcases step_given hs with ⟨-, hgiven, hframes⟩ | ⟨ok, frame, next, -, -, hgiven, hframes⟩
  · rw [hgiven, hframes, ih]
  · rw [hgiven, hframes, ih, List.map_append, List.map_singleton]

/-- Every step fits exactly if all that was handed over does. -/
theorem run_fitting_iff {as : List StreamAction} {system : System} (h : Run (TimelyStep frameBytes id) { system := system } as t) :
    Run (FittingStep frameBytes id) { system := system } as t ↔ ∀ frame ∈ t.given, Fits frameBytes frame := by
  constructor
  · intro hrun
    clear h
    refine hrun.invariant (I := fun t => ∀ frame ∈ t.given, Fits frameBytes frame) (by simp) ?_
    rintro s a t ih ⟨⟨hs, -⟩, hfitting⟩ frame hframe
    rcases step_given hs with ⟨-, hgiven, -⟩ | ⟨ok, written, next, rfl, hf, hgiven, -⟩
    · exact ih frame (hgiven ▸ hframe)
    · rw [hgiven, List.mem_append, List.mem_singleton] at hframe
      rcases hframe with hframe | rfl
      · exact ih frame hframe
      · exact hfitting _ _ hf
  · induction h with
    | nil => exact fun _ => .nil
    | @snoc as a t u hrun hs ih =>
      intro hfits
      have hstep : StreamStep frameBytes id t a u := by
        obtain ⟨hstep, -⟩ := hs
        exact hstep
      rcases step_given hstep with ⟨hwritten, hgiven, -⟩ | ⟨ok, written, next, rfl, hf, hgiven, -⟩
      · refine .snoc (ih (hgiven ▸ hfits)) ⟨hs, ?_⟩
        cases a with
        | written ok => exact absurd rfl (hwritten ok)
        | _ => trivial
      · rw [hgiven] at hfits
        refine .snoc (ih fun frame hframe => hfits frame (List.mem_append_left _ hframe)) ⟨hs, ?_⟩
        intro frame next' hf'
        rw [hf] at hf'
        cases hf'
        exact hfits _ (by simp)

theorem Complete.iff_fits (hframes : t.frames = t.given.map (writtenFrame frameBytes)) (h : t.HandedOver) :
    t.Complete ↔ ∀ frame ∈ t.given, Fits frameBytes frame := by
  constructor
  · intro hcomplete
    rw [← written_events_iff, ← hframes]
    exact hcomplete.1.trans h.1.symm
  · intro hfits
    rw [map_written hfits] at hframes
    unfold Complete forwarded
    rw [hframes]
    exact h

/-- Nothing that is written instead of another frame is a terminal snapshot. -/
theorem Cut.not_complete (hframes : t.frames = t.given.map (writtenFrame frameBytes)) (h : t.Cut) : ¬ t.Complete := by
  rintro ⟨-, frame, hlast, hterminal⟩
  have hmem := List.mem_of_getLast? hlast
  rw [hframes] at hmem
  obtain ⟨given, hgiven, rfl⟩ := List.mem_map.mp hmem
  by_cases hfits : Fits frameBytes given
  · rw [writtenFrame_eq_iff.mpr hfits, h.2 given hgiven] at hterminal
    cases hterminal
  · rw [writtenFrame_of_not_fits hfits] at hterminal
    cases hterminal

/-! ### The forwarder returns -/

/-- How far each program point is from the return, once the executor is done. -/
def weight : Forwarder → ℕ
  | .selecting => 12
  | .woken => 11
  | .observing _ => 10
  | .writing _ .head => 9
  | .head => 8
  | .writing _ .drain => 7
  | .draining => 4
  | .reporting => 3
  | .writing _ .finish => 2
  | .returned => 0

def remaining (s : StreamState) : ℕ := 4 * s.queue.length + weight s.forwarder

theorem Live.finished (h : Live id s) (hd : s.executor = .done) : s.status.isFinished = true := by
  obtain ⟨job, -, -, ha⟩ := h.job
  simp only [ExecutorAgrees, hd] at ha
  exact ha.1.2

theorem Live.enabled (h : Live id s) (hd : s.executor = .done) :
    ∃ a t, a ≠ .written false ∧ s.forwarderStep frameBytes id a = some t := by
  have hu := h.unseen
  cases hf : s.forwarder with
  | head => exact ⟨.borrowHead, _, by simp, by simp [StreamState.forwarderStep, hf]; rfl⟩
  | selecting =>
    refine ⟨.changed, { s with forwarder := .woken, seen := s.version }, by simp, ?_⟩
    simp [StreamState.forwarderStep, hf, hu (by simp [hf]) (by simp [hf]) hd]
  | woken => exact ⟨.borrow, { s with forwarder := .observing s.status }, by simp, by simp [StreamState.forwarderStep, hf]⟩
  | observing current =>
    have : (s.forwarderStep frameBytes id .observe).isSome = true := by
      simp only [StreamState.forwarderStep, hf]
      split
      · rfl
      · split_ifs <;> rfl
    exact ⟨.observe, _, by simp, (Option.some_get this).symm⟩
  | draining =>
    cases hq : s.queue with
    | nil => exact ⟨.drained, { s with forwarder := .reporting }, by simp, by simp [StreamState.forwarderStep, hf, hq]⟩
    | cons event queue => exact ⟨.tryRecv, _, by simp, by simp [StreamState.forwarderStep, hf, hq]; rfl⟩
  | reporting =>
    obtain ⟨snapshot, he, -⟩ := h.report hf
    exact ⟨.report, _, by simp, by simp [StreamState.forwarderStep, hf, he]; rfl⟩
  | writing frame next => exact ⟨.written true, _, by simp, by simp [StreamState.forwarderStep, hf]; rfl⟩
  | returned => exact absurd hf h.not_returned

theorem weight_pos {point : Forwarder} (h : point ≠ .returned) : 0 < weight point := by
  cases point with
  | writing frame next => cases next <;> simp [weight]
  | returned => exact absurd rfl h
  | _ => simp [weight]

theorem remaining_lt_of_returned (h : t.forwarder = .returned) (hn : s.forwarder ≠ .returned)
    (hq : t.queue.length ≤ s.queue.length) : t.remaining < s.remaining := by
  have := weight_pos hn
  have h0 : weight t.forwarder = 0 := by rw [h]; rfl
  unfold remaining
  omega

theorem Live.decreases (h : Live id s) (hd : s.executor = .done) {a : StreamAction}
    (hs : s.forwarderStep frameBytes id a = some t) : t.remaining < s.remaining := by
  have hfin := h.finished hd
  unfold StreamState.forwarderStep at hs
  split at hs
  · split_ifs at hs with hf
    cases hs
    simp [remaining, weight, hf]
  · split at hs <;> cases hs
    rename_i event queue hf hq
    rw [offer_open (s := { s with queue := queue }) h.streamOpen]
    simp [remaining, weight, hf, hq]
    omega
  · split_ifs at hs with hf
    cases hs
    simp [remaining, weight, hf]
  · split_ifs at hs with hf
    cases hs
    simp [remaining, weight, hf]
  · split_ifs at hs with hf
    cases hs
    exact remaining_lt_of_returned rfl h.not_returned le_rfl
  · split_ifs at hs with hf
    cases hs
    simp [remaining, weight, hf]
  · split at hs
    · rename_i current hf
      split at hs
      · cases hs
        exact remaining_lt_of_returned rfl h.not_returned le_rfl
      · rename_i snapshot registry he
        split_ifs at hs <;> cases hs
        · rw [offer_open (s := s.setRegistry registry) h.streamOpen]
          simp [remaining, weight, hf, setRegistry]
        · simp [remaining, weight, hf, setRegistry]
    · cases hs
  · split at hs <;> cases hs
    rename_i event queue hf hq
    rw [offer_open (s := { s with queue := queue }) h.streamOpen]
    simp [remaining, weight, hf, hq]
    omega
  · split_ifs at hs with hf
    cases hs
    simp [remaining, weight, hf]
  · split_ifs at hs with hf
    obtain ⟨snapshot, he, -⟩ := h.report hf
    rw [he] at hs
    cases hs
    rw [offer_open h.streamOpen]
    simp [remaining, weight, hf]
  · split at hs <;> cases hs
    rename_i ok _ frame next hf
    cases next with
    | head => simp [remaining, weight, resume, hf]
    | drain => simp [remaining, weight, resume, hf]
    | finish => exact remaining_lt_of_returned rfl h.not_returned le_rfl
  · cases hs

end StreamState

open StreamState

/-- While every write succeeds, a forwarder that has returned wrote every queued event once, in
order, and a terminal snapshot last, if and only if it never observed a status after the job
was finalized and every frame fitted; and once the executor is done it does return: some step of
its own is enabled until then, and each one brings the return nearer. -/
theorem stream_complete_iff {frameBytes : DeploymentStreamFrame → ℕ} {id : DeploymentId} {system : System}
    {as : List StreamAction} {t : StreamState} (hl : Launched id system)
    (h : Run (StreamStep frameBytes id) { system := system } as t) (hw : .written false ∉ as) :
    (t.forwarder = .returned → (t.Complete ↔ Run (FittingStep frameBytes id) { system := system } as t)) ∧
    (t.executor = .done → t.forwarder ≠ .returned →
      (∃ a u, a ≠ .written false ∧ t.forwarderStep frameBytes id a = some u) ∧
      ∀ a u, t.forwarderStep frameBytes id a = some u → u.remaining < t.remaining) := by
  have hframes := run_frames h
  refine ⟨fun hr => ?_, fun hd hn => ?_⟩
  · rcases run_stands hl h hw with htimely | hcut
    · rcases run_timely hl htimely hw with hlive | ⟨-, hc⟩
      · exact absurd hr hlive.not_returned
      · rw [Complete.iff_fits hframes hc, run_fitting_iff htimely]
    · refine iff_of_false (hcut.not_complete hframes) fun hrun => ?_
      rcases run_timely hl (hrun.mono fun _ _ _ ⟨hs, _⟩ => hs) hw with hlive | ⟨-, hc⟩
      · exact absurd hr hlive.not_returned
      · exact hcut.not_handedOver hc
  · have hrun := (run_stands hl h hw).resolve_right fun hcut => hn hcut.1
    have hlive := (run_timely hl hrun hw).resolve_right fun hr => hn hr.1
    exact ⟨hlive.enabled hd, fun a u hs => hlive.decreases hd hs⟩

/-! ### A run for each case -/

private def launchOps : List Operation := [.reserveSubmission (.stored _ _) ⟨1⟩ ⟨2⟩ ⟨"plan"⟩]

private def launchedRegistry : DeploymentRegistry :=
  (registerStream ⟨2⟩ (register ⟨1⟩ ⟨2⟩ (.ok ⟨1, ["machine"]⟩)
    (reserveSubmission (.stored _ _) ⟨1⟩ ⟨2⟩ ⟨"plan"⟩ {}).2).2).2

private theorem launched_example : Launched ⟨2⟩ ⟨launchedRegistry, [⟨2⟩]⟩ := by
  have reached : Run System.Step {} launchOps ⟨(reserveSubmission (.stored _ _) ⟨1⟩ ⟨2⟩ ⟨"plan"⟩ {}).2, []⟩ :=
    .snoc .nil ⟨trivial⟩
  have registered : register ⟨1⟩ ⟨2⟩ (.ok ⟨1, ["machine"]⟩)
      (reserveSubmission (.stored _ _) ⟨1⟩ ⟨2⟩ ⟨"plan"⟩ {}).2 = (.ok (), _) := rfl
  exact .mk reached registered .nil rfl

/-- The lengths of the frames below as JSON: lines of plain text, and snapshots of a job that
succeeded. -/
private def frameLength : DeploymentStreamFrame → ℕ
  | .event (.line text) => 57 + text.length
  | .event (.progress progress) => 83 + progress.label.length + (toString progress.permille.val).length
  | .snapshot snapshot => 181 + (toString snapshot.revision).length

private def advance (s : StreamState) (a : StreamAction) : Option StreamState :=
  s.executorStep ⟨2⟩ a <|> s.forwarderStep frameLength ⟨2⟩ a

private theorem advance_step (s : StreamState) (a : StreamAction) (t : StreamState)
    (h : advance s a = some t) : StreamStep frameLength ⟨2⟩ s a t := by
  unfold advance at h
  cases he : s.executorStep ⟨2⟩ a with
  | some u =>
    rw [he] at h
    cases h
    exact .executor he
  | none =>
    rw [he] at h
    exact .forwarder h

/-- One event is queued, and the forwarder comes to it before the job ends. -/
private def deliveredActions : List StreamAction :=
  [.queueEvent (.line "deploying"), .borrowHead, .recv, .written true, .complete (some (.ok ())),
    .finalize, .publish, .borrowHead, .drained, .report, .written true]

/-- The forwarder selects, and the job ends before the queued event is taken. -/
private def cutActions : List StreamAction :=
  [.borrowHead, .queueEvent (.line "deploying"), .complete (some (.ok ())), .finalize, .publish,
    .changed, .borrow, .observe]

private def launchedState : StreamState := { system := ⟨launchedRegistry, [⟨2⟩]⟩ }

private theorem delivered_isSome : (deliveredActions.foldlM advance launchedState).isSome = true := by decide

private theorem cut_isSome : (cutActions.foldlM advance launchedState).isSome = true := by decide

theorem stream_complete_iff_delivered :
    ∃ t, Run (StreamStep frameLength ⟨2⟩) launchedState deliveredActions t ∧
      t.forwarder = .returned ∧ t.queued = [.line "deploying"] ∧
      (t.Complete ↔ Run (FittingStep frameLength ⟨2⟩) launchedState deliveredActions t) := by
  have h := Run.of_foldlM advance_step (Option.some_get delivered_isSome).symm
  refine ⟨_, h, by decide, by decide, ?_⟩
  exact (stream_complete_iff launched_example h (by simp [deliveredActions])).1 (by decide)

theorem stream_incomplete :
    ¬ ∀ (frameBytes : DeploymentStreamFrame → ℕ) (id : DeploymentId) (system : System) (as : List StreamAction) (t : StreamState),
      Launched id system → Run (StreamStep frameBytes id) { system := system } as t → .written false ∉ as →
        t.forwarder = .returned → t.Complete := by
  intro hall
  have h := Run.of_foldlM advance_step (Option.some_get cut_isSome).symm
  have hc := hall _ _ _ _ _ launched_example h (by simp [cutActions]) (by decide)
  exact absurd hc.1 (by decide)

end Lasper.Jobs
