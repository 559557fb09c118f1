import Lasper.Terminal.Channel
import Lasper.Terminal.Lifecycle

/-! The task that bridges the pseudoterminal of a machine. One `select!` owns the
master: a branch that completes drops the unfinished read and write of the others,
and what a short write left over stays pending until all of it is written. -/

namespace Lasper.Terminal.MachinePty

open Lib Lifecycle

/-- The answer of `read_machine_pty`; at the end of the file the chunk is empty. -/
inductive ReadResult
  | ok (chunk : List UInt8)
  | eio
  | wouldBlock
  | interrupted
  | failed (error : String)
  deriving DecidableEq

inductive WriteResult
  | ok (count : ℕ)
  | eio
  | wouldBlock
  | interrupted
  | failed (error : String)
  deriving DecidableEq

inductive Phase
  | selecting
  | sending (chunk : List UInt8)
  | ended (state : SessionLifecycle)
  deriving DecidableEq

def bufferSize : ℕ := 4096

/-- `login` bridges outlive a hangup. `queued`, `written`, `read` and `taken` are the
history: what the queue accepted, the bytes through the master, and the chunks the session
took out of its queue. -/
structure Bridge where
  login : Bool
  commands : Commands := .empty
  commandsHeld : Bool := true
  output : Output := .empty
  outputHeld : Bool := true
  closeRequested : Bool := false
  removed : Option SessionLifecycle := none
  readRetry : Bool := false
  writeRetry : Bool := false
  pendingInput : List UInt8 := []
  reading : Bool := false
  writing : Bool := false
  phase : Phase := .selecting
  queued : List TerminalCommand := []
  written : List UInt8 := []
  read : List UInt8 := []
  taken : List (List UInt8) := []

inductive Action
  | send (command : TerminalCommand)
  | dropCommands
  | takeOutput
  | dropOutput
  | requestClose
  | machineRemoved (state : SessionLifecycle)
  | pollRead
  | pollWrite
  | closeWins
  | removedWins
  | outputGone
  | command
  | readTimer
  | writeTimer
  | readDone (result : ReadResult) (readClosed : Bool)
  | writeDone (result : WriteResult)
  | outputSent

variable {s t : Bridge} {action : Action} {actions : List Action} {login : Bool}

def Bridge.ended (s : Bridge) : Bool :=
  match s.phase with
  | .ended _ => true
  | _ => false

/-- A branch has completed: the futures of the others are dropped. -/
def Bridge.completed (s : Bridge) : Bridge := { s with reading := false, writing := false }

def Bridge.finish (s : Bridge) (state : SessionLifecycle) : Bridge := { s.completed with phase := .ended state }

/-- The other side hung up: a login waits for it to come back. -/
def Bridge.hangup (s : Bridge) : Bridge :=
  if s.login then { s.completed with readRetry := true }
  else s.finish (.exited true none)

/-- `try_send` on the handle. -/
def Bridge.send (s : Bridge) (command : TerminalCommand) : Bridge :=
  match sendTerminalCommand s.ended s.commands command with
  | (.queued, commands) => { s with commands := commands, queued := s.queued ++ [command] }
  | _ => s

/-- `commands.recv()`, polled while no input is pending. -/
def Bridge.receive (s : Bridge) : Option Bridge :=
  match s.commands.recv with
  | some (.input bytes, commands) => some { s.completed with commands := commands, pendingInput := bytes }
  | some (.reply bytes, commands) => some { s.completed with commands := commands, pendingInput := bytes }
  | some (.resize _, commands) => some { s.completed with commands := commands }
  | none => if s.commandsHeld then none else some (s.finish .closed)

def Bridge.readDone (s : Bridge) (result : ReadResult) (readClosed : Bool) : Option Bridge :=
  match result with
  | .ok [] => some s.hangup
  | .ok chunk =>
    if chunk.length ≤ bufferSize then
      some { s.completed with read := s.read ++ chunk, phase := .sending chunk }
    else none
  | .eio => some s.hangup
  | .wouldBlock => some (if readClosed then s.hangup else s.completed)
  | .interrupted => some s.completed
  | .failed error => some (s.finish (.failed ("machine terminal output failed: " ++ error)))

def Bridge.writeDone (s : Bridge) (result : WriteResult) : Option Bridge :=
  match result with
  | .ok 0 => some (s.finish (.failed "machine PTY write returned zero"))
  | .ok count =>
    if count ≤ s.pendingInput.length then
      some { s.completed with
        written := s.written ++ s.pendingInput.take count, pendingInput := s.pendingInput.drop count }
    else none
  | .eio => some { s.completed with writeRetry := true }
  | .wouldBlock => some s.completed
  | .interrupted => some s.completed
  | .failed error => some (s.finish (.failed ("machine terminal input failed: " ++ error)))

/-- `output.send(..)` of the chunk that was read, in the inner `select!`. -/
def Bridge.outputSent (s : Bridge) : Option Bridge :=
  match s.phase with
  | .sending chunk =>
    if s.outputHeld then
      (s.output.trySend chunk).map fun output => { s with output := output, phase := .selecting }
    else none
  | _ => none

/-- One event at the handle or the machine, or one poll of the task. -/
def step (s : Bridge) : Action → Option Bridge
  | .send command => if s.commandsHeld then some (s.send command) else none
  | .dropCommands => some { s with commandsHeld := false }
  | .takeOutput =>
    if s.outputHeld then
      s.output.recv.map fun (chunk, output) => { s with output := output, taken := s.taken ++ [chunk] }
    else none
  | .dropOutput => some { s with outputHeld := false }
  | .requestClose => some { s with closeRequested := true }
  | .machineRemoved state => if s.login && s.removed.isNone then some { s with removed := some state } else none
  | .pollRead => if s.phase = .selecting ∧ s.readRetry = false then some { s with reading := true } else none
  | .pollWrite =>
    if s.phase = .selecting ∧ s.pendingInput ≠ [] ∧ s.writeRetry = false then some { s with writing := true }
    else none
  | .closeWins => if s.closeRequested && !s.ended then some (s.finish .closed) else none
  | .removedWins => if s.ended then none else s.removed.map s.finish
  | .outputGone => if !s.outputHeld && !s.ended then some (s.finish .closed) else none
  | .command => if s.phase = .selecting ∧ s.pendingInput = [] then s.receive else none
  | .readTimer =>
    if s.phase = .selecting ∧ s.readRetry = true then some { s.completed with readRetry := false } else none
  | .writeTimer =>
    if s.phase = .selecting ∧ s.writeRetry = true then some { s.completed with writeRetry := false } else none
  | .readDone result readClosed =>
    if s.phase = .selecting ∧ s.readRetry = false then s.readDone result readClosed else none
  | .writeDone result =>
    if s.phase = .selecting ∧ s.pendingInput ≠ [] ∧ s.writeRetry = false then s.writeDone result else none
  | .outputSent => s.outputSent

def Step (s : Bridge) (action : Action) (t : Bridge) : Prop := step s action = some t

def start (login : Bool) : Bridge := { login := login }

/-- What a command writes to the pseudoterminal. -/
def inputBytes : TerminalCommand → List UInt8
  | .input bytes => bytes
  | .reply bytes => bytes
  | .resize _ => []

def Bridge.chunks (s : Bridge) : List (List UInt8) := s.taken ++ s.output.items

/-- The queued bytes are written, pending, or still in the queue, in this order. -/
def InputOrder (s : Bridge) : Prop :=
  s.written ++ s.pendingInput ++ s.commands.items.flatMap inputBytes = s.queued.flatMap inputBytes

/-- The bridge ended because it was asked to close or the machine was removed. -/
def Bridge.ClosedOrRemoved (s : Bridge) : Prop :=
  s.phase = .ended .closed ∧ s.closeRequested = true ∨
    ∃ state, s.phase = .ended state ∧ s.removed = some state

/-- The bridge ended because nobody is left to take its output. -/
def Bridge.OutputGone (s : Bridge) : Prop := s.phase = .ended .closed ∧ s.outputHeld = false

/-- The chunks that were sent are the bytes that were read, but for one chunk more that
waits to be sent, or was dropped when the bridge ended. -/
def OutputOrder (s : Bridge) : Prop :=
  match s.phase with
  | .selecting => s.read = s.chunks.flatten
  | .sending chunk => s.read = s.chunks.flatten ++ chunk ∧ chunk.length ≤ bufferSize
  | .ended _ => s.read = s.chunks.flatten ∨
      (s.ClosedOrRemoved ∨ s.OutputGone) ∧
        ∃ chunk, s.read = s.chunks.flatten ++ chunk ∧ chunk.length ≤ bufferSize

/-! ## Input -/

theorem send_inputOrder (command : TerminalCommand) (h : InputOrder s) : InputOrder (s.send command) := by
  unfold Bridge.send
  split
  · rename_i commands hsend
    simp only [sendTerminalCommand] at hsend
    split at hsend
    · cases hsend
    · split at hsend
      · rename_i commands' htry
        cases hsend
        simp only [InputOrder, Queue.trySend_items htry, List.flatMap_append, ← List.append_assoc] at h ⊢
        rw [h]
      · cases hsend
  · exact h

theorem hangup_inputOrder (h : InputOrder s) : InputOrder s.hangup := by
  unfold Bridge.hangup
  split
  · exact h
  · exact h

/-- Nothing is pending, so the command that is taken comes next. -/
theorem receive_inputOrder (h : InputOrder s) (hpending : s.pendingInput = []) (hs : s.receive = some t) :
    InputOrder t := by
  rw [InputOrder, hpending, List.append_nil] at h
  unfold Bridge.receive at hs
  split at hs
  · rename_i bytes commands hrecv
    cases hs
    rw [Queue.recv_items hrecv] at h
    simpa [InputOrder, Bridge.completed, inputBytes] using h
  · rename_i bytes commands hrecv
    cases hs
    rw [Queue.recv_items hrecv] at h
    simpa [InputOrder, Bridge.completed, inputBytes] using h
  · rename_i size commands hrecv
    cases hs
    rw [Queue.recv_items hrecv] at h
    simpa [InputOrder, Bridge.completed, inputBytes, hpending] using h
  · split at hs
    · cases hs
    · cases hs
      simpa [InputOrder, Bridge.finish, Bridge.completed, hpending] using h

theorem readDone_inputOrder {result : ReadResult} {readClosed : Bool} (h : InputOrder s)
    (hs : s.readDone result readClosed = some t) : InputOrder t := by
  unfold Bridge.readDone at hs
  split at hs
  · cases hs
    exact hangup_inputOrder h
  · split at hs
    · cases hs
      exact h
    · cases hs
  · cases hs
    exact hangup_inputOrder h
  · cases hs
    split
    · exact hangup_inputOrder h
    · exact h
  · cases hs
    exact h
  · cases hs
    exact h

/-- A short write keeps the rest pending. -/
theorem writeDone_inputOrder {result : WriteResult} (h : InputOrder s) (hs : s.writeDone result = some t) :
    InputOrder t := by
  unfold Bridge.writeDone at hs
  split at hs
  · cases hs
    exact h
  · rename_i count _
    split at hs
    · cases hs
      have hsplit : s.written ++ s.pendingInput.take count ++ s.pendingInput.drop count =
          s.written ++ s.pendingInput := by
        rw [List.append_assoc, List.take_append_drop]
      simp only [InputOrder, Bridge.completed, hsplit]
      exact h
    · cases hs
  · cases hs
    exact h
  · cases hs
    exact h
  · cases hs
    exact h
  · cases hs
    exact h

theorem step_inputOrder (h : InputOrder s) (hs : Step s action t) : InputOrder t := by
  cases action with
  | send command =>
    simp only [Step, step] at hs
    split at hs
    · cases hs
      exact send_inputOrder command h
    · cases hs
  | command =>
    simp only [Step, step] at hs
    split at hs
    · rename_i hguard
      exact receive_inputOrder h hguard.2 hs
    · cases hs
  | readDone result readClosed =>
    simp only [Step, step] at hs
    split at hs
    · exact readDone_inputOrder h hs
    · cases hs
  | writeDone result =>
    simp only [Step, step] at hs
    split at hs
    · exact writeDone_inputOrder h hs
    · cases hs
  | outputSent =>
    simp only [Step, step, Bridge.outputSent] at hs
    split at hs
    · split at hs
      · rw [Option.map_eq_some_iff] at hs
        obtain ⟨output, -, rfl⟩ := hs
        exact h
      · cases hs
    · cases hs
  | takeOutput =>
    simp only [Step, step] at hs
    split at hs
    · rw [Option.map_eq_some_iff] at hs
      obtain ⟨taken, -, rfl⟩ := hs
      exact h
    · cases hs
  | removedWins =>
    simp only [Step, step] at hs
    split at hs
    · cases hs
    · rw [Option.map_eq_some_iff] at hs
      obtain ⟨state, -, rfl⟩ := hs
      exact h
  | _ =>
    simp only [Step, step] at hs
    try split at hs
    all_goals cases hs
    all_goals exact h

/-! ## Output -/

theorem outputOrder_selecting (hphase : s.phase = .selecting) : OutputOrder s ↔ s.read = s.chunks.flatten := by
  simp [OutputOrder, hphase]

/-- Ending while nothing is on its way to the session loses nothing. -/
theorem finish_outputOrder (hphase : s.phase = .selecting) (state : SessionLifecycle) (h : OutputOrder s) :
    OutputOrder (s.finish state) := by
  rw [outputOrder_selecting hphase] at h
  exact .inl h

/-- A branch that ends the bridge in either `select!`, and may drop the chunk on its way. -/
theorem wins_outputOrder {state : SessionLifecycle} (h : OutputOrder s) (hended : s.ended = false)
    (hwins : (s.finish state).ClosedOrRemoved ∨ (s.finish state).OutputGone) : OutputOrder (s.finish state) := by
  cases hphase : s.phase with
  | selecting => exact finish_outputOrder hphase state h
  | sending chunk =>
    simp only [OutputOrder, hphase] at h
    exact .inr ⟨hwins, chunk, h⟩
  | ended state => simp [Bridge.ended, hphase] at hended

theorem hangup_outputOrder (hphase : s.phase = .selecting) (h : OutputOrder s) : OutputOrder s.hangup := by
  unfold Bridge.hangup
  split
  · exact h
  · exact finish_outputOrder hphase _ h

theorem readDone_outputOrder {result : ReadResult} {readClosed : Bool} (hphase : s.phase = .selecting)
    (h : OutputOrder s) (hs : s.readDone result readClosed = some t) : OutputOrder t := by
  unfold Bridge.readDone at hs
  split at hs
  · cases hs
    exact hangup_outputOrder hphase h
  · split at hs
    · rename_i hlength
      cases hs
      rw [outputOrder_selecting hphase] at h
      exact ⟨congrArg (· ++ _) h, hlength⟩
    · cases hs
  · cases hs
    exact hangup_outputOrder hphase h
  · cases hs
    split
    · exact hangup_outputOrder hphase h
    · exact h
  · cases hs
    exact h
  · cases hs
    exact finish_outputOrder hphase _ h

theorem writeDone_outputOrder {result : WriteResult} (hphase : s.phase = .selecting) (h : OutputOrder s)
    (hs : s.writeDone result = some t) : OutputOrder t := by
  unfold Bridge.writeDone at hs
  split at hs
  · cases hs
    exact finish_outputOrder hphase _ h
  · split at hs
    · cases hs
      exact h
    · cases hs
  · cases hs
    exact h
  · cases hs
    exact h
  · cases hs
    exact h
  · cases hs
    exact finish_outputOrder hphase _ h

theorem receive_outputOrder (hphase : s.phase = .selecting) (h : OutputOrder s) (hs : s.receive = some t) :
    OutputOrder t := by
  unfold Bridge.receive at hs
  split at hs
  · cases hs
    exact h
  · cases hs
    exact h
  · cases hs
    exact h
  · split at hs
    · cases hs
    · cases hs
      exact finish_outputOrder hphase _ h

theorem outputSent_outputOrder (h : OutputOrder s) (hs : s.outputSent = some t) : OutputOrder t := by
  unfold Bridge.outputSent at hs
  split at hs
  · rename_i chunk hphase
    split at hs
    · rw [Option.map_eq_some_iff] at hs
      obtain ⟨output, hsend, rfl⟩ := hs
      simp only [OutputOrder, hphase] at h
      simp [OutputOrder, Bridge.chunks, Queue.trySend_items hsend, h.1]
    · cases hs
  · cases hs

theorem send_outputOrder (command : TerminalCommand) (h : OutputOrder s) : OutputOrder (s.send command) := by
  unfold Bridge.send
  split
  · exact h
  · exact h

/-- Requests to stop only ever come; they leave what is on its way alone. -/
theorem raised_outputOrder (h : OutputOrder s) (hphase : t.phase = s.phase) (hread : t.read = s.read)
    (hchunks : t.chunks = s.chunks) (hclose : s.closeRequested = true → t.closeRequested = true)
    (hremoved : ∀ state, s.removed = some state → t.removed = some state)
    (hheld : s.outputHeld = false → t.outputHeld = false) : OutputOrder t := by
  unfold OutputOrder at h ⊢
  rw [hphase, hread, hchunks]
  split at h
  · exact h
  · exact h
  · apply h.imp_right
    intro hlost
    refine ⟨?_, hlost.2⟩
    obtain (⟨hend, hasked⟩ | ⟨state, hend, hgone⟩) | ⟨hend, hgone⟩ := hlost.1
    · exact .inl (.inl ⟨hphase.trans hend, hclose hasked⟩)
    · exact .inl (.inr ⟨state, hphase.trans hend, hremoved state hgone⟩)
    · exact .inr ⟨hphase.trans hend, hheld hgone⟩

/-- What the session takes moves from its queue to what it has. -/
theorem takeOutput_chunks {chunk : List UInt8} {output : Output} (hrecv : s.output.recv = some (chunk, output)) :
    { s with output := output, taken := s.taken ++ [chunk] }.chunks = s.chunks := by
  simp [Bridge.chunks, Queue.recv_items hrecv]

theorem step_outputOrder (h : OutputOrder s) (hs : Step s action t) : OutputOrder t := by
  cases action with
  | send command =>
    simp only [Step, step] at hs
    split at hs
    · cases hs
      exact send_outputOrder command h
    · cases hs
  | takeOutput =>
    simp only [Step, step] at hs
    split at hs
    · rw [Option.map_eq_some_iff] at hs
      obtain ⟨⟨chunk, output⟩, hrecv, rfl⟩ := hs
      simp only [OutputOrder, takeOutput_chunks hrecv]
      exact h
    · cases hs
  | dropOutput =>
    cases hs
    exact raised_outputOrder h rfl rfl rfl id (fun _ => id) fun _ => rfl
  | requestClose =>
    cases hs
    exact raised_outputOrder h rfl rfl rfl (fun _ => rfl) (fun _ => id) id
  | machineRemoved state =>
    simp only [Step, step] at hs
    split at hs
    · rename_i hguard
      cases hs
      have hfirst : ∀ state', s.removed = some state' → some state = some state' := by
        intro state' hremoved
        simp [hremoved] at hguard
      exact raised_outputOrder h rfl rfl rfl id hfirst id
    · cases hs
  | closeWins =>
    simp only [Step, step] at hs
    split at hs
    · rename_i hguard
      cases hs
      simp only [Bool.and_eq_true, Bool.not_eq_true'] at hguard
      exact wins_outputOrder h hguard.2 (.inl (.inl ⟨rfl, hguard.1⟩))
    · cases hs
  | removedWins =>
    simp only [Step, step] at hs
    split at hs
    · cases hs
    · rename_i hended
      rw [Option.map_eq_some_iff] at hs
      obtain ⟨state, hremoved, rfl⟩ := hs
      exact wins_outputOrder h (by simpa using hended) (.inl (.inr ⟨state, rfl, hremoved⟩))
  | outputGone =>
    simp only [Step, step] at hs
    split at hs
    · rename_i hguard
      cases hs
      simp only [Bool.and_eq_true, Bool.not_eq_true'] at hguard
      exact wins_outputOrder h hguard.2 (.inr ⟨rfl, hguard.1⟩)
    · cases hs
  | command =>
    simp only [Step, step] at hs
    split at hs
    · rename_i hguard
      exact receive_outputOrder hguard.1 h hs
    · cases hs
  | readDone result readClosed =>
    simp only [Step, step] at hs
    split at hs
    · rename_i hguard
      exact readDone_outputOrder hguard.1 h hs
    · cases hs
  | writeDone result =>
    simp only [Step, step] at hs
    split at hs
    · rename_i hguard
      exact writeDone_outputOrder hguard.1 h hs
    · cases hs
  | outputSent => exact outputSent_outputOrder h hs
  | _ =>
    simp only [Step, step] at hs
    try split at hs
    all_goals cases hs
    all_goals exact h

/-! ## Runs -/

theorem run_order (h : Run Step (start login) actions s) : InputOrder s ∧ OutputOrder s := by
  constructor
  · exact h.invariant rfl fun _ _ _ hinv hs => step_inputOrder hinv hs
  · exact h.invariant rfl fun _ _ _ hinv hs => step_outputOrder hinv hs

/-- Whatever the order of events, what was written is the first of the queued bytes, and what
was sent are the bytes that were read, up to the chunk on its way; that one is dropped only
when a request to close, the removal of the machine or the loss of the receiver wins. -/
theorem bridge_order (h : Run Step (start login) actions s) :
    s.written <+: s.queued.flatMap inputBytes ∧ OutputOrder s := by
  obtain ⟨hinput, houtput⟩ := run_order h
  rw [InputOrder, List.append_assoc] at hinput
  exact ⟨⟨_, hinput⟩, houtput⟩

/-- A login reads, hangs up, waits, gets a short write in, and is closed while a chunk waits. -/
theorem bridge_order_closed :
    Run Step (start true)
      [.send (.input [97, 98, 99]), .send (.resize ⟨80, 24⟩), .command, .pollRead, .writeDone (.ok 2), .writeDone .eio,
        .readDone (.ok [36]) false, .outputSent, .readDone .eio true, .readTimer, .readDone (.ok [37]) false,
        .requestClose, .closeWins]
      { login := true, commands := ⟨[.resize ⟨80, 24⟩], by decide⟩, output := ⟨[[36]], by decide⟩,
        closeRequested := true, writeRetry := true, pendingInput := [99], phase := .ended .closed,
        queued := [.input [97, 98, 99], .resize ⟨80, 24⟩], written := [97, 98], read := [36, 37] } ∧
    ([97, 98] : List UInt8) <+: [TerminalCommand.input [97, 98, 99], .resize ⟨80, 24⟩].flatMap inputBytes :=
  have hrun := Run.of_foldlM (fun _ _ _ h => h) rfl
  ⟨hrun, (bridge_order hrun).1⟩

/-- The session stops listening while a chunk waits: the chunk is lost although nobody asked
to close and the machine is still there. -/
theorem chunk_lost_without_receiver :
    ¬ ∀ login actions s, Run Step (start login) actions s →
      s.written <+: s.queued.flatMap inputBytes ∧
        ∃ chunk, s.read = s.chunks.flatten ++ chunk ∧
          (chunk = [] ∨ s.phase = .sending chunk ∨ s.ClosedOrRemoved) := by
  intro h
  have hrun : Run Step (start false) [.readDone (.ok [36]) false, .dropOutput, .outputGone]
      { login := false, outputHeld := false, phase := .ended .closed, read := [36] } :=
    Run.of_foldlM (fun _ _ _ h => h) rfl
  obtain ⟨-, chunk, hread, hlost⟩ := h _ _ _ hrun
  have hchunk : [36] = chunk := hread
  rcases hlost with hnil | hsending | ⟨-, hclose⟩ | ⟨state, -, hremoved⟩
  · simp [← hchunk] at hnil
  · simp at hsending
  · simp at hclose
  · simp at hremoved

end Lasper.Terminal.MachinePty
