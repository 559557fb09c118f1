import Lasper.Cli.Invocation
import Lasper.Lib.Runs
import Lasper.Terminal.Channel
import Mathlib.Tactic.SplitIfs

/-! The size of an embedded shell tab. The panel sends a size once and trusts the queue; the
prompt keeps the last size it took out for the next shell, and while a shell is bridged the
sizes are passed on to a second queue. -/

namespace Lasper.Terminal.ShellSizes

open Lib Config Cli

/-- The session of the selected user's shell. -/
structure Remote where
  size : SessionSize
  commands : Commands := .empty
  inputOpen : Bool := true

inductive Phase
  | prompting
  | typing (rest : List UInt8)
  | launching (size : SessionSize) (rest : List UInt8)
  | bridging (remote : Remote) (sending : Option TerminalCommand) (finished : Bool) (rest : List UInt8)
  | ended

/-- A tab: what the panel believes queued, the queue to the task of the tab, and the task. The
size in `consumed` is the one of the last `Resize` the task took out of the queue; `opened` records
for every shell the size it was opened with and the size consumed last before that. -/
structure Tab where
  queuedSize : Option SessionSize
  resizeChannelClosed : Bool := false
  commands : Commands := .empty
  line : List UInt8 := []
  size : SessionSize
  rootConfirmation : Option ValidatedGuestUserName := none
  phase : Phase := .prompting
  consumed : SessionSize
  opened : List (SessionSize × SessionSize) := []

inductive Action
  | requestResize (cols rows : ℕ)
  | input (bytes : List UInt8)
  | reply (bytes : List UInt8)
  | receive
  | byte
  | launched
  | launchFailed
  | sent
  | shellReceive
  | shellInputClosed
  | shellExited
  | bridgeFinished
  | close

def Tab.ended (s : Tab) : Bool :=
  match s.phase with
  | .ended => true
  | _ => false

/-- `SessionSize::new` -/
def sessionSize (cols rows : ℕ) : Option SessionSize :=
  if 0 < cols ∧ 0 < rows then some ⟨cols, rows⟩ else none

def Tab.send (s : Tab) (command : TerminalCommand) : SessionSendStatus × Tab :=
  let sent := sendTerminalCommand s.ended s.commands command
  (sent.1, { s with commands := sent.2 })

def Tab.queueResize (s : Tab) (cols rows : ℕ) : Tab :=
  match sessionSize cols rows with
  | none => { s with resizeChannelClosed := true }
  | some size =>
    match s.send (.resize size) with
    | (.queued, s) => { s with queuedSize := some size }
    | (.full, s) => s
    | (.closed, s) => { s with resizeChannelClosed := true }

def Tab.requestResize (s : Tab) (cols rows : ℕ) : Tab :=
  if s.resizeChannelClosed || s.queuedSize = some ⟨cols, rows⟩ then s else s.queueResize cols rows

def userMaxBytes : ℕ := 32

/-- What `from_utf8_lossy` gives for a line of printable characters. -/
def lineText (line : List UInt8) : Text := line.map fun byte => Char.ofNat byte.toNat

def isRoot (user : ValidatedGuestUserName) : Bool := user.text = "root".toList || user.text = "0".toList

/-- The end of a line at the prompt. -/
def Tab.enter (s : Tab) (rest : List UInt8) : Tab :=
  if s.line = [] then { s with phase := .typing rest }
  else
    match ValidatedGuestUserName.new (lineText s.line) with
    | .error _ => { s with line := [], rootConfirmation := none, phase := .typing rest }
    | .ok user =>
      if isRoot user && s.rootConfirmation != some user then
        { s with line := [], rootConfirmation := some user, phase := .typing rest }
      else { s with line := [], rootConfirmation := none, phase := .launching s.size rest }

def isAsciiGraphic (byte : UInt8) : Bool := 33 ≤ byte && byte ≤ 126

/-- One byte of what was typed at the prompt. -/
def Tab.byte (s : Tab) (byte : UInt8) (rest : List UInt8) : Tab :=
  if byte = 13 || byte = 10 then s.enter rest
  else if byte = 4 && s.line = [] then { s with phase := .ended }
  else if byte = 3 then { s with line := [], rootConfirmation := none, phase := .typing rest }
  else if (byte = 8 || byte = 127) && s.line != [] then { s with line := s.line.dropLast, phase := .typing rest }
  else if isAsciiGraphic byte && s.line.length < userMaxBytes then
    { s with line := s.line ++ [byte], phase := .typing rest }
  else { s with phase := .typing rest }

def resized (size : SessionSize) : TerminalCommand → SessionSize
  | .resize next => next
  | _ => size

/-- The size after the commands of a queue. -/
def lastSize (size : SessionSize) (commands : List TerminalCommand) : SessionSize := commands.foldl resized size

/-- A command at the prompt. -/
def Tab.promptCommand (s : Tab) : TerminalCommand → Tab
  | .resize next => { s with size := next }
  | .reply _ => s
  | .input bytes => { s with phase := .typing bytes }

/-- A command while a shell is bridged; text waits for room, a size does not. -/
def bridgeCommand (remote : Remote) (finished : Bool) (command : TerminalCommand) :
    Remote × Option TerminalCommand :=
  if finished then (remote, none)
  else match command with
    | .resize _ => ({ remote with commands := (sendTerminalCommand (!remote.inputOpen) remote.commands command).2 }, none)
    | _ => (remote, some command)

def Tab.receive (s : Tab) : Option Tab :=
  match s.commands.recv with
  | none => none
  | some (command, commands) =>
    let s' := { s with commands := commands, consumed := resized s.consumed command }
    match s.phase with
    | .prompting => some (s'.promptCommand command)
    | .bridging remote none finished rest =>
      let bridged := bridgeCommand remote finished command
      some { s' with phase := .bridging bridged.1 bridged.2 finished rest }
    | _ => none

def step (s : Tab) : Action → Option Tab
  | .requestResize cols rows => some (s.requestResize cols rows)
  | .input bytes => some (s.send (.input bytes)).2
  | .reply bytes => some (s.send (.reply bytes)).2
  | .receive => s.receive
  | .byte =>
    match s.phase with
    | .typing [] => some { s with phase := .prompting }
    | .typing (byte :: rest) => some (s.byte byte rest)
    | _ => none
  | .launched =>
    match s.phase with
    | .launching size rest =>
      some { s with
        phase := .bridging { size := size } none false rest
        opened := s.opened ++ [(size, s.consumed)] }
    | _ => none
  | .launchFailed =>
    match s.phase with
    | .launching _ rest => some { s with phase := .typing rest }
    | _ => none
  | .sent =>
    match s.phase with
    | .bridging remote (some command) finished rest =>
      if remote.inputOpen then
        (remote.commands.trySend command).map fun commands =>
          { s with phase := .bridging { remote with commands := commands } none finished rest }
      else some { s with phase := .bridging remote none finished rest }
    | _ => none
  | .shellReceive =>
    match s.phase with
    | .bridging remote sending finished rest =>
      if remote.inputOpen then
        remote.commands.recv.map fun (command, commands) =>
          { s with
            phase := .bridging { remote with size := resized remote.size command, commands := commands }
              sending finished rest }
      else none
    | _ => none
  | .shellInputClosed =>
    match s.phase with
    | .bridging remote sending finished rest =>
      some { s with phase := .bridging { remote with inputOpen := false } sending finished rest }
    | _ => none
  | .shellExited =>
    match s.phase with
    | .bridging remote none false rest => some { s with phase := .bridging remote none true rest }
    | _ => none
  | .bridgeFinished =>
    match s.phase with
    | .bridging _ none true rest => some { s with phase := .typing rest }
    | _ => none
  | .close =>
    match s.phase with
    | .prompting => some { s with phase := .ended }
    | .bridging _ none _ _ => some { s with phase := .ended }
    | _ => none

def Step (s : Tab) (action : Action) (t : Tab) : Prop := step s action = some t

def start (size : SessionSize) : Tab := { queuedSize := some size, size := size, consumed := size }

/-- A `Resize` is taken out while a shell is bridged that has no room for it or is gone. -/
def Tab.dropsResize (s : Tab) : Action → Bool
  | .receive =>
    match s.commands.recv, s.phase with
    | some (.resize _, _), .bridging remote none finished _ => finished || !remote.inputOpen || remote.commands.full
    | _, _ => false
  | _ => false

/-- The sizes that were taken out of the queue: the last one at the prompt, and the last one since
then that was taken out while a shell was bridged. -/
structure Taken where
  atPrompt : SessionSize
  whileBridged : Option SessionSize := none

def Taken.after (taken : Taken) (s : Tab) : Action → Taken
  | .receive =>
    match s.commands.recv, s.phase with
    | some (.resize size, _), .prompting => ⟨size, none⟩
    | some (.resize size, _), .bridging _ none _ _ => { taken with whileBridged := some size }
    | _, _ => taken
  | _ => taken

/-- Since the last `Resize` at the prompt one of another size was taken out last, while a shell was
bridged. -/
def Taken.overtaken (taken : Taken) : Bool := taken.whileBridged.any (· != taken.atPrompt)

/-- A tab and a record of the sizes that its task took out. -/
structure Watched where
  tab : Tab
  taken : Taken

def WatchedStep (w : Watched) (action : Action) (v : Watched) : Prop :=
  Step w.tab action v.tab ∧ v.taken = w.taken.after w.tab action

def QuietStep (w : Watched) (action : Action) (v : Watched) : Prop :=
  WatchedStep w action v ∧ w.tab.dropsResize action = false ∧ (action = .launched → w.taken.overtaken = false)

def watch (size : SessionSize) : Watched := ⟨start size, ⟨size, none⟩⟩

variable {s t : Tab} {w v : Watched} {action : Action} {actions : List Action} {size : SessionSize} {remote : Remote}
  {sending : Option TerminalCommand} {finished : Bool} {rest : List UInt8} {command : TerminalCommand}

@[simp]
theorem lastSize_append (size : SessionSize) (commands : List TerminalCommand) (command : TerminalCommand) :
    lastSize size (commands ++ [command]) = resized (lastSize size commands) command := by
  simp [lastSize]

theorem lastSize_cons (size : SessionSize) (command : TerminalCommand) (commands : List TerminalCommand) :
    lastSize size (command :: commands) = lastSize (resized size command) commands := rfl

/-! ## What the panel believes -/

/-- The size the panel believes queued is the one after all that is in the queue. -/
def Believed (s : Tab) : Prop := s.ended = false → s.queuedSize = some (lastSize s.consumed s.commands.items)

/-- A step of the task that takes nothing out of the queue and consumes no size. -/
theorem believed_frame (h : Believed s) (hended : t.ended = false → s.ended = false) (hqueued : t.queuedSize = s.queuedSize)
    (hconsumed : t.consumed = s.consumed) (hcommands : t.commands = s.commands) : Believed t := by
  intro ht
  rw [hqueued, hconsumed, hcommands]
  exact h (hended ht)

theorem send_believed (hcommand : ∀ size, resized size command = size) (h : Believed s) :
    Believed (s.send command).2 := by
  intro hended
  have hbelieved := h hended
  have hopen : s.ended = false := hended
  simp only [Tab.send, sendTerminalCommand, hopen, Bool.false_eq_true, if_false]
  split
  · rename_i commands hsend
    simp only [Queue.trySend_items hsend, lastSize_append, hcommand]
    exact hbelieved
  · exact hbelieved

theorem queueResize_believed (cols rows : ℕ) (h : Believed s) : Believed (s.queueResize cols rows) := by
  unfold Tab.queueResize
  split
  · exact h
  · rename_i size hsize
    cases hended : s.ended with
    | true =>
      have hstill : ∀ t : Tab, t.phase = s.phase → Believed t := by
        intro t hphase ht
        simp [Tab.ended, hphase] at ht
        simp [Tab.ended, ht] at hended
      simp only [Tab.send, sendTerminalCommand, hended, if_true]
      exact hstill _ rfl
    | false =>
      simp only [Tab.send, sendTerminalCommand, hended, Bool.false_eq_true, if_false]
      cases hsend : s.commands.trySend (.resize size) with
      | none => exact h
      | some commands =>
        intro _
        simp [Queue.trySend_items hsend, resized]

theorem requestResize_believed (cols rows : ℕ) (h : Believed s) : Believed (s.requestResize cols rows) := by
  unfold Tab.requestResize
  split_ifs
  · exact h
  · exact queueResize_believed cols rows h

theorem receive_believed (h : Believed s) (hs : s.receive = some t) : Believed t := by
  unfold Tab.receive at hs
  split at hs
  · cases hs
  · rename_i command commands hrecv
    have hnext : s.ended = false → s.queuedSize = some (lastSize (resized s.consumed command) commands.items) := by
      intro hended
      rw [h hended, Queue.recv_items hrecv, lastSize_cons]
    split at hs
    · rename_i hphase
      cases hs
      intro _
      have hopen : s.ended = false := by simp [Tab.ended, hphase]
      cases command <;> exact hnext hopen
    · rename_i hphase
      cases hs
      intro _
      exact hnext (by simp [Tab.ended, hphase])
    · cases hs

/-- What a byte at the prompt leaves alone, and where it may lead. -/
theorem byte_frame (byte : UInt8) :
    (s.byte byte rest).queuedSize = s.queuedSize ∧ (s.byte byte rest).consumed = s.consumed ∧
      (s.byte byte rest).commands = s.commands ∧ (s.byte byte rest).opened = s.opened ∧
      ∀ remote sending finished rest', (s.byte byte rest).phase ≠ .bridging remote sending finished rest' := by
  unfold Tab.byte Tab.enter
  split_ifs <;> (try split) <;> (try split_ifs) <;> simp

theorem step_believed (h : Believed s) (hs : Step s action t) : Believed t := by
  cases action with
  | requestResize cols rows =>
    cases hs
    exact requestResize_believed cols rows h
  | input bytes =>
    cases hs
    exact send_believed (fun _ => rfl) h
  | reply bytes =>
    cases hs
    exact send_believed (fun _ => rfl) h
  | receive => exact receive_believed h hs
  | byte =>
    simp only [Step, step] at hs
    split at hs
    · rename_i hphase
      cases hs
      exact believed_frame h (fun _ => by simp [Tab.ended, hphase]) rfl rfl rfl
    · rename_i byte rest hphase
      cases hs
      obtain ⟨hqueued, hconsumed, hcommands, -, -⟩ := @byte_frame s rest byte
      exact believed_frame h (fun _ => by simp [Tab.ended, hphase]) hqueued hconsumed hcommands
    · cases hs
  | sent =>
    simp only [Step, step] at hs
    split at hs
    · rename_i hphase
      have hopen : s.ended = false := by simp [Tab.ended, hphase]
      split_ifs at hs
      · rw [Option.map_eq_some_iff] at hs
        obtain ⟨commands, -, rfl⟩ := hs
        exact believed_frame h (fun _ => hopen) rfl rfl rfl
      · cases hs
        exact believed_frame h (fun _ => hopen) rfl rfl rfl
    · cases hs
  | shellReceive =>
    simp only [Step, step] at hs
    split at hs
    · rename_i hphase
      have hopen : s.ended = false := by simp [Tab.ended, hphase]
      split_ifs at hs
      rw [Option.map_eq_some_iff] at hs
      obtain ⟨taken, -, rfl⟩ := hs
      exact believed_frame h (fun _ => hopen) rfl rfl rfl
    · cases hs
  | close =>
    simp only [Step, step] at hs
    split at hs
    · cases hs
      exact fun ht => by simp [Tab.ended] at ht
    · cases hs
      exact fun ht => by simp [Tab.ended] at ht
    · cases hs
  | _ =>
    simp only [Step, step] at hs
    split at hs
    · rename_i hphase
      cases hs
      exact believed_frame h (fun _ => by simp [Tab.ended, hphase]) rfl rfl rfl
    · cases hs

/-! ## What the shells get -/

/-- The shell that is bridged has, after all that is queued for it, the size consumed last. -/
def Delivered (s : Tab) : Prop :=
  ∀ remote sending finished rest, s.phase = .bridging remote sending finished rest →
    lastSize remote.size remote.commands.items = s.consumed ∧
      ∀ command, sending = some command → ∀ size, resized size command = size

def OpenedCurrent (s : Tab) : Prop := ∀ opened ∈ s.opened, opened.1 = opened.2

theorem delivered_of_not_bridging
    (h : ∀ remote sending finished rest, s.phase ≠ .bridging remote sending finished rest) : Delivered s :=
  fun _ _ _ _ hphase => absurd hphase (h _ _ _ _)

/-- A size is passed on where there is room for it, and text waits. -/
theorem bridgeCommand_delivered {consumed : SessionSize}
    (h : lastSize remote.size remote.commands.items = consumed)
    (hroom : ∀ size, command = .resize size →
      (finished || !remote.inputOpen || remote.commands.full) = false) :
    lastSize (bridgeCommand remote finished command).1.size (bridgeCommand remote finished command).1.commands.items =
        resized consumed command ∧
      ∀ text, (bridgeCommand remote finished command).2 = some text → ∀ size, resized size text = size := by
  cases command with
  | input bytes =>
    unfold bridgeCommand
    split
    · exact ⟨h, nofun⟩
    · refine ⟨h, ?_⟩
      rintro _ ⟨⟩ _
      rfl
  | reply bytes =>
    unfold bridgeCommand
    split
    · exact ⟨h, nofun⟩
    · refine ⟨h, ?_⟩
      rintro _ ⟨⟩ _
      rfl
  | resize size =>
    have hquiet := hroom size rfl
    simp only [Bool.or_eq_false_iff, Bool.not_eq_false'] at hquiet
    obtain ⟨⟨hrunning, hinput⟩, hfull⟩ := hquiet
    obtain ⟨commands, hsend⟩ := Option.isSome_iff_exists.mp (Queue.trySend_isSome hfull (.resize size))
    simp [bridgeCommand, hrunning, sendTerminalCommand, hinput, hsend, Queue.trySend_items hsend, resized]

theorem receive_delivered (h : Delivered s) (hquiet : s.dropsResize .receive = false) (hs : s.receive = some t) :
    Delivered t ∧ t.opened = s.opened := by
  unfold Tab.receive at hs
  split at hs
  · cases hs
  · rename_i command commands hrecv
    split at hs
    · cases hs
      refine ⟨delivered_of_not_bridging ?_, ?_⟩
      · cases command <;> simp [Tab.promptCommand, *]
      · cases command <;> rfl
    · rename_i remote finished rest hphase
      cases hs
      refine ⟨?_, rfl⟩
      rintro _ _ _ _ ⟨⟩
      apply bridgeCommand_delivered (h _ _ _ _ hphase).1
      rintro size rfl
      simpa [Tab.dropsResize, hrecv, hphase] using hquiet
    · cases hs

theorem delivered_frame (h : Delivered s) (hphase : t.phase = s.phase) (hconsumed : t.consumed = s.consumed) :
    Delivered t := by
  intro remote sending finished rest ht
  rw [hconsumed]
  exact h _ _ _ _ (hphase ▸ ht)

theorem requestResize_frame (cols rows : ℕ) : (s.requestResize cols rows).phase = s.phase ∧
    (s.requestResize cols rows).consumed = s.consumed ∧ (s.requestResize cols rows).opened = s.opened ∧
    (s.requestResize cols rows).line = s.line ∧
    (s.requestResize cols rows).rootConfirmation = s.rootConfirmation := by
  unfold Tab.requestResize Tab.queueResize Tab.send
  split_ifs
  · simp
  · split
    · simp
    · split
      · rename_i hsend
        obtain ⟨-, rfl⟩ := Prod.mk.inj hsend
        simp
      · rename_i hsend
        obtain ⟨-, rfl⟩ := Prod.mk.inj hsend
        simp
      · rename_i hsend
        obtain ⟨-, rfl⟩ := Prod.mk.inj hsend
        simp

theorem sent_delivered (h : Delivered s) (hs : step s .sent = some t) : Delivered t ∧ t.opened = s.opened := by
  simp only [step] at hs
  split at hs
  · rename_i remote command finished rest hphase
    obtain ⟨hsize, htext⟩ := h _ _ _ _ hphase
    split_ifs at hs
    · rw [Option.map_eq_some_iff] at hs
      obtain ⟨commands, hsend, rfl⟩ := hs
      refine ⟨?_, rfl⟩
      rintro _ _ _ _ ⟨⟩
      refine ⟨?_, nofun⟩
      simp only [Queue.trySend_items hsend, lastSize_append, htext command rfl]
      exact hsize
    · cases hs
      refine ⟨?_, rfl⟩
      rintro _ _ _ _ ⟨⟩
      exact ⟨hsize, nofun⟩
  · cases hs

theorem shellReceive_delivered (h : Delivered s) (hs : step s .shellReceive = some t) :
    Delivered t ∧ t.opened = s.opened := by
  simp only [step] at hs
  split at hs
  · rename_i remote sending finished rest hphase
    obtain ⟨hsize, htext⟩ := h _ _ _ _ hphase
    split_ifs at hs
    rw [Option.map_eq_some_iff] at hs
    obtain ⟨⟨command, commands⟩, hrecv, rfl⟩ := hs
    refine ⟨?_, rfl⟩
    rintro _ _ _ _ ⟨⟩
    refine ⟨?_, htext⟩
    rw [Queue.recv_items hrecv, lastSize_cons] at hsize
    exact hsize
  · cases hs

/-- A step that is not a launch opens no shell. -/
theorem step_opened (hs : Step s action t) (hlaunched : action ≠ .launched) (h : Delivered s)
    (hdrops : s.dropsResize action = false) : Delivered t ∧ t.opened = s.opened := by
  cases action with
  | requestResize cols rows =>
    cases hs
    obtain ⟨hphase, hconsumed, hopened, -, -⟩ := requestResize_frame (s := s) cols rows
    exact ⟨delivered_frame h hphase hconsumed, hopened⟩
  | input bytes =>
    cases hs
    exact ⟨delivered_frame h rfl rfl, rfl⟩
  | reply bytes =>
    cases hs
    exact ⟨delivered_frame h rfl rfl, rfl⟩
  | receive => exact receive_delivered h hdrops hs
  | sent => exact sent_delivered h hs
  | shellReceive => exact shellReceive_delivered h hs
  | launched => exact absurd rfl hlaunched
  | byte =>
    simp only [Step, step] at hs
    split at hs
    · cases hs
      exact ⟨delivered_of_not_bridging (by simp), rfl⟩
    · rename_i byte rest hphase
      cases hs
      obtain ⟨-, -, -, hopened, hphase⟩ := @byte_frame s rest byte
      exact ⟨delivered_of_not_bridging hphase, hopened⟩
    · cases hs
  | shellInputClosed =>
    simp only [Step, step] at hs
    split at hs
    · rename_i hphase
      have hbefore := h _ _ _ _ hphase
      cases hs
      refine ⟨?_, rfl⟩
      rintro _ _ _ _ ⟨⟩
      exact hbefore
    · cases hs
  | shellExited =>
    simp only [Step, step] at hs
    split at hs
    · rename_i hphase
      have hbefore := h _ _ _ _ hphase
      cases hs
      refine ⟨?_, rfl⟩
      rintro _ _ _ _ ⟨⟩
      exact hbefore
    · cases hs
  | close =>
    simp only [Step, step] at hs
    split at hs
    · cases hs
      exact ⟨delivered_of_not_bridging (by simp), rfl⟩
    · cases hs
      exact ⟨delivered_of_not_bridging (by simp), rfl⟩
    · cases hs
  | _ =>
    simp only [Step, step] at hs
    split at hs
    · cases hs
      exact ⟨delivered_of_not_bridging (by simp), rfl⟩
    · cases hs

theorem launched_delivered (h : OpenedCurrent s) (hcurrent : ∀ size rest, s.phase = .launching size rest → size = s.consumed)
    (hs : step s .launched = some t) : Delivered t ∧ OpenedCurrent t := by
  simp only [step] at hs
  split at hs
  · rename_i size rest hphase
    have hsize := hcurrent size rest hphase
    cases hs
    constructor
    · rintro _ _ _ _ ⟨⟩
      exact ⟨hsize, nofun⟩
    · intro opened hmem
      rcases List.mem_append.mp hmem with hbefore | hnew
      · exact h opened hbefore
      · rw [List.mem_singleton.mp hnew]
        exact hsize
  · cases hs

/-! ## What was taken out -/

/-- The record of a tab: the prompt's size is the one taken out at the prompt, and the size
consumed last is the one taken out while a shell was bridged, if there is one. -/
structure Tracked (w : Watched) : Prop where
  size : w.tab.size = w.taken.atPrompt
  consumed : w.tab.consumed = w.taken.whileBridged.getD w.taken.atPrompt
  launching : ∀ size rest, w.tab.phase = .launching size rest → size = w.tab.size

theorem Tracked.current (h : Tracked w) (hover : w.taken.overtaken = false) (size : SessionSize) (rest : List UInt8)
    (hphase : w.tab.phase = .launching size rest) : size = w.tab.consumed := by
  rw [h.launching size rest hphase, h.size, h.consumed]
  cases hbridged : w.taken.whileBridged with
  | none => rfl
  | some last =>
    have hsame : last = w.taken.atPrompt := by simpa [Taken.overtaken, hbridged] using hover
    exact hsame.symm

theorem byte_size (byte : UInt8) : (s.byte byte rest).size = s.size ∧
    ∀ size rest', (s.byte byte rest).phase = .launching size rest' → size = s.size := by
  unfold Tab.byte Tab.enter
  split_ifs <;> (try split) <;> (try split_ifs) <;> simp +contextual

theorem requestResize_size (cols rows : ℕ) : (s.requestResize cols rows).size = s.size := by
  unfold Tab.requestResize Tab.queueResize Tab.send
  split_ifs
  · rfl
  · split
    · rfl
    · split <;> rename_i hsend <;> (obtain ⟨-, rfl⟩ := Prod.mk.inj hsend) <;> rfl

/-- Only `receive` takes a size out of the queue, and only a byte at the prompt starts a launch. -/
theorem step_size (hs : Step s action t) (hreceive : action ≠ .receive) :
    t.size = s.size ∧ t.consumed = s.consumed ∧
      ((∀ size rest, s.phase = .launching size rest → size = s.size) →
        ∀ size rest, t.phase = .launching size rest → size = s.size) := by
  cases action with
  | requestResize cols rows =>
    cases hs
    obtain ⟨hphase, hconsumed, -⟩ := requestResize_frame (s := s) cols rows
    exact ⟨requestResize_size cols rows, hconsumed, fun h size rest ht => h size rest (hphase ▸ ht)⟩
  | input bytes =>
    cases hs
    exact ⟨rfl, rfl, id⟩
  | reply bytes =>
    cases hs
    exact ⟨rfl, rfl, id⟩
  | receive => exact absurd rfl hreceive
  | byte =>
    simp only [Step, step] at hs
    split at hs
    · cases hs
      exact ⟨rfl, rfl, fun _ => nofun⟩
    · rename_i byte rest hphase
      cases hs
      obtain ⟨hsize, hlaunching⟩ := @byte_size s rest byte
      exact ⟨hsize, (byte_frame byte).2.1, fun _ => hlaunching⟩
    · cases hs
  | sent =>
    simp only [Step, step] at hs
    split at hs
    · split_ifs at hs
      · rw [Option.map_eq_some_iff] at hs
        obtain ⟨commands, -, rfl⟩ := hs
        exact ⟨rfl, rfl, fun _ => nofun⟩
      · cases hs
        exact ⟨rfl, rfl, fun _ => nofun⟩
    · cases hs
  | shellReceive =>
    simp only [Step, step] at hs
    split at hs
    · split_ifs at hs
      rw [Option.map_eq_some_iff] at hs
      obtain ⟨taken, -, rfl⟩ := hs
      exact ⟨rfl, rfl, fun _ => nofun⟩
    · cases hs
  | close =>
    simp only [Step, step] at hs
    split at hs
    · cases hs
      exact ⟨rfl, rfl, fun _ => nofun⟩
    · cases hs
      exact ⟨rfl, rfl, fun _ => nofun⟩
    · cases hs
  | _ =>
    simp only [Step, step] at hs
    split at hs
    · cases hs
      exact ⟨rfl, rfl, fun _ => nofun⟩
    · cases hs

theorem receive_tracked (h : Tracked w) (hs : w.tab.receive = some t) :
    Tracked ⟨t, w.taken.after w.tab .receive⟩ := by
  unfold Tab.receive at hs
  split at hs
  · cases hs
  · rename_i command commands hrecv
    split at hs
    · rename_i hphase
      cases hs
      cases command with
      | resize size =>
        have htaken : w.taken.after w.tab .receive = ⟨size, none⟩ := by simp [Taken.after, hrecv, hphase]
        rw [htaken]
        exact ⟨rfl, rfl, by simp [Tab.promptCommand, hphase]⟩
      | input bytes =>
        have htaken : w.taken.after w.tab .receive = w.taken := by simp [Taken.after, hrecv]
        rw [htaken]
        exact ⟨h.size, h.consumed, by simp [Tab.promptCommand]⟩
      | reply bytes =>
        have htaken : w.taken.after w.tab .receive = w.taken := by simp [Taken.after, hrecv]
        rw [htaken]
        exact ⟨h.size, h.consumed, by simp [Tab.promptCommand, hphase]⟩
    · rename_i hphase
      cases hs
      cases command with
      | resize size =>
        have htaken : w.taken.after w.tab .receive = { w.taken with whileBridged := some size } := by
          simp [Taken.after, hrecv, hphase]
        rw [htaken]
        exact ⟨h.size, rfl, by simp⟩
      | input bytes =>
        have htaken : w.taken.after w.tab .receive = w.taken := by simp [Taken.after, hrecv]
        rw [htaken]
        exact ⟨h.size, h.consumed, by simp⟩
      | reply bytes =>
        have htaken : w.taken.after w.tab .receive = w.taken := by simp [Taken.after, hrecv]
        rw [htaken]
        exact ⟨h.size, h.consumed, by simp⟩
    · cases hs

theorem WatchedStep.tracked (hs : WatchedStep w action v) (h : Tracked w) : Tracked v := by
  obtain ⟨hs, htaken⟩ := hs
  obtain ⟨tab, taken⟩ := v
  simp only at hs htaken
  subst htaken
  by_cases hreceive : action = .receive
  · subst hreceive
    exact receive_tracked h hs
  · obtain ⟨hsize, hconsumed, hlaunching⟩ := step_size hs hreceive
    have htaken : w.taken.after w.tab action = w.taken := by
      cases action <;> first | rfl | exact absurd rfl hreceive
    rw [htaken]
    exact ⟨hsize.trans h.size, hconsumed.trans h.consumed, fun size rest hphase =>
      (hlaunching h.launching size rest hphase).trans hsize.symm⟩

/-! ## Runs -/

theorem step_delivered (htracked : Tracked w) (h : Delivered w.tab ∧ OpenedCurrent w.tab) (hs : QuietStep w action v) :
    Delivered v.tab ∧ OpenedCurrent v.tab := by
  obtain ⟨⟨hs, -⟩, hdrops, hlaunch⟩ := hs
  by_cases hlaunched : action = .launched
  · exact launched_delivered h.2 (htracked.current (hlaunch hlaunched)) (hlaunched ▸ hs)
  · obtain ⟨hdelivered, hopened⟩ := step_opened hs hlaunched h.1 hdrops
    refine ⟨hdelivered, ?_⟩
    rw [OpenedCurrent, hopened]
    exact h.2

theorem run_believed (h : Run Step (start size) actions s) : Believed s :=
  h.invariant (fun _ => rfl) fun _ _ _ hbelieved hs => step_believed hbelieved hs

/-- Watching changes nothing: every run of a tab is one of a watched tab. -/
theorem run_watched (h : Run Step (start size) actions s) : ∃ taken, Run WatchedStep (watch size) actions ⟨s, taken⟩ := by
  induction h with
  | nil => exact ⟨_, .nil⟩
  | snoc _ hs ih =>
    obtain ⟨taken, hwatched⟩ := ih
    exact ⟨_, .snoc hwatched ⟨hs, rfl⟩⟩

theorem run_unwatched (h : Run QuietStep (watch size) actions w) : Run Step (start size) actions w.tab := by
  induction h with
  | nil => exact .nil
  | snoc _ hs ih => exact .snoc ih hs.1.1

theorem run_delivered (h : Run QuietStep (watch size) actions w) : Delivered w.tab ∧ OpenedCurrent w.tab := by
  have hboth : Tracked w ∧ Delivered w.tab ∧ OpenedCurrent w.tab := by
    apply Run.invariant (I := fun w : Watched => Tracked w ∧ Delivered w.tab ∧ OpenedCurrent w.tab) h
    · exact ⟨⟨rfl, rfl, by simp [watch, start]⟩, delivered_of_not_bridging (by simp [watch, start]), nofun⟩
    · exact fun _ _ _ hboth hs => ⟨hs.1.tracked hboth.1, step_delivered hboth.1 hboth.2 hs⟩
  exact hboth.2

/-- Where every `Resize` that is taken out while a shell is bridged finds room, and no shell is
opened after one of another size was taken out while an earlier one was bridged and none at the
prompt since, every shell is opened with the size taken out last, is sent every later one, and has
the size the panel believes queued once all queues are empty. -/
theorem sizes_agree (h : Run QuietStep (watch size) actions w) :
    (∀ opened ∈ w.tab.opened, opened.1 = opened.2) ∧
      ∀ remote sending finished rest, w.tab.phase = .bridging remote sending finished rest →
        lastSize remote.size remote.commands.items = w.tab.consumed ∧
          (remote.commands.items = [] → w.tab.commands.items = [] → w.tab.queuedSize = some remote.size) := by
  obtain ⟨hdelivered, hopened⟩ := run_delivered h
  refine ⟨hopened, fun remote sending finished rest hphase => ?_⟩
  have hsize := (hdelivered _ _ _ _ hphase).1
  refine ⟨hsize, fun hremote hcommands => ?_⟩
  have hbelieved : w.tab.queuedSize = some (lastSize w.tab.consumed w.tab.commands.items) :=
    run_believed (run_unwatched h) (by simp [Tab.ended, hphase])
  rw [hremote] at hsize
  rw [hbelieved, hcommands, ← hsize]
  rfl

def quietStep (w : Watched) (action : Action) : Option Watched :=
  if w.tab.dropsResize action || (action matches .launched) && w.taken.overtaken then none
  else (step w.tab action).map fun tab => ⟨tab, w.taken.after w.tab action⟩

theorem quietStep_some (w : Watched) (action : Action) (v : Watched) (h : quietStep w action = some v) :
    QuietStep w action v := by
  unfold quietStep at h
  split_ifs at h with hquiet
  simp only [Bool.or_eq_true, not_or, Bool.not_eq_true] at hquiet
  obtain ⟨tab, hs, rfl⟩ := Option.map_eq_some_iff.mp h
  refine ⟨⟨hs, rfl⟩, hquiet.1, ?_⟩
  rintro rfl
  simpa using hquiet.2

/-- A size that arrives while the first shell runs and is taken out again at the prompt, by the
panel's next `Resize`, before the second shell is opened. -/
theorem sizes_agree_resized :
    ∃ w, Run QuietStep (watch ⟨80, 24⟩)
        [.requestResize 100 40, .receive, .input [97, 13], .receive, .byte, .byte, .launched,
          .requestResize 120 50, .receive, .shellReceive, .shellExited, .bridgeFinished, .byte,
          .requestResize 90 30, .receive, .input [97, 13], .receive, .byte, .byte, .launched] w ∧
      w.tab.opened = [(⟨100, 40⟩, ⟨100, 40⟩), (⟨90, 30⟩, ⟨90, 30⟩)] ∧ w.tab.queuedSize = some ⟨90, 30⟩ ∧
      (∀ opened ∈ w.tab.opened, opened.1 = opened.2) := by
  have hrun : ∃ w, [Action.requestResize 100 40, .receive, .input [97, 13], .receive, .byte, .byte, .launched,
      .requestResize 120 50, .receive, .shellReceive, .shellExited, .bridgeFinished, .byte,
      .requestResize 90 30, .receive, .input [97, 13], .receive, .byte, .byte,
      .launched].foldlM quietStep (watch ⟨80, 24⟩) = some w ∧
        w.tab.opened = [(⟨100, 40⟩, ⟨100, 40⟩), (⟨90, 30⟩, ⟨90, 30⟩)] ∧
        w.tab.queuedSize = some ⟨90, 30⟩ := ⟨_, rfl, rfl, rfl⟩
  obtain ⟨w, hfold, hopened, hqueued⟩ := hrun
  have hrun := Run.of_foldlM quietStep_some hfold
  exact ⟨w, hrun, hopened, hqueued, (sizes_agree hrun).1⟩

/-- The size that arrived while the first shell ran is not the one the second is opened with. -/
theorem second_shell_stale :
    ¬ ∀ size actions s, Run Step (start size) actions s →
      (∀ opened ∈ s.opened, opened.1 = opened.2) ∧
        ∀ remote sending finished rest, s.phase = .bridging remote sending finished rest →
          lastSize remote.size remote.commands.items = s.consumed ∧
            (remote.commands.items = [] → s.commands.items = [] → s.queuedSize = some remote.size) := by
  intro h
  have hrun : ∃ s, [Action.input [97, 13], .receive, .byte, .byte, .launched, .requestResize 100 40, .receive,
      .shellReceive, .shellExited, .bridgeFinished, .byte, .input [97, 13], .receive, .byte, .byte,
      .launched].foldlM step (start ⟨80, 24⟩) = some s ∧
        s.opened = [(⟨80, 24⟩, ⟨80, 24⟩), (⟨80, 24⟩, ⟨100, 40⟩)] := ⟨_, rfl, rfl⟩
  obtain ⟨s, hfold, hopened⟩ := hrun
  have hall := (h _ _ s (Run.of_foldlM (fun _ _ _ hs => hs) hfold)).1
  rw [hopened] at hall
  simpa using hall (⟨80, 24⟩, ⟨100, 40⟩) (by simp)

end Lasper.Terminal.ShellSizes
