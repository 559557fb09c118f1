import Lasper.Terminal.Pipeline

/-! Which steps leave two tasks waiting for each other. Only the last way out matters: a
task begins to wait for a full queue, or a queue that a task waits for is filled, while
the other side waits already. -/

namespace Lasper.Terminal.Flow

open Lib

variable {Core : Type*} {process : Core → List UInt8 → Core × List (List UInt8)}
  {s t : Pipeline Core} {action : Action} {shell : Shell}

@[simp] theorem Parser.next_waits (replies : List (List UInt8)) : (Parser.next replies).waits = !replies.isEmpty := by
  cases replies <;> rfl

/-- The far side of the session's channel does not wait when it is gone. -/
theorem not_waits_of_closed (h : s.inputClosed = true) : s.parserOutputWaits = false := by
  unfold Pipeline.inputClosed at h
  unfold Pipeline.parserOutputWaits
  cases hshell : s.shell with
  | none =>
    rw [hshell] at h
    have hended : s.machine.task = .ended := of_decide_eq_true h
    simp [hended, MachineTask.waits]
  | some shell =>
    rw [hshell] at h
    have hclosed : shell.bridge = .closed := of_decide_eq_true h
    simp [hclosed, Bridge.outputWaits]

theorem locked_direct (hshell : s.shell = none) :
    s.locked = s.session.jammed s.parser.waits s.machine.task.waits := by
  simp [Pipeline.locked, Pipeline.parserOutputWaits, Pipeline.machineCommandWaits, Pipeline.machineChannel, hshell]

theorem locked_bridged (hshell : s.shell = some shell) :
    s.locked = (s.session.jammed s.parser.waits shell.bridge.outputWaits ||
      shell.remote.jammed shell.bridge.commandWaits s.machine.task.waits) := by
  simp [Pipeline.locked, Pipeline.parserOutputWaits, Pipeline.machineCommandWaits, Pipeline.machineChannel, hshell]

/-- Without a lock on the session's channel, whether there is one depends on the other channel. -/
theorem session_not_jammed (h : s.locked = false) : s.session.jammed s.parser.waits s.parserOutputWaits = false := by
  rw [Pipeline.locked, Bool.or_eq_false_iff] at h
  exact h.1

theorem machine_not_jammed (h : s.locked = false) :
    s.machineChannel.jammed s.machineCommandWaits s.machine.task.waits = false := by
  rw [Pipeline.locked, Bool.or_eq_false_iff] at h
  exact h.2

/-- A step of the parser can only lock the session's channel. -/
theorem locked_of_session (h : s.locked = false) (hshell : t.shell = s.shell) (hmachine : t.machine = s.machine)  :
    t.locked = t.session.jammed t.parser.waits t.parserOutputWaits := by
  have hfar := machine_not_jammed h
  cases hcase : s.shell with
  | none =>
    rw [hcase] at hshell
    rw [locked_direct hshell]
    simp [Pipeline.parserOutputWaits, hshell]
  | some shell =>
    rw [hcase] at hshell
    simp only [Pipeline.machineChannel, Pipeline.machineCommandWaits, hcase] at hfar
    rw [locked_bridged hshell, hmachine, hfar]
    simp [Pipeline.parserOutputWaits, hshell]

theorem parserOutputWaits_eq (hshell : t.shell = s.shell) (hmachine : t.machine = s.machine) :
    t.parserOutputWaits = s.parserOutputWaits := by
  unfold Pipeline.parserOutputWaits
  rw [hshell, hmachine]

/-- A command more in the session's channel. -/
theorem locked_of_command (h : s.locked = false) {command : TerminalCommand}
    (hsend : s.session.commands.trySend command = some t.session.commands)
    (houtput : t.session.output = s.session.output) (hshell : t.shell = s.shell) (hmachine : t.machine = s.machine) :
    t.locked = (t.parser.waits && s.lastCommand) := by
  rw [locked_of_session h hshell hmachine, parserOutputWaits_eq hshell hmachine]
  simp [Channel.jammed, Queue.trySend_full hsend, houtput, Pipeline.lastCommand, Bool.and_assoc]

theorem tryCommand_locked (h : s.locked = false) (command : TerminalCommand) :
    (s.tryCommand command).locked = (s.parser.waits && s.lastCommand) := by
  cases hclosed : s.inputClosed with
  | true =>
    have hsame : s.tryCommand command = s := by simp [Pipeline.tryCommand, sendTerminalCommand, hclosed]
    rw [hsame, h]
    simp [Pipeline.lastCommand, not_waits_of_closed hclosed]
  | false =>
    cases hsend : s.session.commands.trySend command with
    | none =>
      have hsame : s.tryCommand command = s := by simp [Pipeline.tryCommand, sendTerminalCommand, hsend, hclosed]
      rw [Queue.trySend_eq_none, Queue.full_eq_true] at hsend
      have hnot : s.session.commands.nearlyFull = false := by simp [Queue.nearlyFull, hsend]
      rw [hsame, h]
      simp [Pipeline.lastCommand, hnot]
    | some commands =>
      have hsent : (s.tryCommand command).session.commands = commands := by
        simp [Pipeline.tryCommand, sendTerminalCommand, hsend, hclosed]
      apply locked_of_command h
      · rw [hsent]
        exact hsend
      · rfl
      · rfl
      · rfl

theorem reply_locked (hs : Step process s .reply t) (h : s.locked = false) : t.locked = s.closesCycle .reply := by
  simp only [Step, step] at hs
  split at hs
  · rename_i reply rest hparser
    have hcloses : s.closesCycle .reply = (!rest.isEmpty && s.lastCommand) := by
      simp [Pipeline.closesCycle, hparser]
    rw [hcloses]
    split_ifs at hs with hclosed
    · cases hs
      rw [locked_of_session h]
      · simp [Channel.jammed, Parser.waits, Pipeline.lastCommand, not_waits_of_closed hclosed]
      · rfl
      · rfl
    · rw [Option.map_eq_some_iff] at hs
      obtain ⟨commands, hsend, rfl⟩ := hs
      rw [← Parser.next_waits]
      exact locked_of_command h hsend rfl rfl rfl
  · cases hs

theorem parse_locked (hs : Step process s .parse t) (h : s.locked = false) : t.locked = false := by
  simp only [Step, step] at hs
  split at hs
  · rename_i chunk output hparser hrecv
    cases hs
    rw [locked_of_session h]
    · simp [Channel.jammed, Queue.recv_full hrecv]
    · rfl
    · rfl
  · cases hs

theorem outputEnd_locked (hs : Step process s .outputEnd t) (h : s.locked = false) : t.locked = false := by
  simp only [Step, step] at hs
  split at hs
  · split_ifs at hs
    cases hs
    rw [locked_of_session h]
    · simp [Channel.jammed, Parser.waits]
    · rfl
    · rfl
  · cases hs

/-- A step of the machine bridge with a shell in between can only lock the shell's channel. -/
theorem locked_of_machine (h : s.locked = false) (hsame : s.shell ≠ none → t.session = s.session)
    (hparser : t.parser = s.parser) (hbridge : t.shell.map (·.bridge) = s.shell.map (·.bridge)) :
    t.locked = t.machineChannel.jammed t.machineCommandWaits t.machine.task.waits := by
  have hnear := session_not_jammed h
  cases hcase : s.shell with
  | none =>
    rw [hcase, Option.map_none, Option.map_eq_none_iff] at hbridge
    rw [locked_direct hbridge]
    simp [Pipeline.machineChannel, Pipeline.machineCommandWaits, hbridge]
  | some shell =>
    rw [hcase, Option.map_some, Option.map_eq_some_iff] at hbridge
    obtain ⟨shell', hshell', hbridge⟩ := hbridge
    simp only [Pipeline.parserOutputWaits, hcase] at hnear
    rw [locked_bridged hshell', hsame (by rw [hcase]; nofun), hparser, hbridge, hnear]
    simp [Pipeline.machineChannel, Pipeline.machineCommandWaits, hshell', hbridge]

theorem setMachineChannel_session (channel : Channel) (hshell : s.shell ≠ none) :
    (s.setMachineChannel channel).session = s.session := by
  unfold Pipeline.setMachineChannel
  split
  · contradiction
  · rfl

theorem setMachineChannel_bridge (channel : Channel) :
    (s.setMachineChannel channel).shell.map (·.bridge) = s.shell.map (·.bridge) := by
  unfold Pipeline.setMachineChannel
  split
  · rfl
  · rename_i shell hshell
    simp [hshell]

theorem setMachineChannel_parsing (channel : Channel) : (s.setMachineChannel channel).parser = s.parser := by
  unfold Pipeline.setMachineChannel
  split <;> rfl

theorem machineStep_locked (hs : machineStep s action = some t) (h : s.locked = false) :
    t.locked = s.closesCycle action := by
  have hidle : ∀ u : Pipeline Core, (s.shell ≠ none → u.session = s.session) → u.parser = s.parser →
      u.shell.map (·.bridge) = s.shell.map (·.bridge) → u.machine.task.waits = false → u.locked = false := by
    intro u hsession hparser hbridge hwaits
    rw [locked_of_machine h hsession hparser hbridge]
    simp [Channel.jammed, hwaits]
  cases action with
  | machineCommand =>
    simp only [machineStep] at hs
    split at hs
    · rename_i command commands htask hrecv
      split_ifs at hs
      cases hs
      have hwaits : (s.machine.take command).task.waits = false := by
        cases command <;> simp [Machine.take, htask, MachineTask.waits]
      exact hidle _ (setMachineChannel_session _) (setMachineChannel_parsing _) (setMachineChannel_bridge _) hwaits
    · cases hs
  | machineChunk chunk =>
    simp only [machineStep] at hs
    split_ifs at hs with hready
    cases hs
    rw [locked_of_machine h]
    · rfl
    · exact fun _ => rfl
    · rfl
    · rfl
  | machineOutput =>
    simp only [machineStep] at hs
    split at hs
    · split_ifs at hs
      · cases hs
        exact hidle _ (fun _ => rfl) rfl rfl rfl
      · rw [Option.map_eq_some_iff] at hs
        obtain ⟨output, hsend, rfl⟩ := hs
        exact hidle _ (setMachineChannel_session _) (setMachineChannel_parsing _) (setMachineChannel_bridge _) rfl
    · cases hs
  | machineWrite count =>
    simp only [machineStep] at hs
    split_ifs at hs with hready
    cases hs
    exact hidle _ (fun _ => rfl) rfl rfl (by simp [hready.1, MachineTask.waits])
  | readStall =>
    simp only [machineStep] at hs
    split_ifs at hs with hready
    cases hs
    exact hidle _ (fun _ => rfl) rfl rfl (by simp [hready.1, MachineTask.waits])
  | writeStall =>
    simp only [machineStep] at hs
    split_ifs at hs with hready
    cases hs
    exact hidle _ (fun _ => rfl) rfl rfl (by simp [hready.1, MachineTask.waits])
  | readRetry =>
    simp only [machineStep] at hs
    split_ifs at hs with hready
    cases hs
    exact hidle _ (fun _ => rfl) rfl rfl (by simp [hready.1, MachineTask.waits])
  | writeRetry =>
    simp only [machineStep] at hs
    split_ifs at hs with hready
    cases hs
    exact hidle _ (fun _ => rfl) rfl rfl (by simp [hready.1, MachineTask.waits])
  | machineEnd =>
    simp only [machineStep] at hs
    split_ifs at hs
    cases hs
    exact hidle _ (fun _ => rfl) rfl rfl rfl
  | _ => cases hs

theorem bridgeStep_locked (hshell : s.shell = some shell) (hs : bridgeStep s shell action = some t)
    (h : s.locked = false) : t.locked = s.closesCycle action := by
  have hnear := session_not_jammed h
  have hfar := machine_not_jammed h
  simp only [Pipeline.parserOutputWaits, Pipeline.machineChannel, Pipeline.machineCommandWaits, hshell] at hnear hfar
  cases action with
  | bridgeCommand =>
    simp only [bridgeStep] at hs
    split at hs
    · rename_i command commands hbridge hrecv
      cases hs
      rw [locked_bridged rfl]
      have hroom := Queue.recv_full hrecv
      have hcloses : s.closesCycle .bridgeCommand =
          (!shell.finished && shell.remote.jammed (awaited command) s.machine.task.waits) := by
        simp [Pipeline.closesCycle, hshell, hrecv]
      rw [hcloses]
      cases hfinished : shell.finished with
      | true => simp [Channel.jammed, hroom, Shell.accept, hfinished, hbridge, Bridge.commandWaits]
      | false =>
        cases command <;>
          simp [Channel.jammed, hroom, Shell.accept, hfinished, hbridge, Bridge.commandWaits, awaited]
    · cases hs
  | bridgeSend =>
    simp only [bridgeStep] at hs
    split at hs
    · split_ifs at hs
      · cases hs
        rw [locked_bridged rfl]
        simp [Channel.jammed, Bridge.commandWaits, Bridge.outputWaits, Pipeline.closesCycle]
      · rw [Option.map_eq_some_iff] at hs
        obtain ⟨commands, hsend, rfl⟩ := hs
        rw [locked_bridged rfl]
        simp [Channel.jammed, Bridge.commandWaits, Bridge.outputWaits, Pipeline.closesCycle]
    · cases hs
  | bridgeChunk =>
    simp only [bridgeStep] at hs
    split at hs
    · split_ifs at hs
      cases hs
      rw [locked_bridged rfl]
      simp [Channel.jammed, Bridge.commandWaits, Bridge.outputWaits, Pipeline.closesCycle]
    · cases hs
  | bridgeOutput =>
    simp only [bridgeStep] at hs
    split at hs
    · split_ifs at hs
      · cases hs
        rw [locked_bridged rfl]
        simp [Channel.jammed, Bridge.commandWaits, Bridge.outputWaits, Pipeline.closesCycle]
      · rw [Option.map_eq_some_iff] at hs
        obtain ⟨output, hsend, rfl⟩ := hs
        rw [locked_bridged rfl]
        simp [Channel.jammed, Bridge.commandWaits, Bridge.outputWaits, Pipeline.closesCycle]
    · cases hs
  | bridgeFinish =>
    simp only [bridgeStep] at hs
    split_ifs at hs
    · cases hs
      rw [locked_bridged rfl]
      simp [Channel.jammed, Bridge.commandWaits, Bridge.outputWaits, Pipeline.closesCycle]
    · cases hs
      rw [locked_bridged rfl]
      simp [Channel.jammed, Bridge.commandWaits, Bridge.outputWaits, Pipeline.closesCycle]
  | bridgeOutputEnd =>
    simp only [bridgeStep] at hs
    split at hs
    · split_ifs at hs
      · cases hs
        rw [locked_bridged rfl]
        simp [Channel.jammed, Bridge.commandWaits, Bridge.outputWaits, Pipeline.closesCycle]
      · cases hs
        rw [locked_bridged rfl]
        simp [Channel.jammed, Bridge.commandWaits, Bridge.outputWaits, Pipeline.closesCycle]
    · cases hs
  | bridgeClose =>
    simp only [bridgeStep] at hs
    split at hs
    · cases hs
      rw [locked_bridged rfl]
      simp [Channel.jammed, Bridge.commandWaits, Bridge.outputWaits, Pipeline.closesCycle]
    · cases hs
      rw [locked_bridged rfl]
      simp [Channel.jammed, Bridge.commandWaits, Bridge.outputWaits, Pipeline.closesCycle]
    · cases hs
  | _ => cases hs

/-- A step locks two tasks exactly if it takes the last way out. -/
theorem step_locked (hs : Step process s action t) (h : s.locked = false) : t.locked = s.closesCycle action := by
  have hbridge : (s.shell.bind fun shell => bridgeStep s shell action) = some t → t.locked = s.closesCycle action := by
    intro hbind
    obtain ⟨shell, hshell, hstep⟩ := Option.bind_eq_some_iff.mp hbind
    exact bridgeStep_locked hshell hstep h
  cases action with
  | tryInput bytes =>
    cases hs
    exact tryCommand_locked h _
  | tryResize size =>
    cases hs
    exact tryCommand_locked h _
  | parse => exact parse_locked hs h
  | outputEnd => exact outputEnd_locked hs h
  | reply => exact reply_locked hs h
  | bridgeCommand => exact hbridge hs
  | bridgeSend => exact hbridge hs
  | bridgeChunk => exact hbridge hs
  | bridgeOutput => exact hbridge hs
  | bridgeFinish => exact hbridge hs
  | bridgeOutputEnd => exact hbridge hs
  | bridgeClose => exact hbridge hs
  | _ => exact machineStep_locked hs h

end Lasper.Terminal.Flow
