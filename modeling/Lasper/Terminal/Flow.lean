import Lasper.Terminal.Locking

/-! Whether the terminal flows. While no two tasks wait for each other some task can go on,
and a guest that asks for the position of its cursor often enough makes the parser and the
machine bridge wait for each other. -/

namespace Lasper.Terminal.Flow

open Lib

variable {Core : Type*} {process : Core → List UInt8 → Core × List (List UInt8)}
  {s t : Pipeline Core} {action : Action} {shell : Shell}

/-- Neither the machine bridge nor the bridge of a shell has ended. -/
def Pipeline.running (s : Pipeline Core) : Prop :=
  s.machine.task ≠ .ended ∧ ∀ shell, s.shell = some shell → shell.bridge ≠ .closed ∧ shell.bridge ≠ .finished

/-- The bridge of a shell stops taking output only after the shell's session has ended. -/
def Pipeline.Open (s : Pipeline Core) : Prop :=
  ∀ shell, s.shell = some shell → shell.outputOpen = false → s.machine.task = .ended

theorem machineStep_not_ended (hs : machineStep s action = some t) : s.machine.task ≠ .ended := by
  intro hended
  cases action <;> simp [machineStep, hended] at hs

theorem setMachineChannel_outputOpen (channel : Channel) :
    (s.setMachineChannel channel).shell.map (·.outputOpen) = s.shell.map (·.outputOpen) := by
  unfold Pipeline.setMachineChannel
  split
  · rfl
  · rename_i shell hshell
    simp [hshell]

theorem machineStep_open (hs : machineStep s action = some t) : t.shell.map (·.outputOpen) = s.shell.map (·.outputOpen) := by
  cases action with
  | machineCommand =>
    simp only [machineStep] at hs
    split at hs
    · split_ifs at hs
      cases hs
      exact setMachineChannel_outputOpen _
    · cases hs
  | machineOutput =>
    simp only [machineStep] at hs
    split at hs
    · split_ifs at hs
      · cases hs
        rfl
      · rw [Option.map_eq_some_iff] at hs
        obtain ⟨output, hsend, rfl⟩ := hs
        exact setMachineChannel_outputOpen _
    · cases hs
  | _ =>
    simp only [machineStep] at hs
    try split_ifs at hs
    all_goals cases hs
    all_goals rfl

/-- The parser goes on if there is output for it and it does not wait for a full queue. -/
theorem parser_moves (houtput : s.session.output.full = true) (hroom : s.parser.waits = true → s.session.commands.full = false)
    (hparser : s.parser ≠ .returned) : ∃ action t, action.moves = true ∧ Step process s action t := by
  cases hcase : s.parser with
  | receiving =>
    have hsome := Queue.recv_isSome houtput terminalOutputCapacity_pos
    obtain ⟨⟨chunk, output⟩, hrecv⟩ := Option.isSome_iff_exists.mp hsome
    use .parse
    simp [Action.moves, Step, step, hcase, hrecv]
  | replying reply rest =>
    rw [hcase] at hroom
    have hsome := Queue.trySend_isSome (hroom rfl) (.reply reply)
    obtain ⟨commands, hsend⟩ := Option.isSome_iff_exists.mp hsome
    use .reply
    by_cases hclosed : s.inputClosed = true
    · simp [Action.moves, Step, step, hcase, hclosed]
    · simp [Action.moves, Step, step, hcase, hclosed, hsend]
  | returned => exact absurd hcase hparser

theorem bridge_moves (hopen : s.Open) (hshell : s.shell = some shell) (houtput : shell.remote.output.full = true)
    (hlive : s.machine.task.waits = true) (hrunning : shell.bridge ≠ .closed ∧ shell.bridge ≠ .finished)
    (h : s.locked = false) : ∃ action t, action.moves = true ∧ Step process s action t := by
  have hended : s.machine.task ≠ .ended := by
    intro hended
    simp [hended, MachineTask.waits] at hlive
  rw [locked_bridged hshell, Bool.or_eq_false_iff] at h
  cases hbridge : shell.bridge with
  | selecting =>
    have hsome := Queue.recv_isSome houtput terminalOutputCapacity_pos
    obtain ⟨⟨chunk, output⟩, hrecv⟩ := Option.isSome_iff_exists.mp hsome
    have htakes : shell.outputOpen = true := by
      rw [← Bool.not_eq_false]
      intro hnot
      exact hended (hopen shell hshell hnot)
    use .bridgeChunk
    simp [Action.moves, Step, step, hshell, bridgeStep, hbridge, hrecv, htakes]
  | sendingCommand command =>
    have hroom : shell.remote.commands.full = false := by
      simpa [Channel.jammed, hbridge, Bridge.commandWaits, hlive, houtput] using h.2
    obtain ⟨commands, hsend⟩ := Option.isSome_iff_exists.mp (Queue.trySend_isSome hroom command)
    use .bridgeSend
    simp [Action.moves, Step, step, hshell, bridgeStep, hbridge, hended, hsend]
  | sendingOutput chunk =>
    by_cases hreturned : s.parser = .returned
    · use .bridgeOutput
      simp [Action.moves, Step, step, hshell, bridgeStep, hbridge, hreturned]
    · cases hfull : s.session.output.full with
      | true =>
        apply parser_moves hfull _ hreturned
        intro hwaits
        simpa [Channel.jammed, hbridge, Bridge.outputWaits, hwaits, hfull] using h.1
      | false =>
        obtain ⟨output, hsend⟩ := Option.isSome_iff_exists.mp (Queue.trySend_isSome hfull chunk)
        use .bridgeOutput
        simp [Action.moves, Step, step, hshell, bridgeStep, hbridge, hreturned, hsend]
  | closed => exact absurd hbridge hrunning.1
  | finished => exact absurd hbridge hrunning.2

/-- As long as both bridges run and no two tasks wait for each other, a task can go on. -/
theorem moves_of_unlocked (hopen : s.Open) (hrunning : s.running) (h : s.locked = false) :
    ∃ action t, action.moves = true ∧ Step process s action t := by
  cases htask : s.machine.task with
  | selecting =>
    cases hretry : s.machine.readRetry with
    | true =>
      use .readRetry
      simp [Action.moves, Step, step, machineStep, htask, hretry]
    | false =>
      use .machineChunk [0]
      simp [Action.moves, Step, step, machineStep, htask, hretry]
  | sending chunk =>
    by_cases hclosed : s.outputClosed = true
    · use .machineOutput
      simp [Action.moves, Step, step, machineStep, htask, hclosed]
    · cases hfull : s.machineChannel.output.full with
      | false =>
        obtain ⟨output, hsend⟩ := Option.isSome_iff_exists.mp (Queue.trySend_isSome hfull chunk)
        use .machineOutput
        simp [Action.moves, Step, step, machineStep, htask, hclosed, hsend]
      | true =>
        cases hshell : s.shell with
        | none =>
          rw [locked_direct hshell] at h
          simp only [Pipeline.machineChannel, hshell] at hfull
          apply parser_moves hfull
          · intro hwaits
            simpa [Channel.jammed, htask, MachineTask.waits, hwaits, hfull] using h
          · intro hreturned
            simp [Pipeline.outputClosed, hshell, hreturned] at hclosed
        | some shell =>
          simp only [Pipeline.machineChannel, hshell] at hfull
          exact bridge_moves hopen hshell hfull (by rw [htask]; rfl) (hrunning.2 shell hshell) h
  | ended => exact absurd htask hrunning.1

/-- Once the parser and the machine bridge wait for each other, nothing goes on but a close. -/
theorem stuck_of_locked (hshell : s.shell = none) (h : s.locked = true) {u : Pipeline Core}
    (hs : Step process s action u) : action.moves = false := by
  rw [locked_direct hshell] at h
  simp only [Channel.jammed, Bool.and_eq_true] at h
  obtain ⟨⟨⟨hparser, htask⟩, hcommands⟩, houtput⟩ := h
  obtain ⟨reply, rest, hreply⟩ : ∃ reply rest, s.parser = .replying reply rest := by
    cases hcase : s.parser <;> simp [hcase, Parser.waits] at hparser ⊢
  obtain ⟨chunk, hchunk⟩ : ∃ chunk, s.machine.task = .sending chunk := by
    cases hcase : s.machine.task <;> simp [hcase, MachineTask.waits] at htask ⊢
  have hsend : ∀ command, s.session.commands.trySend command = none :=
    fun command => Queue.trySend_eq_none.mpr hcommands
  have hout : ∀ bytes, s.session.output.trySend bytes = none := fun bytes => Queue.trySend_eq_none.mpr houtput
  cases action with
  | parse => simp [Step, step, hreply] at hs
  | reply => simp [Step, step, hreply, hsend, Pipeline.inputClosed, hshell, hchunk] at hs
  | bridgeCommand => simp [Step, step, hshell] at hs
  | bridgeSend => simp [Step, step, hshell] at hs
  | bridgeChunk => simp [Step, step, hshell] at hs
  | bridgeOutput => simp [Step, step, hshell] at hs
  | machineOutput =>
    simp [Step, step, machineStep, hchunk, hout, Pipeline.outputClosed, hshell, hreply, Pipeline.machineChannel] at hs
  | machineCommand => simp [Step, step, machineStep, hchunk] at hs
  | machineChunk => simp [Step, step, machineStep, hchunk] at hs
  | machineWrite => simp [Step, step, machineStep, hchunk] at hs
  | readRetry => simp [Step, step, machineStep, hchunk] at hs
  | writeRetry => simp [Step, step, machineStep, hchunk] at hs
  | _ => rfl

theorem open_bridgeStep (hshell : s.shell = some shell) (hs : bridgeStep s shell action = some t) (h : s.Open) :
    t.Open := by
  have hopen := h shell hshell
  have hsame : t.machine = s.machine ∧ ∃ shell', t.shell = some shell' ∧
      (shell'.outputOpen = shell.outputOpen ∨ s.machine.task = .ended) := by
    cases action with
    | bridgeCommand =>
      simp only [bridgeStep] at hs
      split at hs
      · cases hs
        refine ⟨rfl, _, rfl, .inl ?_⟩
        unfold Shell.accept
        split
        · rfl
        · split <;> rfl
      · cases hs
    | bridgeSend =>
      simp only [bridgeStep] at hs
      split at hs
      · split_ifs at hs
        · cases hs
          exact ⟨rfl, _, rfl, .inl rfl⟩
        · rw [Option.map_eq_some_iff] at hs
          obtain ⟨commands, hsend, rfl⟩ := hs
          exact ⟨rfl, _, rfl, .inl rfl⟩
      · cases hs
    | bridgeChunk =>
      simp only [bridgeStep] at hs
      split at hs
      · split_ifs at hs
        cases hs
        exact ⟨rfl, _, rfl, .inl rfl⟩
      · cases hs
    | bridgeOutput =>
      simp only [bridgeStep] at hs
      split at hs
      · split_ifs at hs
        · cases hs
          exact ⟨rfl, _, rfl, .inl rfl⟩
        · rw [Option.map_eq_some_iff] at hs
          obtain ⟨output, hsend, rfl⟩ := hs
          exact ⟨rfl, _, rfl, .inl rfl⟩
      · cases hs
    | bridgeFinish =>
      simp only [bridgeStep] at hs
      split_ifs at hs
      · cases hs
        exact ⟨rfl, _, rfl, .inl rfl⟩
      · cases hs
        exact ⟨rfl, _, rfl, .inl rfl⟩
    | bridgeOutputEnd =>
      simp only [bridgeStep] at hs
      split at hs
      · split_ifs at hs with hready
        · cases hs
          exact ⟨rfl, _, rfl, .inr hready.1⟩
        · cases hs
          exact ⟨rfl, _, rfl, .inr (by assumption : _ ∧ _).1⟩
      · cases hs
    | bridgeClose =>
      simp only [bridgeStep] at hs
      split at hs
      · cases hs
        exact ⟨rfl, _, rfl, .inl rfl⟩
      · cases hs
        exact ⟨rfl, _, rfl, .inl rfl⟩
      · cases hs
    | _ => cases hs
  obtain ⟨hmachine, shell', hshell', houtput⟩ := hsame
  intro found hfound hclosed
  rw [hshell'] at hfound
  cases hfound
  rw [hmachine]
  cases houtput with
  | inl heq => exact hopen (heq ▸ hclosed)
  | inr hended => exact hended

theorem open_step (hs : Step process s action t) (h : s.Open) : t.Open := by
  have hframe : ∀ {u : Pipeline Core}, u.shell = s.shell → u.machine = s.machine → u.Open := by
    intro u hshell hmachine shell hfound hclosed
    rw [hmachine]
    exact h shell (hshell ▸ hfound) hclosed
  have hbridge : (s.shell.bind fun shell => bridgeStep s shell action) = some t → t.Open := by
    intro hbind
    obtain ⟨shell, hshell, hstep⟩ := Option.bind_eq_some_iff.mp hbind
    exact open_bridgeStep hshell hstep h
  have hmachine : machineStep s action = some t → t.Open := by
    intro hstep shell' hshell' hclosed
    have heq := machineStep_open hstep
    rw [hshell', Option.map_some, eq_comm, Option.map_eq_some_iff] at heq
    obtain ⟨shell, hshell, hopen⟩ := heq
    exact absurd (h shell hshell (hopen.trans hclosed)) (machineStep_not_ended hstep)
  cases action with
  | tryInput bytes =>
    cases hs
    exact hframe rfl rfl
  | tryResize size =>
    cases hs
    exact hframe rfl rfl
  | parse =>
    simp only [Step, step] at hs
    split at hs
    · cases hs
      exact hframe rfl rfl
    · cases hs
  | outputEnd =>
    simp only [Step, step] at hs
    split at hs
    · split_ifs at hs
      cases hs
      exact hframe rfl rfl
    · cases hs
  | reply =>
    simp only [Step, step] at hs
    split at hs
    · split_ifs at hs
      · cases hs
        exact hframe rfl rfl
      · rw [Option.map_eq_some_iff] at hs
        obtain ⟨commands, hsend, rfl⟩ := hs
        exact hframe rfl rfl
    · cases hs
  | bridgeCommand => exact hbridge hs
  | bridgeSend => exact hbridge hs
  | bridgeChunk => exact hbridge hs
  | bridgeOutput => exact hbridge hs
  | bridgeFinish => exact hbridge hs
  | bridgeOutputEnd => exact hbridge hs
  | bridgeClose => exact hbridge hs
  | _ => exact hmachine hs

section Runs

variable {core : Core} {embedded : Bool} {actions : List Action}

/-- A terminal that has just been opened, with or without the bridge of a shell. -/
def start (core : Core) (embedded : Bool) : Pipeline Core := { core, shell := if embedded then some {} else none }

variable (process) in
/-- A step that does not take the last way out. -/
def OpenStep (s : Pipeline Core) (action : Action) (t : Pipeline Core) : Prop :=
  Step process s action t ∧ s.closesCycle action = false

variable (process) in
/-- No two tasks wait for each other, and as long as the bridges run a task can go on. -/
def Flows (s : Pipeline Core) : Prop :=
  s.locked = false ∧ (s.running → ∃ action t, action.moves = true ∧ Step process s action t)

theorem start_locked : (start core embedded).locked = false := by
  cases embedded <;> rfl

theorem start_open : (start core embedded).Open := by
  intro shell hshell hclosed
  cases embedded with
  | false => cases hshell
  | true =>
    cases hshell
    cases hclosed

theorem run_unlocked (h : Run (OpenStep process) (start core embedded) actions s) : s.locked = false ∧ s.Open := by
  apply h.invariant (I := fun s => s.locked = false ∧ s.Open) ⟨start_locked, start_open⟩
  intro t action u hI hs
  exact ⟨(step_locked hs.1 hI.1).trans hs.2, open_step hs.1 hI.2⟩

/-- In every run: the terminal flows all the way exactly if no step takes the last way out. -/
theorem flows_iff (h : Run (Step process) (start core embedded) actions s) :
    (∀ before after u, actions = before ++ after → Run (Step process) (start core embedded) before u →
      Flows process u) ↔ Run (OpenStep process) (start core embedded) actions s := by
  constructor
  · intro hflows
    induction h with
    | nil => exact .nil
    | @snoc as a t u hrun hs ih =>
      have hbefore : ∀ before after v, as = before ++ after → Run (Step process) (start core embedded) before v →
          Flows process v := by
        intro before after v hsplit hv
        exact hflows before (after ++ [a]) v (by simp [hsplit]) hv
      have hunlocked : t.locked = false := (hflows as [a] t rfl hrun).1
      have hafter : u.locked = false := (hflows (as ++ [a]) [] u (by simp) (.snoc hrun hs)).1
      exact .snoc (ih hbefore) ⟨hs, (step_locked hs hunlocked).symm.trans hafter⟩
  · intro hopen before after u hsplit hu
    subst hsplit
    obtain ⟨v, hv, -⟩ := hopen.split
    have hsame : u = v := (hv.mono fun _ _ _ hs => hs.1).unique (fun _ _ _ hs => hs) hu
    obtain ⟨hunlocked, hlive⟩ := run_unlocked hv
    rw [hsame]
    exact ⟨hunlocked, fun hrunning => moves_of_unlocked hlive hrunning hunlocked⟩

end Runs

section Examples

/-- What a screen with the cursor at home answers to a request for its position. -/
private def cursorReport : List UInt8 := [0x1b, 0x5b, 0x31, 0x3b, 0x31, 0x52]

private def deviceStatusQuery : List UInt8 := [0x1b, 0x5b, 0x36, 0x6e]

private def answerQueries : List UInt8 → List (List UInt8)
  | 0x1b :: 0x5b :: 0x36 :: 0x6e :: rest => cursorReport :: answerQueries rest
  | _ :: rest => answerQueries rest
  | [] => []

private def processQueries (core : Unit) (bytes : List UInt8) : Unit × List (List UInt8) := (core, answerQueries bytes)

/-- A key press and a query both cross the bridge of a shell, and the answer goes back. -/
private def roundTrip : List Action :=
  [.tryInput [0x78], .bridgeCommand, .bridgeSend, .machineCommand, .machineWrite 1, .machineChunk deviceStatusQuery,
    .machineOutput, .bridgeChunk, .bridgeOutput, .parse, .reply, .bridgeCommand]

private def openStep (s : Pipeline Unit) (action : Action) : Option (Pipeline Unit) :=
  if s.closesCycle action then none else step processQueries s action

private theorem openStep_some (s : Pipeline Unit) (action : Action) (t : Pipeline Unit) (h : openStep s action = some t) :
    OpenStep processQueries s action t := by
  unfold openStep at h
  split at h
  · cases h
  · rename_i hopen
    exact ⟨h, by simpa using hopen⟩

theorem flows_iff_roundTrip :
    ∃ s, Run (Step processQueries) (start () true) roundTrip s ∧
      ∀ before after u, roundTrip = before ++ after → Run (Step processQueries) (start () true) before u →
        Flows processQueries u := by
  have hsome : (roundTrip.foldlM openStep (start () true)).isSome = true := by decide
  obtain ⟨s, hs⟩ := Option.isSome_iff_exists.mp hsome
  have hopen : Run (OpenStep processQueries) (start () true) roundTrip s := Run.of_foldlM openStep_some hs
  have hrun : Run (Step processQueries) (start () true) roundTrip s := hopen.mono fun _ _ _ h => h.1
  exact ⟨s, hrun, (flows_iff hrun).mpr hopen⟩

/-- After `n` queries that the parser has answered, and whose answers the machine bridge has not taken. -/
private def answered (n : ℕ) (h : n ≤ terminalCommandCapacity) : Pipeline Unit :=
  { core := (), session := { commands := .replicate n (.reply cursorReport) h } }

/-- The queue of commands is full, the parser waits, and `n` chunks are queued behind it. -/
private def behind (n : ℕ) (h : n ≤ terminalOutputCapacity) : Pipeline Unit :=
  { core := ()
    parser := .replying cursorReport []
    session := {
      commands := .replicate terminalCommandCapacity (.reply cursorReport) (Nat.le_refl _)
      output := .replicate n deviceStatusQuery h } }

/-- The machine bridge takes a chunk from the guest and sends it on. -/
private theorem pass_chunk {session : Channel} {parser : Parser} {output : Output} (hparser : parser ≠ .returned)
    (hsend : session.output.trySend deviceStatusQuery = some output) :
    Run (Step processQueries) { core := (), parser, session }
      [Action.machineChunk deviceStatusQuery, Action.machineOutput]
      { core := (), parser, session := { session with output } } := by
  have hread : Run (Step processQueries) { core := (), parser, session }
      ([] ++ [Action.machineChunk deviceStatusQuery])
      { core := (), parser, session, machine := { task := .sending deviceStatusQuery } } := by
    apply Run.snoc .nil
    simp [Step, step, machineStep, deviceStatusQuery, Pipeline.setTask]
  apply Run.snoc hread
  simp [Step, step, machineStep, Pipeline.outputClosed, hparser, Pipeline.machineChannel, hsend,
    Pipeline.setMachineChannel, Pipeline.setTask]

private theorem parse_chunk {commands : Commands} :
    Step processQueries
      { core := (), session := { commands, output := .replicate 1 deviceStatusQuery terminalOutputCapacity_pos } } .parse
      { core := (), parser := .replying cursorReport [], session := { commands } } := rfl

private theorem read_query {commands : Commands} :
    Run (Step processQueries) { core := (), session := { commands } }
      ([Action.machineChunk deviceStatusQuery, Action.machineOutput] ++ [Action.parse])
      { core := (), parser := .replying cursorReport [], session := { commands } } :=
  .snoc (pass_chunk nofun (Queue.trySend_replicate terminalOutputCapacity_pos)) parse_chunk

private theorem answered_succ {n : ℕ} (h : n + 1 ≤ terminalCommandCapacity) :
    Run (Step processQueries) (answered n (Nat.le_of_succ_le h))
      ([Action.machineChunk deviceStatusQuery, Action.machineOutput] ++ [Action.parse] ++ [Action.reply])
      (answered (n + 1) h) := by
  apply Run.snoc read_query
  have hsend := Queue.trySend_replicate (a := TerminalCommand.reply cursorReport) h
  simp [Step, step, Pipeline.inputClosed, hsend, Parser.next, answered]

private theorem behind_succ {n : ℕ} (h : n + 1 ≤ terminalOutputCapacity) :
    Run (Step processQueries) (behind n (Nat.le_of_succ_le h))
      [Action.machineChunk deviceStatusQuery, Action.machineOutput]
      (behind (n + 1) h) :=
  pass_chunk nofun (Queue.trySend_replicate h)

/-- The guest asks where the cursor is, again and again, and does nothing wrong. -/
private def queryRun : List Action :=
  (List.replicate terminalCommandCapacity
      ([Action.machineChunk deviceStatusQuery, Action.machineOutput] ++ [Action.parse] ++ [Action.reply])).flatten ++
    ([Action.machineChunk deviceStatusQuery, Action.machineOutput] ++ [Action.parse]) ++
    (List.replicate terminalOutputCapacity [Action.machineChunk deviceStatusQuery, Action.machineOutput]).flatten ++
    [Action.machineChunk deviceStatusQuery]

private theorem run_answered (n : ℕ) (h : n ≤ terminalCommandCapacity) :
    Run (Step processQueries) (start () false)
      (List.replicate n
        ([Action.machineChunk deviceStatusQuery, Action.machineOutput] ++ [Action.parse] ++ [Action.reply])).flatten
      (answered n h) := by
  induction n with
  | zero => exact .nil
  | succ n ih =>
    rw [List.replicate_succ', List.flatten_concat]
    exact (ih (Nat.le_of_succ_le h)).append (answered_succ h)

private theorem run_behind (n : ℕ) (h : n ≤ terminalOutputCapacity) :
    Run (Step processQueries) (behind 0 (Nat.zero_le _))
      (List.replicate n [Action.machineChunk deviceStatusQuery, Action.machineOutput]).flatten (behind n h) := by
  induction n with
  | zero => exact .nil
  | succ n ih =>
    rw [List.replicate_succ', List.flatten_concat]
    exact (ih (Nat.le_of_succ_le h)).append (behind_succ h)

/-- The parser waits to answer and the machine bridge waits to send more output; both bridges run, and
nothing goes on but a close. -/
theorem queries_lock :
    ∃ s, Run (Step processQueries) (start () false) queryRun s ∧ s.running ∧ s.locked = true ∧
      (∀ action t, Step processQueries s action t → action.moves = false) ∧ ¬ Flows processQueries s := by
  have hfull := (run_answered terminalCommandCapacity (Nat.le_refl _)).append read_query
  have hbehind := hfull.append (run_behind terminalOutputCapacity (Nat.le_refl _))
  have hlast : Step processQueries (behind terminalOutputCapacity (Nat.le_refl _)) (.machineChunk deviceStatusQuery)
      ((behind terminalOutputCapacity (Nat.le_refl _)).setTask (.sending deviceStatusQuery)) := by
    simp [Step, step, machineStep, behind, deviceStatusQuery]
  have hlocked : ((behind terminalOutputCapacity (Nat.le_refl _)).setTask (.sending deviceStatusQuery)).locked = true := by
    rw [locked_direct rfl]
    simp [behind, Pipeline.setTask, Channel.jammed, Parser.waits, MachineTask.waits, Queue.full, Queue.replicate]
  have hrunning : ((behind terminalOutputCapacity (Nat.le_refl _)).setTask (.sending deviceStatusQuery)).running := by
    constructor
    · intro h
      cases h
    · intro shell h
      cases h
  refine ⟨_, .snoc hbehind hlast, hrunning, hlocked, fun action t hs => stuck_of_locked rfl hlocked hs, ?_⟩
  intro hflows
  rw [hflows.1] at hlocked
  cases hlocked

end Examples

end Lasper.Terminal.Flow
