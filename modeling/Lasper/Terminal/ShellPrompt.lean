import Lasper.Terminal.ShellSizes

/-! What is typed into an embedded shell tab. A specification takes the bytes one by one, as they
arrive, and knows nothing of the commands they arrived in. -/

namespace Lasper.Terminal.ShellPrompt

open Lib Cli ShellSizes

section Specification

/-- What reaches the task of a tab: a byte, what becomes of a launch, and the end of a shell. -/
inductive Arrival
  | byte (byte : UInt8)
  | opened | failed | ended | left | closed
  deriving DecidableEq

/-- A line that is not empty was submitted, or the line was interrupted. -/
inductive Mark
  | line (bytes : List UInt8)
  | interrupt
  deriving DecidableEq

/-- An account that is launched, the bytes of its line, and the marks before it. -/
structure Launch where
  account : ValidatedGuestUserName
  raw : List UInt8
  before : List Mark
  deriving DecidableEq

inductive Mode
  | prompt
  | launching (waiting : List UInt8)
  | shell (isOpen : Bool)
  | closed
  deriving DecidableEq

structure Spec where
  raw : List UInt8 := []
  confirmation : Option ValidatedGuestUserName := none
  marks : List Mark := []
  launches : List Launch := []
  shells : List (List UInt8) := []
  mode : Mode := .prompt
  deriving DecidableEq

/-- One byte of a line: interrupt, backspace, or a character as long as there is room. -/
def edit (line : List UInt8) (byte : UInt8) : List UInt8 :=
  if byte = 3 then []
  else if byte = 8 || byte = 127 then line.dropLast
  else if isAsciiGraphic byte && line.length < userMaxBytes then line ++ [byte]
  else line

/-- The line that some bytes spell. -/
def edited (raw : List UInt8) : List UInt8 := raw.foldl edit []

namespace Spec

/-- The end of a line. -/
def submit (s : Spec) : Spec :=
  let line := edited s.raw
  if line = [] then { s with raw := [] }
  else
    match ValidatedGuestUserName.new (lineText line) with
    | .error _ => { s with raw := [], confirmation := none, marks := s.marks ++ [.line line] }
    | .ok user =>
      if isRoot user && s.confirmation != some user then
        { s with raw := [], confirmation := some user, marks := s.marks ++ [.line line] }
      else
        { s with
          raw := []
          confirmation := none
          marks := s.marks ++ [.line line]
          launches := s.launches ++ [⟨user, s.raw, s.marks⟩]
          mode := .launching [] }

/-- Add to what the last shell got. -/
def forward : List (List UInt8) → List UInt8 → List (List UInt8)
  | [], _ => []
  | [last], bytes => [last ++ bytes]
  | first :: second :: shells, bytes => first :: forward (second :: shells) bytes

def byte (s : Spec) (byte : UInt8) : Spec :=
  match s.mode with
  | .prompt =>
    if byte = 13 || byte = 10 then s.submit
    else if byte = 4 && edited s.raw = [] then { s with mode := .closed }
    else if byte = 3 then
      { s with raw := s.raw ++ [byte], confirmation := none, marks := s.marks ++ [.interrupt] }
    else { s with raw := s.raw ++ [byte] }
  | .launching waiting => { s with mode := .launching (waiting ++ [byte]) }
  | .shell true => { s with shells := forward s.shells [byte] }
  | .shell false | .closed => s

def feed (s : Spec) (bytes : List UInt8) : Spec := bytes.foldl byte s

def arrive (s : Spec) : Arrival → Spec
  | .byte byte => s.byte byte
  | .opened =>
    match s.mode with
    | .launching waiting => { s with shells := s.shells ++ [waiting], mode := .shell true }
    | _ => s
  | .failed =>
    match s.mode with
    | .launching waiting => { s with mode := .prompt }.feed waiting
    | _ => s
  | .ended =>
    match s.mode with
    | .shell _ => { s with mode := .shell false }
    | _ => s
  | .left =>
    match s.mode with
    | .shell _ => { s with mode := .prompt }
    | _ => s
  | .closed => { s with mode := .closed }

def run (arrivals : List Arrival) : Spec := arrivals.foldl arrive {}

end Spec

/-- The account of a launch is the edited line, and root was asked for in the line before. -/
structure Launch.Accepted (launch : Launch) : Prop where
  line : ValidatedGuestUserName.new (lineText (edited launch.raw)) = .ok launch.account
  confirmed : isRoot launch.account = true → ∃ line, launch.before.getLast? = some (.line line) ∧
    ValidatedGuestUserName.new (lineText line) = .ok launch.account

end Specification

section Launches

/-- Launches are accepted, and an account to be confirmed is the one of the last line. -/
structure Spec.Sound (s : Spec) : Prop where
  accepted : ∀ launch ∈ s.launches, launch.Accepted
  confirming : ∀ user, s.confirmation = some user → ∃ line, s.marks.getLast? = some (.line line) ∧
    ValidatedGuestUserName.new (lineText line) = .ok user

variable {s : Spec}

theorem Spec.Sound.submit (h : s.Sound) : s.submit.Sound := by
  simp only [Spec.submit]
  split_ifs
  · exact ⟨h.accepted, h.confirming⟩
  · split
    · refine ⟨h.accepted, fun user hnone => ?_⟩
      cases hnone
    · rename_i user huser
      split_ifs with hask
      · refine ⟨h.accepted, fun other hother => ?_⟩
        cases hother
        exact ⟨_, List.getLast?_concat, huser⟩
      · refine ⟨fun launch hlaunch => ?_, fun user hnone => ?_⟩
        · rcases List.mem_append.mp hlaunch with hold | hnew
          · exact h.accepted launch hold
          · obtain rfl := List.mem_singleton.mp hnew
            refine ⟨huser, fun hroot => h.confirming user ?_⟩
            simpa [hroot] using hask
        · cases hnone

theorem Spec.Sound.byte (h : s.Sound) (byte : UInt8) : (s.byte byte).Sound := by
  unfold Spec.byte
  split
  · split_ifs
    · exact h.submit
    · exact ⟨h.accepted, h.confirming⟩
    · refine ⟨h.accepted, fun user hnone => ?_⟩
      cases hnone
    · exact ⟨h.accepted, h.confirming⟩
  · exact ⟨h.accepted, h.confirming⟩
  · exact ⟨h.accepted, h.confirming⟩
  · exact h
  · exact h

theorem Spec.Sound.feed (h : s.Sound) (bytes : List UInt8) : (s.feed bytes).Sound := by
  induction bytes generalizing s with
  | nil => exact h
  | cons byte bytes ih => exact ih (h.byte byte)

theorem Spec.Sound.arrive (h : s.Sound) (arrival : Arrival) : (s.arrive arrival).Sound := by
  cases arrival with
  | byte byte => exact h.byte byte
  | closed => exact ⟨h.accepted, h.confirming⟩
  | failed =>
    simp only [Spec.arrive]
    split
    · have hprompt : ({ s with mode := .prompt } : Spec).Sound := ⟨h.accepted, h.confirming⟩
      exact hprompt.feed _
    · exact h
  | opened | ended | left =>
    simp only [Spec.arrive]
    split
    · exact ⟨h.accepted, h.confirming⟩
    · exact h

theorem Spec.run_sound (arrivals : List Arrival) : (Spec.run arrivals).Sound := by
  have hstart : ({} : Spec).Sound := ⟨nofun, nofun⟩
  have hfold : ∀ (s : Spec), s.Sound → (arrivals.foldl Spec.arrive s).Sound := by
    induction arrivals with
    | nil => exact fun s h => h
    | cons arrival arrivals ih => exact fun s h => ih _ (h.arrive arrival)
  exact hfold _ hstart

end Launches

section Feeding

variable {s : Spec} {bytes : List UInt8}

theorem Spec.run_append (arrivals more : List Arrival) :
    Spec.run (arrivals ++ more) = more.foldl Spec.arrive (Spec.run arrivals) := List.foldl_append

theorem Spec.run_bytes (arrivals : List Arrival) (bytes : List UInt8) :
    Spec.run (arrivals ++ bytes.map .byte) = (Spec.run arrivals).feed bytes := by
  rw [Spec.run_append, List.foldl_map]
  rfl

theorem Spec.feed_launching {waiting : List UInt8} (hmode : s.mode = .launching waiting) :
    s.feed bytes = { s with mode := .launching (waiting ++ bytes) } := by
  induction bytes generalizing s waiting with
  | nil => simp [Spec.feed, ← hmode]
  | cons byte bytes ih =>
    have hbyte : s.byte byte = { s with mode := .launching (waiting ++ [byte]) } := by simp [Spec.byte, hmode]
    have hrest := @ih { s with mode := .launching (waiting ++ [byte]) } _ rfl
    rw [List.append_assoc] at hrest
    rw [← hbyte] at hrest
    simpa [Spec.feed, hbyte] using hrest

theorem Spec.feed_idle (hmode : s.mode = .shell false ∨ s.mode = .closed) : s.feed bytes = s := by
  induction bytes with
  | nil => rfl
  | cons byte bytes ih =>
    have hbyte : s.byte byte = s := by rcases hmode with hmode | hmode <;> simp [Spec.byte, hmode]
    simpa [Spec.feed, hbyte] using ih

@[simp]
theorem forward_nil (shells : List (List UInt8)) : Spec.forward shells [] = shells := by
  induction shells with
  | nil => rfl
  | cons first shells ih =>
    cases shells with
    | nil => simp [Spec.forward]
    | cons second shells => simp [Spec.forward, ih]

theorem forward_forward (shells : List (List UInt8)) (bytes more : List UInt8) :
    Spec.forward (Spec.forward shells bytes) more = Spec.forward shells (bytes ++ more) := by
  induction shells with
  | nil => rfl
  | cons first shells ih =>
    cases shells with
    | nil => simp [Spec.forward]
    | cons second shells =>
      cases shells with
      | nil => simp [Spec.forward]
      | cons third shells =>
        simp only [Spec.forward] at ih ⊢
        rw [ih]

theorem Spec.feed_shell (hmode : s.mode = .shell true) :
    s.feed bytes = { s with shells := forward s.shells bytes } := by
  induction bytes generalizing s with
  | nil => simp [Spec.feed]
  | cons byte bytes ih =>
    have hbyte : s.byte byte = { s with shells := forward s.shells [byte] } := by simp [Spec.byte, hmode]
    have hrest := @ih { s with shells := forward s.shells [byte] } hmode
    simp only [forward_forward, List.singleton_append] at hrest
    simpa [Spec.feed, hbyte] using hrest

theorem Spec.submit_frame (s : Spec) : s.launches <+: s.submit.launches ∧ s.submit.shells = s.shells ∧
    (s.submit.mode = s.mode ∨ s.submit.mode = .launching []) := by
  simp only [Spec.submit]
  split_ifs
  · simp
  · split
    · simp
    · split_ifs <;> simp

theorem Spec.byte_launches (s : Spec) (byte : UInt8) : s.launches <+: (s.byte byte).launches := by
  unfold Spec.byte
  split
  · split_ifs
    · exact s.submit_frame.1
    · simp
    · simp
    · simp
  all_goals simp

theorem Spec.feed_launches (s : Spec) (bytes : List UInt8) : s.launches <+: (s.feed bytes).launches := by
  induction bytes generalizing s with
  | nil => exact List.prefix_rfl
  | cons byte bytes ih => exact (s.byte_launches byte).trans (ih _)

theorem Spec.byte_outside (hmode : ∀ isOpen, s.mode ≠ .shell isOpen) (byte : UInt8) :
    (s.byte byte).shells = s.shells ∧ ∀ isOpen, (s.byte byte).mode ≠ .shell isOpen := by
  unfold Spec.byte
  split
  · obtain ⟨-, hshells, hsubmit⟩ := s.submit_frame
    split_ifs
    · refine ⟨hshells, fun isOpen => ?_⟩
      rcases hsubmit with hsame | hlaunching
      · rw [hsame]
        exact hmode isOpen
      · simp [hlaunching]
    · simp
    · exact ⟨rfl, hmode⟩
    · exact ⟨rfl, hmode⟩
  · simp
  · rename_i hshell
    exact absurd hshell (hmode true)
  · exact ⟨rfl, hmode⟩
  · exact ⟨rfl, hmode⟩

/-- Where no shell runs no byte reaches one. -/
theorem Spec.feed_outside (hmode : ∀ isOpen, s.mode ≠ .shell isOpen) :
    (s.feed bytes).shells = s.shells := by
  induction bytes generalizing s with
  | nil => rfl
  | cons byte bytes ih =>
    obtain ⟨hshells, hnext⟩ := Spec.byte_outside hmode byte
    exact (ih hnext).trans hshells

end Feeding

/-! ## A tab that is watched -/

section Watching

def inputBytes : TerminalCommand → List UInt8
  | .input bytes => bytes
  | _ => []

/-- A command arrives where it is used: at the prompt, when it is sent on, or when it is dropped. -/
def arrivalsOf (s : Tab) : Action → List Arrival
  | .receive =>
    match s.commands.recv, s.phase with
    | some (command, _), .prompting => (inputBytes command).map .byte
    | some (command, _), .bridging _ none true _ => (inputBytes command).map .byte
    | _, _ => []
  | .sent =>
    match s.phase with
    | .bridging _ (some command) _ _ => (inputBytes command).map .byte
    | _ => []
  | .launched => [.opened]
  | .launchFailed => [.failed]
  | .shellInputClosed | .shellExited => [.ended]
  | .bridgeFinished => [.left]
  | .close => [.closed]
  | _ => []

/-- The account of the line, when the next state is a launch. -/
def launchedAccount (s next : Tab) : List ValidatedGuestUserName :=
  match next.phase, ValidatedGuestUserName.new (lineText s.line) with
  | .launching _ _, .ok user => [user]
  | _, _ => []

def launchesOf (s : Tab) : Action → List ValidatedGuestUserName
  | .byte =>
    match s.phase with
    | .typing (byte :: rest) => launchedAccount s (s.byte byte rest)
    | _ => []
  | _ => []

/-- What the shells got, with what the action sends. -/
def shellsOf (s : Tab) (shells : List (List UInt8)) : Action → List (List UInt8)
  | .launched => shells ++ [[]]
  | .sent =>
    match s.phase with
    | .bridging remote (some command) _ _ =>
      if remote.inputOpen then Spec.forward shells (inputBytes command) else shells
    | _ => shells
  | _ => shells

/-- The bytes of an `Input` that finds room. -/
def typedOf (s : Tab) : Action → List UInt8
  | .input bytes => if (s.send (.input bytes)).1 = .queued then bytes else []
  | _ => []

structure Watched where
  tab : Tab
  typed : List UInt8 := []
  arrivals : List Arrival := []
  launches : List ValidatedGuestUserName := []
  shells : List (List UInt8) := []

def Watched.after (w : Watched) (action : Action) (tab : Tab) : Watched where
  tab := tab
  typed := w.typed ++ typedOf w.tab action
  arrivals := w.arrivals ++ arrivalsOf w.tab action
  launches := w.launches ++ launchesOf w.tab action
  shells := shellsOf w.tab w.shells action

def watch (w : Watched) (action : Action) : Option Watched := (step w.tab action).map (w.after action)

def WatchedStep (w : Watched) (action : Action) (v : Watched) : Prop := watch w action = some v

def watchedStart (size : SessionSize) : Watched where tab := start size

/-- A shell is opened while bytes of the `Input` that named it are left. -/
def cutsOff (s : Tab) : Action → Bool
  | .launched =>
    match s.phase with
    | .launching _ (_ :: _) => true
    | _ => false
  | _ => false

def UncutStep (w : Watched) (action : Action) (v : Watched) : Prop :=
  WatchedStep w action v ∧ cutsOff w.tab action = false

end Watching

/-! ## The tab follows the specification -/

section Following

variable {s t : Tab} {base : Spec} {launches : List ValidatedGuestUserName} {shells : List (List UInt8)}
  {arrivals : List Arrival} {action : Action} {bytes rest : List UInt8}

/-- Bytes that arrived and are not used yet. -/
def unread : Phase → List UInt8
  | .typing rest => rest
  | .launching _ rest => rest
  | _ => []

/-- The mode of a phase whose unread bytes are still to be fed. -/
def InMode : Phase → Mode → Prop
  | .prompting, mode => mode = .prompt
  | .typing _, mode => mode = .prompt
  | .launching _ _, mode => mode = .launching []
  | .bridging remote sending finished rest, mode =>
    mode = .shell (remote.inputOpen && !finished) ∧ rest = [] ∧ (sending.isSome = true → finished = false)
  | .ended, mode => mode = .closed

structure Matches (s : Tab) (launches : List ValidatedGuestUserName) (shells : List (List UInt8))
    (base : Spec) : Prop where
  line : s.line = edited base.raw
  confirmation : s.rootConfirmation = base.confirmation
  launches : base.launches.map (·.account) = launches
  shells : base.shells = shells
  mode : InMode s.phase base.mode

/-- The specification of what arrived is the tab with its unread bytes still to be fed. -/
def Follows (s : Tab) (arrivals : List Arrival) (launches : List ValidatedGuestUserName)
    (shells : List (List UInt8)) : Prop :=
  ∃ base, Matches s launches shells base ∧ Spec.run arrivals = base.feed (unread s.phase)

theorem Matches.frame (h : Matches s launches shells base) (hline : t.line = s.line)
    (hconfirmation : t.rootConfirmation = s.rootConfirmation) (hmode : InMode t.phase base.mode) :
    Matches t launches shells base :=
  ⟨hline.trans h.line, hconfirmation.trans h.confirmation, h.launches, h.shells, hmode⟩

theorem Follows.frame (h : Follows s arrivals launches shells) (hline : t.line = s.line)
    (hconfirmation : t.rootConfirmation = s.rootConfirmation) (hphase : t.phase = s.phase) :
    Follows t arrivals launches shells := by
  obtain ⟨base, hmatch, hrun⟩ := h
  exact ⟨base, hmatch.frame hline hconfirmation (hphase ▸ hmatch.mode), hphase ▸ hrun⟩

@[simp]
theorem edited_append (raw : List UInt8) (byte : UInt8) :
    edited (raw ++ [byte]) = edit (edited raw) byte := by
  simp [edited]

theorem launchedAccount_nil {next : Tab} (h : ∀ size rest, next.phase ≠ .launching size rest) :
    launchedAccount s next = [] := by
  unfold launchedAccount
  split
  · rename_i hphase _
    exact absurd hphase (h _ _)
  · rfl

theorem enter_matches (h : Matches s launches shells base) (hprompt : base.mode = .prompt) :
    Matches (s.enter rest) (launches ++ launchedAccount s (s.enter rest)) shells base.submit ∧
      unread (s.enter rest).phase = rest := by
  have hline := h.line
  simp only [Tab.enter, Spec.submit, hline]
  split_ifs with hempty
  · rw [launchedAccount_nil (by simp), List.append_nil]
    exact ⟨⟨hempty, h.confirmation, h.launches, h.shells, hprompt⟩, rfl⟩
  · cases hnew : ValidatedGuestUserName.new (lineText (edited base.raw)) with
    | error error =>
      rw [launchedAccount_nil (by simp), List.append_nil]
      exact ⟨⟨rfl, rfl, h.launches, h.shells, hprompt⟩, rfl⟩
    | ok user =>
      simp only [h.confirmation]
      split_ifs
      · rw [launchedAccount_nil (by simp), List.append_nil]
        exact ⟨⟨rfl, rfl, h.launches, h.shells, hprompt⟩, rfl⟩
      · simp only [launchedAccount, hline, hnew]
        refine ⟨⟨rfl, rfl, ?_, h.shells, rfl⟩, rfl⟩
        simp [h.launches]

/-- A byte that only changes the line. -/
theorem edit_matches {line : List UInt8} {byte : UInt8} (h : Matches s launches shells base)
    (hline : line = edit (edited base.raw) byte) :
    Matches { s with line := line, phase := .typing rest } launches shells
      { base with raw := base.raw ++ [byte], mode := .prompt } :=
  ⟨by simp [hline], h.confirmation, h.launches, h.shells, rfl⟩

/-- A backspace, a character that fits, or a byte that does nothing. -/
theorem edit_eq {line : List UInt8} {byte : UInt8} (hinterrupt : byte ≠ 3) : edit line byte =
    if (byte = 8 || byte = 127) && line != [] then line.dropLast
    else if isAsciiGraphic byte && line.length < userMaxBytes then line ++ [byte]
    else line := by
  simp only [edit, if_neg hinterrupt]
  by_cases hback : (byte = 8 || byte = 127) = true
  · have hcontrol : isAsciiGraphic byte = false := by
      simp only [Bool.or_eq_true, decide_eq_true_eq] at hback
      rcases hback with rfl | rfl <;> decide +kernel
    by_cases hempty : line = []
    · simp [hempty, hcontrol]
    · simp [hback, hempty]
  · simp [hback]

/-- A byte of a line does to the tab what it does to the specification. -/
theorem byte_matches (byte : UInt8) (h : Matches s launches shells base) (hprompt : base.mode = .prompt) :
    Matches (s.byte byte rest) (launches ++ launchedAccount s (s.byte byte rest)) shells (base.byte byte) ∧
      (base.byte byte).feed rest = (base.byte byte).feed (unread (s.byte byte rest).phase) := by
  have hline := h.line
  have hkeep : ∀ line : List UInt8, line = edit (edited base.raw) byte →
      Matches { s with line := line, phase := .typing rest } launches shells
        { base with raw := base.raw ++ [byte], mode := .prompt } := fun _ => edit_matches h
  simp only [Tab.byte, Spec.byte, hprompt, hline]
  split_ifs with hend heof hinterrupt hback hgraphic
  · obtain ⟨hmatch, hunread⟩ := @enter_matches s base launches shells rest h hprompt
    exact ⟨hmatch, by rw [hunread]⟩
  · rw [launchedAccount_nil (by simp), List.append_nil]
    refine ⟨⟨rfl, h.confirmation, h.launches, h.shells, rfl⟩, ?_⟩
    rw [Spec.feed_idle (.inr rfl), Spec.feed_idle (.inr rfl)]
  · rw [launchedAccount_nil (by simp), List.append_nil]
    exact ⟨⟨by simp [edit, hinterrupt], rfl, h.launches, h.shells, rfl⟩, rfl⟩
  · rw [launchedAccount_nil (by simp), List.append_nil]
    refine ⟨hkeep _ ?_, rfl⟩
    rw [edit_eq hinterrupt, if_pos hback]
  · rw [launchedAccount_nil (by simp), List.append_nil]
    refine ⟨hkeep _ ?_, rfl⟩
    rw [edit_eq hinterrupt, if_neg hback, if_pos hgraphic]
  · rw [launchedAccount_nil (by simp), List.append_nil]
    refine ⟨?_, rfl⟩
    have hsame := hkeep (edited base.raw) (by rw [edit_eq hinterrupt, if_neg hback, if_neg hgraphic])
    exact hsame

/-- Bytes that arrive where nothing is unread. -/
theorem run_arrived (hrun : Spec.run arrivals = base.feed []) (bytes : List UInt8) :
    Spec.run (arrivals ++ bytes.map .byte) = base.feed bytes := by
  rw [Spec.run_bytes, hrun]
  rfl

theorem receive_follows (h : Follows s arrivals launches shells) (hs : s.receive = some t) :
    Follows t (arrivals ++ arrivalsOf s .receive) launches shells := by
  obtain ⟨base, hmatch, hrun⟩ := h
  have hmode := hmatch.mode
  unfold Tab.receive at hs
  split at hs
  · cases hs
  · rename_i command commands hrecv
    split at hs
    · rename_i hphase
      have harrivals : arrivalsOf s .receive = (inputBytes command).map .byte := by
        simp [arrivalsOf, hrecv, hphase]
      rw [hphase] at hrun hmode
      rw [harrivals]
      cases hs
      have hrun' := run_arrived hrun (inputBytes command)
      cases command with
      | input bytes => exact ⟨base, hmatch.frame rfl rfl hmode, hrun'⟩
      | reply bytes =>
        refine ⟨base, hmatch.frame rfl rfl (hphase ▸ hmatch.mode), ?_⟩
        simpa [Tab.promptCommand, inputBytes, hphase, unread] using hrun'
      | resize size =>
        refine ⟨base, hmatch.frame rfl rfl (hphase ▸ hmatch.mode), ?_⟩
        simpa [Tab.promptCommand, inputBytes, hphase, unread] using hrun'
    · rename_i remote finished rest hphase
      rw [hphase] at hrun hmode
      obtain ⟨hshell, rfl, -⟩ := hmode
      cases hs
      cases finished with
      | true =>
        have harrivals : arrivalsOf s .receive = (inputBytes command).map .byte := by
          simp [arrivalsOf, hrecv, hphase]
        have hidle : base.mode = .shell false := by simpa using hshell
        rw [harrivals]
        have hnext : InMode (.bridging remote none true []) base.mode :=
          ⟨hshell, rfl, fun hsending => absurd hsending Bool.false_ne_true⟩
        refine ⟨base, hmatch.frame rfl rfl (by simpa [bridgeCommand] using hnext), ?_⟩
        rw [run_arrived hrun, Spec.feed_idle (.inl hidle), Spec.feed_idle (.inl hidle)]
      | false =>
        have harrivals : arrivalsOf s .receive = [] := by simp [arrivalsOf, hrecv, hphase]
        rw [harrivals, List.append_nil]
        refine ⟨base, hmatch.frame rfl rfl ⟨?_, rfl, fun _ => rfl⟩, hrun⟩
        cases command <;> simpa [bridgeCommand] using hshell
    · cases hs

theorem sent_follows (h : Follows s arrivals launches shells) (hs : step s .sent = some t) :
    Follows t (arrivals ++ arrivalsOf s .sent) launches (shellsOf s shells .sent) := by
  obtain ⟨base, hmatch, hrun⟩ := h
  have hmode := hmatch.mode
  simp only [step] at hs
  split at hs
  · rename_i remote command finished rest hphase
    rw [hphase] at hrun hmode
    obtain ⟨hshell, rfl, hfinished⟩ := hmode
    obtain rfl := hfinished rfl
    simp only [arrivalsOf, shellsOf, hphase]
    split_ifs at hs with hopen
    · rw [Option.map_eq_some_iff] at hs
      obtain ⟨commands, -, rfl⟩ := hs
      simp only [hopen, if_true]
      rw [hopen] at hshell
      refine ⟨{ base with shells := Spec.forward base.shells (inputBytes command) }, ?_, ?_⟩
      · refine ⟨hmatch.line, hmatch.confirmation, hmatch.launches, by rw [hmatch.shells], ?_⟩
        exact ⟨by simpa [hopen] using hshell, rfl, fun _ => rfl⟩
      · rw [run_arrived hrun, Spec.feed_shell hshell]
        rfl
    · cases hs
      simp only [hopen]
      have hidle : base.mode = .shell false := by simpa [hopen] using hshell
      refine ⟨base, hmatch.frame rfl rfl ⟨by simpa [hopen] using hidle, rfl, fun _ => rfl⟩, ?_⟩
      rw [run_arrived hrun, Spec.feed_idle (.inl hidle)]
      exact (Spec.feed_idle (.inl hidle)).symm
  · cases hs

theorem byte_follows (h : Follows s arrivals launches shells) (hs : step s .byte = some t) :
    Follows t arrivals (launches ++ launchesOf s .byte) shells := by
  obtain ⟨base, hmatch, hrun⟩ := h
  have hmode := hmatch.mode
  simp only [step] at hs
  simp only [launchesOf]
  split at hs
  · rename_i hphase
    rw [hphase] at hrun hmode
    cases hs
    simp only [hphase, List.append_nil]
    exact ⟨base, hmatch.frame rfl rfl hmode, hrun⟩
  · rename_i byte rest hphase
    rw [hphase] at hrun hmode
    cases hs
    simp only [hphase]
    obtain ⟨hnext, hfeed⟩ := @byte_matches s base launches shells rest byte hmatch hmode
    exact ⟨_, hnext, hrun.trans hfeed⟩
  · cases hs

theorem launched_follows (h : Follows s arrivals launches shells) (hcut : cutsOff s .launched = false)
    (hs : step s .launched = some t) : Follows t (arrivals ++ [.opened]) launches (shells ++ [[]]) := by
  obtain ⟨base, hmatch, hrun⟩ := h
  have hmode := hmatch.mode
  simp only [step] at hs
  split at hs
  · rename_i size rest hphase
    have hrest : rest = [] := by
      cases rest with
      | nil => rfl
      | cons byte rest => simp [cutsOff, hphase] at hcut
    subst hrest
    rw [hphase] at hrun hmode
    cases hs
    refine ⟨{ base with shells := base.shells ++ [[]], mode := .shell true }, ?_, ?_⟩
    · exact ⟨hmatch.line, hmatch.confirmation, hmatch.launches, by rw [hmatch.shells], rfl, rfl,
        fun _ => rfl⟩
    · have hwaiting : base.mode = .launching [] := hmode
      rw [Spec.run_append, hrun]
      simp [Spec.feed, Spec.arrive, unread, hwaiting]
  · cases hs

theorem launchFailed_follows (h : Follows s arrivals launches shells) (hs : step s .launchFailed = some t) :
    Follows t (arrivals ++ [.failed]) launches shells := by
  obtain ⟨base, hmatch, hrun⟩ := h
  have hmode := hmatch.mode
  simp only [step] at hs
  split at hs
  · rename_i size rest hphase
    rw [hphase] at hrun hmode
    cases hs
    refine ⟨{ base with mode := .prompt }, ?_, ?_⟩
    · exact ⟨hmatch.line, hmatch.confirmation, hmatch.launches, hmatch.shells, rfl⟩
    · have hwaiting : base.mode = .launching [] := hmode
      rw [Spec.run_append, hrun, Spec.feed_launching hwaiting]
      simp [Spec.arrive, unread]
  · cases hs

/-- The shell loses its input or exits. -/
theorem ended_follows {remote remote' : Remote} {sending : Option TerminalCommand} {finished finished' : Bool}
    (h : Follows s arrivals launches shells) (hphase : s.phase = .bridging remote sending finished rest)
    (hended : (remote'.inputOpen && !finished') = false)
    (hsending : sending.isSome = true → finished' = false) :
    Follows { s with phase := .bridging remote' sending finished' rest } (arrivals ++ [.ended]) launches
      shells := by
  obtain ⟨base, hmatch, hrun⟩ := h
  have hmode := hmatch.mode
  rw [hphase] at hrun hmode
  obtain ⟨hshell, rfl, -⟩ := hmode
  refine ⟨{ base with mode := .shell false }, ?_, ?_⟩
  · exact ⟨hmatch.line, hmatch.confirmation, hmatch.launches, hmatch.shells, by rw [hended], rfl, hsending⟩
  · rw [Spec.run_append, hrun]
    simp [Spec.feed, Spec.arrive, unread, hshell]

theorem bridgeFinished_follows (h : Follows s arrivals launches shells)
    (hs : step s .bridgeFinished = some t) : Follows t (arrivals ++ [.left]) launches shells := by
  obtain ⟨base, hmatch, hrun⟩ := h
  have hmode := hmatch.mode
  simp only [step] at hs
  split at hs
  · rename_i remote rest hphase
    rw [hphase] at hrun hmode
    obtain ⟨hshell, rfl, -⟩ := hmode
    cases hs
    refine ⟨{ base with mode := .prompt }, ?_, ?_⟩
    · exact ⟨hmatch.line, hmatch.confirmation, hmatch.launches, hmatch.shells, rfl⟩
    · rw [Spec.run_append, hrun]
      simp [Spec.feed, Spec.arrive, unread, hshell]
  · cases hs

theorem close_follows (h : Follows s arrivals launches shells) (hunread : unread s.phase = []) :
    Follows { s with phase := .ended } (arrivals ++ [.closed]) launches shells := by
  obtain ⟨base, hmatch, hrun⟩ := h
  refine ⟨{ base with mode := .closed }, ?_, ?_⟩
  · exact ⟨hmatch.line, hmatch.confirmation, hmatch.launches, hmatch.shells, rfl⟩
  · rw [Spec.run_append, hrun, hunread]
    rfl

theorem shellReceive_follows (h : Follows s arrivals launches shells) (hs : step s .shellReceive = some t) :
    Follows t arrivals launches shells := by
  obtain ⟨base, hmatch, hrun⟩ := h
  have hmode := hmatch.mode
  simp only [step] at hs
  split at hs
  · rename_i remote sending finished rest hphase
    rw [hphase] at hrun hmode
    split_ifs at hs
    rw [Option.map_eq_some_iff] at hs
    obtain ⟨taken, -, rfl⟩ := hs
    exact ⟨base, hmatch.frame rfl rfl hmode, hrun⟩
  · cases hs

theorem step_follows (h : Follows s arrivals launches shells) (hs : step s action = some t)
    (hcut : cutsOff s action = false) :
    Follows t (arrivals ++ arrivalsOf s action) (launches ++ launchesOf s action)
      (shellsOf s shells action) := by
  cases action with
  | requestResize cols rows =>
    cases hs
    obtain ⟨hphase, -, -, hline, hconfirmation⟩ := requestResize_frame (s := s) cols rows
    have hkept := h.frame hline hconfirmation hphase
    simpa [arrivalsOf, launchesOf, shellsOf] using hkept
  | input bytes =>
    cases hs
    have hkept : Follows (s.send (.input bytes)).2 arrivals launches shells := h.frame rfl rfl rfl
    simpa [arrivalsOf, launchesOf, shellsOf] using hkept
  | reply bytes =>
    cases hs
    have hkept : Follows (s.send (.reply bytes)).2 arrivals launches shells := h.frame rfl rfl rfl
    simpa [arrivalsOf, launchesOf, shellsOf] using hkept
  | receive => simpa [launchesOf, shellsOf] using receive_follows h hs
  | byte => simpa [arrivalsOf, shellsOf] using byte_follows h hs
  | launched => simpa [arrivalsOf, launchesOf, shellsOf] using launched_follows h hcut hs
  | launchFailed => simpa [arrivalsOf, launchesOf, shellsOf] using launchFailed_follows h hs
  | sent => simpa [launchesOf] using sent_follows h hs
  | bridgeFinished => simpa [arrivalsOf, launchesOf, shellsOf] using bridgeFinished_follows h hs
  | shellReceive => simpa [arrivalsOf, launchesOf, shellsOf] using shellReceive_follows h hs
  | shellInputClosed =>
    simp only [step] at hs
    split at hs
    · rename_i remote sending finished rest hphase
      obtain ⟨base, hmatch, -⟩ := id h
      have hmode := hmatch.mode
      rw [hphase] at hmode
      cases hs
      simp only [arrivalsOf, launchesOf, shellsOf, List.append_nil]
      exact ended_follows h hphase rfl hmode.2.2
    · cases hs
  | shellExited =>
    simp only [step] at hs
    split at hs
    · rename_i remote rest hphase
      cases hs
      simp only [arrivalsOf, launchesOf, shellsOf, List.append_nil]
      exact ended_follows h hphase (by simp) fun hsending => absurd hsending Bool.false_ne_true
    · cases hs
  | close =>
    simp only [arrivalsOf, launchesOf, shellsOf, List.append_nil]
    simp only [step] at hs
    split at hs
    · rename_i hphase
      cases hs
      exact close_follows h (by rw [hphase]; rfl)
    · rename_i hphase
      cases hs
      exact close_follows h (by rw [hphase]; rfl)
    · cases hs

end Following

/-! ## What was typed -/

section Typing

variable {s t : Tab} {action : Action} {arrivals : List Arrival}

def arrivedByte : Arrival → Option UInt8
  | .byte byte => some byte
  | _ => none

def arrivedBytes (arrivals : List Arrival) : List UInt8 := arrivals.filterMap arrivedByte

/-- The `Input` that waits to be sent on. -/
def waiting : Phase → List UInt8
  | .bridging _ (some command) _ _ => inputBytes command
  | _ => []

/-- Input that was typed and has not arrived. -/
def pending (s : Tab) : List UInt8 := waiting s.phase ++ s.commands.items.flatMap inputBytes

@[simp]
theorem arrivedBytes_append (arrivals more : List Arrival) :
    arrivedBytes (arrivals ++ more) = arrivedBytes arrivals ++ arrivedBytes more := by
  simp [arrivedBytes]

@[simp]
theorem arrivedBytes_bytes (bytes : List UInt8) : arrivedBytes (bytes.map .byte) = bytes := by
  simp [arrivedBytes, List.filterMap_map, Function.comp_def, arrivedByte]

theorem send_pending (s : Tab) (command : TerminalCommand) : pending (s.send command).2 =
    pending s ++ if (s.send command).1 = .queued then inputBytes command else [] := by
  cases hclosed : s.ended with
  | true => simp [Tab.send, sendTerminalCommand, hclosed, pending]
  | false =>
    cases hsend : s.commands.trySend command with
    | none => simp [Tab.send, sendTerminalCommand, hclosed, hsend, pending]
    | some commands =>
      simp [Tab.send, sendTerminalCommand, hclosed, hsend, pending, Queue.trySend_items hsend]

theorem requestResize_pending (cols rows : ℕ) : pending (s.requestResize cols rows) = pending s := by
  unfold Tab.requestResize Tab.queueResize
  split_ifs
  · rfl
  · split
    · rfl
    · rename_i size hsize
      have hsend : pending (s.send (.resize size)).2 = pending s := by
        simp [send_pending, inputBytes]
      split
      · rename_i hsent
        rw [hsent] at hsend
        exact hsend
      · rename_i hsent
        rw [hsent] at hsend
        exact hsend
      · rename_i hsent
        rw [hsent] at hsend
        exact hsend

theorem waiting_of_not_bridging {phase : Phase}
    (h : ∀ remote sending finished rest, phase ≠ .bridging remote sending finished rest) :
    waiting phase = [] := by
  unfold waiting
  split
  · exact absurd rfl (h _ _ _ _)
  · rfl

theorem pending_frame (hwaiting : waiting t.phase = waiting s.phase) (hcommands : t.commands = s.commands) :
    pending t = pending s := by
  rw [pending, hwaiting, hcommands]
  rfl

theorem receive_pending (hs : s.receive = some t) :
    pending s = arrivedBytes (arrivalsOf s .receive) ++ pending t := by
  unfold Tab.receive at hs
  split at hs
  · cases hs
  · rename_i command commands hrecv
    have hitems := Queue.recv_items hrecv
    split at hs
    · rename_i hphase
      cases hs
      cases command <;>
        simp [pending, waiting, arrivalsOf, arrivedBytes, hrecv, hphase, hitems, inputBytes,
          Tab.promptCommand, List.filterMap_map, Function.comp_def, arrivedByte]
    · rename_i remote finished rest hphase
      cases hs
      cases finished with
      | true => simp [pending, waiting, arrivalsOf, hrecv, hphase, hitems, bridgeCommand]
      | false =>
        cases command <;>
          simp [pending, waiting, arrivalsOf, arrivedBytes, hrecv, hphase, hitems, inputBytes, bridgeCommand]
    · cases hs

/-- What is pending arrives, in order. -/
theorem step_pending (hs : step s action = some t) :
    pending s ++ typedOf s action = arrivedBytes (arrivalsOf s action) ++ pending t := by
  cases action with
  | requestResize cols rows =>
    cases hs
    simp [typedOf, arrivalsOf, arrivedBytes, requestResize_pending]
  | input bytes =>
    cases hs
    simp [typedOf, arrivalsOf, arrivedBytes, send_pending, inputBytes]
  | reply bytes =>
    cases hs
    simp [typedOf, arrivalsOf, arrivedBytes, send_pending, inputBytes]
  | receive => simpa [typedOf] using receive_pending hs
  | byte =>
    simp only [typedOf, arrivalsOf, arrivedBytes, List.append_nil, List.filterMap_nil, List.nil_append]
    simp only [step] at hs
    split at hs
    · rename_i hphase
      cases hs
      simp [pending, waiting, hphase]
    · rename_i byte rest hphase
      cases hs
      obtain ⟨-, -, hcommands, -, hnext⟩ := @byte_frame s rest byte
      have hbefore : waiting s.phase = [] := by rw [hphase]; rfl
      exact (pending_frame (by rw [waiting_of_not_bridging hnext, hbefore]) hcommands).symm
    · cases hs
  | sent =>
    simp only [step] at hs
    split at hs
    · rename_i remote command finished rest hphase
      split_ifs at hs
      · rw [Option.map_eq_some_iff] at hs
        obtain ⟨commands, -, rfl⟩ := hs
        simp [typedOf, arrivalsOf, pending, waiting, hphase]
      · cases hs
        simp [typedOf, arrivalsOf, pending, waiting, hphase]
    · cases hs
  | shellReceive =>
    simp only [step] at hs
    split at hs
    · rename_i remote sending finished rest hphase
      split_ifs at hs
      rw [Option.map_eq_some_iff] at hs
      obtain ⟨taken, -, rfl⟩ := hs
      cases sending <;> simp [typedOf, arrivalsOf, arrivedBytes, pending, waiting, hphase]
    · cases hs
  | shellInputClosed =>
    simp only [step] at hs
    split at hs
    · rename_i remote sending finished rest hphase
      cases hs
      cases sending <;> simp [typedOf, arrivalsOf, arrivedBytes, arrivedByte, pending, waiting, hphase]
    · cases hs
  | close =>
    simp only [step] at hs
    split at hs
    · rename_i hphase
      cases hs
      simp [typedOf, arrivalsOf, arrivedBytes, arrivedByte, pending, waiting, hphase]
    · rename_i hphase
      cases hs
      simp [typedOf, arrivalsOf, arrivedBytes, arrivedByte, pending, waiting, hphase]
    · cases hs
  | _ =>
    simp only [step] at hs
    split at hs
    · rename_i hphase
      cases hs
      simp [typedOf, arrivalsOf, arrivedBytes, arrivedByte, pending, waiting, hphase]
    · cases hs

end Typing

/-! ## Runs -/

section Runs

variable {w v : Watched} {action : Action} {actions : List Action} {size : SessionSize}

theorem watched_follows (hfollows : Follows w.tab w.arrivals w.launches w.shells)
    (hs : UncutStep w action v) : Follows v.tab v.arrivals v.launches v.shells := by
  obtain ⟨hs, hcut⟩ := hs
  obtain ⟨tab, hstep, rfl⟩ := Option.map_eq_some_iff.mp hs
  exact step_follows hfollows hstep hcut

theorem watched_typed (htyped : w.typed = arrivedBytes w.arrivals ++ pending w.tab)
    (hs : WatchedStep w action v) : v.typed = arrivedBytes v.arrivals ++ pending v.tab := by
  obtain ⟨tab, hstep, rfl⟩ := Option.map_eq_some_iff.mp hs
  simp only [Watched.after, arrivedBytes_append, List.append_assoc]
  rw [← step_pending hstep, htyped, List.append_assoc]

theorem run_follows (h : Run UncutStep (watchedStart size) actions w) :
    Follows w.tab w.arrivals w.launches w.shells := by
  apply Run.invariant (I := fun w => Follows w.tab w.arrivals w.launches w.shells) h
  · exact ⟨{}, ⟨rfl, rfl, rfl, rfl, rfl⟩, rfl⟩
  · exact fun _ _ _ hfollows hs => watched_follows hfollows hs

theorem run_typed (h : Run WatchedStep (watchedStart size) actions w) :
    w.typed = arrivedBytes w.arrivals ++ pending w.tab := by
  apply Run.invariant (I := fun w => w.typed = arrivedBytes w.arrivals ++ pending w.tab) h
  · rfl
  · exact fun _ _ _ htyped hs => watched_typed htyped hs

/-- What the property says of a tab: the bytes typed arrive in order, every account launched is the
edited line, confirmed where it is root, and launches and shells are those of the bytes one by one. -/
structure Prompted (w : Watched) : Prop where
  typed : w.typed = arrivedBytes w.arrivals ++ pending w.tab
  accepted : ∀ launch ∈ (Spec.run w.arrivals).launches, launch.Accepted
  launched : w.launches <+: (Spec.run w.arrivals).launches.map (·.account)
  all : unread w.tab.phase = [] → w.launches = (Spec.run w.arrivals).launches.map (·.account)
  shells : w.shells = (Spec.run w.arrivals).shells

/-- Where no shell is opened while bytes of the `Input` that named it are left, the accounts launched
and what every shell gets depend on the bytes alone, not on the commands they came in. -/
theorem prompt_follows_bytes (h : Run UncutStep (watchedStart size) actions w) : Prompted w := by
  obtain ⟨base, hmatch, hrun⟩ := run_follows h
  have hlaunches := hmatch.launches
  have hshells := hmatch.shells
  refine ⟨run_typed (h.mono fun _ _ _ hs => hs.1), (Spec.run_sound _).accepted, ?_, ?_, ?_⟩
  · rw [hrun, ← hlaunches]
    exact (base.feed_launches _).map _
  · intro hunread
    rw [hrun, hunread, ← hlaunches]
    rfl
  · rw [hrun, ← hshells]
    have hmode := hmatch.mode
    cases hphase : w.tab.phase with
    | typing rest | launching size rest =>
      rw [hphase] at hmode
      refine (Spec.feed_outside fun isOpen hshell => ?_).symm
      simp [InMode, hshell] at hmode
    | prompting | bridging remote sending finished rest | ended => rfl

/-- The first shell that is opened too early misses the bytes that were left. -/
theorem cut_not_prompted (h : Run UncutStep (watchedStart size) actions w) (hs : WatchedStep w action v)
    (hcut : cutsOff w.tab action = true) : ¬ Prompted v := by
  intro hprompted
  obtain ⟨base, hmatch, hrun⟩ := run_follows h
  obtain ⟨tab, -, rfl⟩ := Option.map_eq_some_iff.mp hs
  have hagree := hprompted.shells
  cases action with
  | launched =>
    simp only [cutsOff] at hcut
    split at hcut
    · rename_i size byte rest hphase
      have hmode := hmatch.mode
      rw [hphase] at hrun hmode
      have hwaiting : base.mode = .launching [] := hmode
      simp only [Watched.after, shellsOf, arrivalsOf] at hagree
      rw [Spec.run_append, hrun, unread, Spec.feed_launching hwaiting, ← hmatch.shells] at hagree
      simp [Spec.arrive] at hagree
    · cases hcut
  | _ => cases hcut

def uncutStep (w : Watched) (action : Action) : Option Watched :=
  if cutsOff w.tab action then none else watch w action

theorem uncutStep_some (w : Watched) (action : Action) (v : Watched) (h : uncutStep w action = some v) :
    UncutStep w action v := by
  unfold uncutStep at h
  split_ifs at h with hcut
  exact ⟨h, by simpa using hcut⟩

/-- An account in three commands and its line end in a fourth, which leaves the fifth to the shell. -/
theorem prompt_follows_bytes_chunks :
    ∃ w, Run UncutStep (watchedStart ⟨80, 24⟩)
        [.input [97, 108], .input [105, 127], .input [101], .input [13], .input [108, 115, 13], .receive,
          .byte, .byte, .byte, .receive, .byte, .byte, .byte, .receive, .byte, .byte, .receive, .byte,
          .launched, .receive, .sent] w ∧
      w.launches.map (·.text) = ["ale".toList] ∧ w.shells = [[108, 115, 13]] ∧ Prompted w := by
  have hrun : ∃ w, [Action.input [97, 108], .input [105, 127], .input [101], .input [13],
      .input [108, 115, 13], .receive, .byte, .byte, .byte, .receive, .byte, .byte, .byte, .receive, .byte,
      .byte, .receive, .byte, .launched, .receive, .sent].foldlM uncutStep (watchedStart ⟨80, 24⟩) = some w ∧
        w.launches.map (·.text) = ["ale".toList] ∧ w.shells = [[108, 115, 13]] := ⟨_, rfl, rfl, rfl⟩
  obtain ⟨w, hfold, hlaunches, hshells⟩ := hrun
  have hrun := Run.of_foldlM uncutStep_some hfold
  exact ⟨w, hrun, hlaunches, hshells, prompt_follows_bytes hrun⟩

/-- The same bytes in one command: the shell gets nothing, and `ls` is launched after it. -/
theorem rest_names_next_account :
    ∃ w, Run WatchedStep (watchedStart ⟨80, 24⟩)
        [.input [97, 108, 105, 127, 101, 13, 108, 115, 13], .receive, .byte, .byte, .byte, .byte, .byte,
          .byte, .launched, .shellExited, .bridgeFinished, .byte, .byte, .byte] w ∧
      w.launches.map (·.text) = ["ale".toList, "ls".toList] ∧ w.shells = [[]] ∧ ¬ Prompted w := by
  have hrun : ∃ w, [Action.input [97, 108, 105, 127, 101, 13, 108, 115, 13], .receive, .byte, .byte,
      .byte, .byte, .byte, .byte, .launched, .shellExited, .bridgeFinished, .byte, .byte, .byte].foldlM watch
        (watchedStart ⟨80, 24⟩) = some w ∧
      w.launches.map (·.text) = ["ale".toList, "ls".toList] ∧ w.shells = [[]] ∧
      (Spec.run w.arrivals).shells = [[108, 115, 13]] := ⟨_, rfl, rfl, rfl, rfl⟩
  obtain ⟨w, hfold, hlaunches, hshells, hspec⟩ := hrun
  refine ⟨w, Run.of_foldlM (fun _ _ _ hs => hs) hfold, hlaunches, hshells, fun hprompted => ?_⟩
  have hagree := hprompted.shells
  rw [hshells, hspec] at hagree
  simp at hagree

end Runs

end Lasper.Terminal.ShellPrompt
