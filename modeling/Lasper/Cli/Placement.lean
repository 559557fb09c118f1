import Lasper.Cli.Parse
import Lasper.Lib.Checked

/-! Where options may stand. A common option does the same before the command and after it,
up to the guest's executable; from there on, and after a separator, nothing is an option. -/

namespace Lasper.Cli

open Lib Config Provisioning

section Common

def commonOptions : List Text :=
  ["--elevate", "-e", "--systemd-tools", "-s", "--elevate=sudo", "--elevate=run0"].map String.toList

/-- The way of elevation that a common option chooses. -/
def commonMethod (o : Text) : Option ElevationMethod :=
  if o = "--elevate=sudo".toList then some .sudo
  else if o = "--elevate=run0".toList then some .run0
  else none

def asksElevation (o : Text) : Bool := o ≠ "--systemd-tools".toList && o ≠ "-s".toList

/-- What a common option does to the options. -/
def applyCommon (o : Text) (options : CliOptions) : CliOptions where
  wantElevation := options.wantElevation || asksElevation o
  elevationMethod := (commonMethod o).or options.elevationMethod
  wantSystemdTools := options.wantSystemdTools || !asksElevation o

/-- The two do not choose different ways of elevation. -/
def Agrees (o argument : Text) : Prop :=
  commonMethod o = commonMethod argument ∨ commonMethod o = none ∨ commonMethod argument = none

variable {o argument : Text} {options : CliOptions} {method : ElevationMethod}

theorem parseElevationMethod_ok {value : Text} (h : parseElevationMethod value = .ok method) :
    value = "sudo".toList ∧ method = .sudo ∨ value = "run0".toList ∧ method = .run0 := by
  unfold parseElevationMethod at h
  split_ifs at h with hsudo hrun0
  · exact Or.inl ⟨hsudo, (Except.ok.inj h).symm⟩
  · exact Or.inr ⟨hrun0, (Except.ok.inj h).symm⟩

theorem mem_commonOptions : argument ∈ commonOptions ↔
    argument = "--elevate".toList ∨ argument = "-e".toList ∨ argument = "--systemd-tools".toList ∨
      argument = "-s".toList ∨ argument = "--elevate=sudo".toList ∨ argument = "--elevate=run0".toList := by
  simp only [commonOptions, List.map_cons, List.map_nil, List.mem_cons, List.not_mem_nil, or_false]

theorem applyCommon_elevate (h : argument = "--elevate".toList ∨ argument = "-e".toList) (options : CliOptions) :
    applyCommon argument options = { options with wantElevation := true } := by
  rcases h with rfl | rfl <;> simp [applyCommon, commonMethod, asksElevation]

theorem applyCommon_systemdTools (h : argument = "--systemd-tools".toList ∨ argument = "-s".toList)
    (options : CliOptions) : applyCommon argument options = { options with wantSystemdTools := true } := by
  rcases h with rfl | rfl <;> simp [applyCommon, commonMethod, asksElevation]

theorem elevate_sudo : elevatePrefix ++ "sudo".toList = "--elevate=sudo".toList := by decide +kernel

theorem elevate_run0 : elevatePrefix ++ "run0".toList = "--elevate=run0".toList := by decide +kernel

theorem applyCommon_method {value : Text} (h : parseElevationMethod value = .ok method) (options : CliOptions) :
    applyCommon (elevatePrefix ++ value) options =
      { options with elevationMethod := some method, wantElevation := true } := by
  rcases parseElevationMethod_ok h with ⟨rfl, rfl⟩ | ⟨rfl, rfl⟩
  · rw [elevate_sudo]
    simp [applyCommon, commonMethod, asksElevation]
  · rw [elevate_run0]
    simp [applyCommon, commonMethod, asksElevation]

/-- An argument is a common option, whatever the options are, or it is none or a wrong one. -/
theorem parseCommonOption_cases (argument : Text) :
    argument ∈ commonOptions ∧ (∀ options, parseCommonOption options argument = .ok (some (applyCommon argument options))) ∨
      argument ∉ commonOptions ∧ ∃ result : Parsed Unit, ∀ options,
        parseCommonOption options argument = result.map fun _ => none := by
  rw [mem_commonOptions]
  by_cases helevate : argument = "--elevate".toList ∨ argument = "-e".toList
  · refine Or.inl ⟨helevate.elim Or.inl fun h => Or.inr (Or.inl h), fun options => ?_⟩
    rw [parseCommonOption, if_pos helevate, applyCommon_elevate helevate]
  · by_cases hsystemd : argument = "--systemd-tools".toList ∨ argument = "-s".toList
    · refine Or.inl ⟨Or.inr (Or.inr (hsystemd.elim Or.inl fun h => Or.inr (Or.inl h))), fun options => ?_⟩
      rw [parseCommonOption, if_neg helevate, if_pos hsystemd, applyCommon_systemdTools hsystemd]
    · cases hstrip : Text.stripPrefix elevatePrefix argument with
      | none =>
        refine Or.inr ⟨?_, .ok (), fun options => ?_⟩
        · have hsudo : Text.stripPrefix elevatePrefix "--elevate=sudo".toList ≠ none := by
            rw [← elevate_sudo, Text.stripPrefix_append]
            exact Option.some_ne_none _
          have hrun0 : Text.stripPrefix elevatePrefix "--elevate=run0".toList ≠ none := by
            rw [← elevate_run0, Text.stripPrefix_append]
            exact Option.some_ne_none _
          rintro (h | h | h | h | rfl | rfl)
          · exact helevate (Or.inl h)
          · exact helevate (Or.inr h)
          · exact hsystemd (Or.inl h)
          · exact hsystemd (Or.inr h)
          · exact hsudo hstrip
          · exact hrun0 hstrip
        · rw [parseCommonOption, if_neg helevate, if_neg hsystemd, hstrip]
          rfl
      | some value =>
        obtain rfl := Text.stripPrefix_some hstrip
        cases hmethod : parseElevationMethod value with
        | ok method =>
          refine Or.inl ⟨?_, fun options => ?_⟩
          · rcases parseElevationMethod_ok hmethod with ⟨rfl, -⟩ | ⟨rfl, -⟩
            · exact Or.inr (Or.inr (Or.inr (Or.inr (Or.inl elevate_sudo))))
            · exact Or.inr (Or.inr (Or.inr (Or.inr (Or.inr elevate_run0))))
          · rw [parseCommonOption, if_neg helevate, if_neg hsystemd, hstrip, applyCommon_method hmethod]
            dsimp only
            rw [hmethod]
            rfl
        | error error =>
          refine Or.inr ⟨?_, .error error, fun options => ?_⟩
          · rintro (h | h | h | h | h | h)
            · exact helevate (Or.inl h)
            · exact helevate (Or.inr h)
            · exact hsystemd (Or.inl h)
            · exact hsystemd (Or.inr h)
            · rw [List.append_cancel_left (h.trans elevate_sudo.symm)] at hmethod
              cases hmethod
            · rw [List.append_cancel_left (h.trans elevate_run0.symm)] at hmethod
              cases hmethod
          · rw [parseCommonOption, if_neg helevate, if_neg hsystemd, hstrip]
            dsimp only
            rw [hmethod]
            rfl

theorem applyCommon_comm (h : Agrees o argument) (options : CliOptions) :
    applyCommon o (applyCommon argument options) = applyCommon argument (applyCommon o options) := by
  have hmethod : (commonMethod o).or ((commonMethod argument).or options.elevationMethod) =
      (commonMethod argument).or ((commonMethod o).or options.elevationMethod) := by
    rcases h with heq | hnone | hnone
    · rw [heq]
    · rw [hnone, Option.none_or, Option.none_or]
    · rw [hnone, Option.none_or, Option.none_or]
  unfold applyCommon
  rw [hmethod, Bool.or_right_comm, Bool.or_right_comm (x := options.wantSystemdTools)]

/-- A common option does not change what the next argument is. -/
theorem parseCommonOption_applyCommon (h : Agrees o argument) (options : CliOptions) :
    parseCommonOption (applyCommon o options) argument =
      (parseCommonOption options argument).map (Option.map (applyCommon o)) := by
  rcases parseCommonOption_cases argument with ⟨-, hparse⟩ | ⟨-, result, hparse⟩
  · rw [hparse, hparse, ← applyCommon_comm h]
    rfl
  · rw [hparse, hparse]
    cases result <;> rfl

end Common

section Session

variable {mode : ShellIoMode} {o argument : Text} {state : SessionState} {front rest : List Text}

def SessionState.withCommon (state : SessionState) (o : Text) : SessionState :=
  { state with options := applyCommon o state.options }

def Met.withCommon (o : Text) : Met → Met
  | .next state => .next (state.withCommon o)
  | .stop result => .stop result
  | .executable => .executable

theorem positional_withCommon : positional (state.withCommon o) argument = (positional state argument).withCommon o := by
  unfold positional SessionState.withCommon
  cases state.target with
  | some target => rfl
  | none =>
    dsimp only
    cases parseShellTarget argument <;> rfl

theorem sessionX11_withCommon :
    sessionX11 mode (state.withCommon o) argument = (sessionX11 mode state argument).withCommon o := by
  unfold sessionX11
  cases parseX11Option argument with
  | error error => rfl
  | ok selected =>
    cases selected with
    | some selection =>
      show (if state.x11.isSome = true then _ else _) = Met.withCommon o (if state.x11.isSome = true then _ else _)
      split_ifs <;> rfl
    | none =>
      dsimp only
      split_ifs
      · rfl
      · exact positional_withCommon

theorem sessionDisplay_withCommon :
    sessionDisplay mode (state.withCommon o) argument = (sessionDisplay mode state argument).withCommon o := by
  unfold sessionDisplay
  cases parseWaylandOption argument with
  | error error => rfl
  | ok selected =>
    cases selected with
    | some selection =>
      show (if state.wayland.isSome = true then _ else _) = Met.withCommon o (if state.wayland.isSome = true then _ else _)
      split_ifs <;> rfl
    | none => exact sessionX11_withCommon

/-- Every argument does the same whether a common option stood before it or not. -/
theorem sessionArgument_withCommon (h : Agrees o argument) :
    sessionArgument mode (state.withCommon o) argument = (sessionArgument mode state argument).withCommon o := by
  have hfinished : (state.withCommon o).optionsFinished = state.optionsFinished := rfl
  have hcommon : parseCommonOption (state.withCommon o).options argument =
      (parseCommonOption state.options argument).map (Option.map (applyCommon o)) := parseCommonOption_applyCommon h _
  unfold sessionArgument
  rw [hfinished, hcommon]
  split_ifs
  · exact positional_withCommon
  · rfl
  · rfl
  · rfl
  · cases parseCommonOption state.options argument with
    | error error => rfl
    | ok found =>
      cases found with
      | some options => rfl
      | none => exact sessionDisplay_withCommon

/-- A common option, where options are read. -/
theorem sessionArgument_common (ho : o ∈ commonOptions) (h : state.optionsFinished = false) :
    sessionArgument mode state o = .next (state.withCommon o) := by
  have hothers : ∀ o ∈ commonOptions, o ≠ "--".toList ∧ o ≠ "--help".toList ∧ o ≠ "-h".toList ∧ o ≠ "--quiet".toList := by
    simp [commonOptions]
  obtain ⟨hseparator, hhelp, hh, hquiet⟩ := hothers o ho
  rcases parseCommonOption_cases o with ⟨-, hparse⟩ | ⟨hnot, -⟩
  · rw [sessionArgument, if_neg (by simp [h]), if_neg hseparator, if_neg (not_or.mpr ⟨hhelp, hh⟩), if_neg hquiet, hparse]
    rfl
  · exact absurd ho hnot

/-- The arguments are read without coming to the executable or to the separator. -/
def HostOnly (mode : ShellIoMode) : SessionState → List Text → Prop
  | _, [] => True
  | state, argument :: rest => match sessionArgument mode state argument with
    | .next next => next.optionsFinished = false ∧ HostOnly mode next rest
    | .stop _ => True
    | .executable => False

/-- A common option may stand before such arguments or after them. -/
theorem sessionLoop_move (ho : o ∈ commonOptions) (hfinished : state.optionsFinished = false)
    (hfront : HostOnly mode state front) (hagrees : ∀ argument ∈ front, Agrees o argument) :
    sessionLoop mode state (front ++ o :: rest) = sessionLoop mode state (o :: (front ++ rest)) := by
  have hfirst : ∀ args, sessionLoop mode state (o :: args) = sessionLoop mode (state.withCommon o) args := by
    intro args
    rw [sessionLoop, sessionArgument_common ho hfinished]
  induction front generalizing state with
  | nil => rfl
  | cons argument front ih =>
    rw [hfirst, List.cons_append, List.cons_append, sessionLoop, sessionLoop,
      sessionArgument_withCommon (hagrees argument List.mem_cons_self)]
    unfold HostOnly at hfront
    cases hmet : sessionArgument mode state argument with
    | next next =>
      rw [hmet] at hfront
      have hnext : ∀ args, sessionLoop mode next (o :: args) = sessionLoop mode (next.withCommon o) args := by
        intro args
        rw [sessionLoop, sessionArgument_common ho hfront.1]
      have htail := ih hfront.1 hfront.2 (fun other hother => hagrees other (List.mem_cons_of_mem _ hother)) hnext
      exact htail.trans (hnext _)
    | stop result => rfl
    | executable =>
      rw [hmet] at hfront
      exact hfront.elim

/-- An argument that is not taken for the target, and does not end the options. -/
def IsOption (argument : Text) : Prop := argument.head? = some '-' ∧ argument ≠ "--".toList

/-- The scan goes on with this target, or the invocation is decided. -/
def Met.Stays (target : Option ShellTarget) : Met → Prop
  | .next after => after.optionsFinished = false ∧ after.target = target
  | .stop _ => True
  | .executable => False

/-- An option leaves the target alone; what is none is taken by its position. -/
def Read (state : SessionState) (argument : Text) (met : Met) : Prop :=
  met.Stays state.target ∨ argument.head? ≠ some '-' ∧ met = positional state argument

theorem read_sessionX11 (hfinished : state.optionsFinished = false) :
    Read state argument (sessionX11 mode state argument) := by
  unfold sessionX11
  cases parseX11Option argument with
  | error error => exact Or.inl trivial
  | ok selected =>
    cases selected with
    | some selection =>
      dsimp only
      split_ifs
      · exact Or.inl trivial
      · exact Or.inl ⟨hfinished, rfl⟩
    | none =>
      dsimp only
      split_ifs with hdash
      · exact Or.inl trivial
      · exact Or.inr ⟨hdash, rfl⟩

theorem read_sessionDisplay (hfinished : state.optionsFinished = false) :
    Read state argument (sessionDisplay mode state argument) := by
  unfold sessionDisplay
  cases parseWaylandOption argument with
  | error error => exact Or.inl trivial
  | ok selected =>
    cases selected with
    | some selection =>
      dsimp only
      split_ifs
      · exact Or.inl trivial
      · exact Or.inl ⟨hfinished, rfl⟩
    | none => exact read_sessionX11 hfinished

theorem read_sessionArgument (h : argument ≠ "--".toList) (hfinished : state.optionsFinished = false) :
    Read state argument (sessionArgument mode state argument) := by
  unfold sessionArgument
  rw [if_neg (by simp [hfinished]), if_neg h]
  split_ifs
  · exact Or.inl trivial
  · exact Or.inl ⟨hfinished, rfl⟩
  · cases parseCommonOption state.options argument with
    | error error => exact Or.inl trivial
    | ok found =>
      cases found with
      | some options => exact Or.inl ⟨hfinished, rfl⟩
      | none => exact read_sessionDisplay hfinished

theorem sessionArgument_stays (h : IsOption argument) (hfinished : state.optionsFinished = false) :
    (sessionArgument mode state argument).Stays state.target := by
  rcases @read_sessionArgument mode argument state h.2 hfinished with hstays | ⟨hdash, -⟩
  · exact hstays
  · exact absurd h.1 hdash

/-- While there is no target, no argument is the executable. -/
theorem sessionArgument_target (h : argument ≠ "--".toList) (hfinished : state.optionsFinished = false)
    (htarget : state.target = none) : ∃ target, (sessionArgument mode state argument).Stays target := by
  rcases @read_sessionArgument mode argument state h hfinished with hstays | ⟨-, hposition⟩
  · exact ⟨_, hstays⟩
  · rw [hposition, positional, htarget]
    dsimp only
    cases parseShellTarget argument with
    | error error => exact ⟨none, trivial⟩
    | ok target => exact ⟨some target, hfinished, rfl⟩

theorem hostOnly_options (h : ∀ argument ∈ front, IsOption argument) (hfinished : state.optionsFinished = false) :
    HostOnly mode state front := by
  induction front generalizing state with
  | nil => trivial
  | cons argument front ih =>
    have hstays := @sessionArgument_stays mode argument state (h argument List.mem_cons_self) hfinished
    unfold HostOnly
    cases hmet : sessionArgument mode state argument with
    | next next =>
      rw [hmet] at hstays
      exact ⟨hstays.1, ih (fun other hother => h other (List.mem_cons_of_mem _ hother)) hstays.1⟩
    | stop result => trivial
    | executable =>
      rw [hmet] at hstays
      exact hstays

variable {target : Text} {back : List Text}

theorem hostOnly_target (hfront : ∀ argument ∈ front, IsOption argument) (htarget : target ≠ "--".toList)
    (hback : ∀ argument ∈ back, IsOption argument) (hfinished : state.optionsFinished = false)
    (hnone : state.target = none) : HostOnly mode state (front ++ target :: back) := by
  induction front generalizing state with
  | nil =>
    obtain ⟨found, hstays⟩ := @sessionArgument_target mode target state htarget hfinished hnone
    rw [List.nil_append, HostOnly]
    cases hmet : sessionArgument mode state target with
    | next next =>
      rw [hmet] at hstays
      exact ⟨hstays.1, hostOnly_options hback hstays.1⟩
    | stop result => trivial
    | executable =>
      rw [hmet] at hstays
      exact hstays
  | cons argument front ih =>
    have hstays := @sessionArgument_stays mode argument state (hfront argument List.mem_cons_self) hfinished
    rw [List.cons_append, HostOnly]
    cases hmet : sessionArgument mode state argument with
    | next next =>
      rw [hmet] at hstays
      exact ⟨hstays.1, ih (fun other hother => hfront other (List.mem_cons_of_mem _ hother)) hstays.1
        (hstays.2.trans hnone)⟩
    | stop result => trivial
    | executable =>
      rw [hmet] at hstays
      exact hstays

end Session

section Guest

variable {mode : ShellIoMode} {program : Text} {state after : SessionState} {front rest args : List Text}

/-- The scan after these arguments, if it still goes on. -/
def advance (mode : ShellIoMode) : SessionState → List Text → Option SessionState
  | state, [] => some state
  | state, argument :: rest => match sessionArgument mode state argument with
    | .next state => advance mode state rest
    | _ => none

theorem sessionLoop_advance (h : advance mode state front = some after) :
    sessionLoop mode state (front ++ rest) = sessionLoop mode after rest := by
  induction front generalizing state with
  | nil =>
    cases h
    rfl
  | cons argument front ih =>
    rw [advance] at h
    rw [List.cons_append, sessionLoop]
    cases hmet : sessionArgument mode state argument with
    | next next =>
      rw [hmet] at h
      exact ih h
    | stop result =>
      rw [hmet] at h
      cases h
    | executable =>
      rw [hmet] at h
      cases h

/-- The executable is met after the first of these arguments. -/
def MeetsExecutable (mode : ShellIoMode) (options : CliOptions) (front : List Text) (program : Text)
    (after : SessionState) : Prop :=
  advance mode { options := options } front = some after ∧ sessionArgument mode after program = .executable

theorem parseSession_executable {options : CliOptions} (h : MeetsExecutable mode options front program after)
    (rest : List Text) : parseSession mode (front ++ program :: rest) options = startGuest mode after program rest := by
  rw [parseSession, sessionLoop_advance h.1, sessionLoop, h.2]

theorem guestCommand_new {command : GuestCommand} (h : GuestCommand.new program rest = .ok command) :
    command = ⟨program, rest⟩ := by
  unfold GuestCommand.new at h
  obtain ⟨_, _, h⟩ := bind_ok h
  obtain ⟨_, _, h⟩ := bind_ok h
  obtain ⟨_, _, h⟩ := bind_ok h
  obtain ⟨_, _, h⟩ := bind_ok h
  obtain ⟨_, _, h⟩ := bind_ok h
  exact (Except.ok.inj h).symm

theorem finishSession_command {command : Option GuestCommand} {shell : ShellCommand}
    (h : finishSession mode state command = .ok (.run (.shell shell))) : shell.command = command := by
  unfold finishSession at h
  cases htarget : state.target with
  | none =>
    rw [htarget] at h
    cases h
  | some target =>
    rw [htarget] at h
    dsimp only at h
    split_ifs at h
    cases h
    rfl

/-- No argument decides on a session before the end or the executable. -/
theorem sessionArgument_stop {argument : Text} {result : Parsed Invocation}
    (h : sessionArgument mode state argument = .stop result) (shell : ShellCommand) :
    result ≠ .ok (.run (.shell shell)) := by
  have hposition : ∀ {result}, positional state argument = .stop result → result ≠ .ok (.run (.shell shell)) := by
    intro result h
    unfold positional at h
    cases htarget : state.target with
    | some target =>
      rw [htarget] at h
      cases h
    | none =>
      rw [htarget] at h
      dsimp only at h
      cases hparse : parseShellTarget argument with
      | error error =>
        rw [hparse] at h
        cases h
        exact nofun
      | ok target =>
        rw [hparse] at h
        cases h
  have hx11 : sessionX11 mode state argument = .stop result → result ≠ .ok (.run (.shell shell)) := by
    intro h
    unfold sessionX11 at h
    split at h
    · cases h
      exact nofun
    · split_ifs at h
      cases h
      exact nofun
    · split_ifs at h
      · cases h
        exact nofun
      · exact hposition h
  have hdisplay : sessionDisplay mode state argument = .stop result → result ≠ .ok (.run (.shell shell)) := by
    intro h
    unfold sessionDisplay at h
    split at h
    · cases h
      exact nofun
    · split_ifs at h
      cases h
      exact nofun
    · exact hx11 h
  unfold sessionArgument at h
  split_ifs at h
  · exact hposition h
  · cases h
    exact nofun
  · split at h
    · cases h
      exact nofun
    · cases h
    · exact hdisplay h

/-- A session has a command only if the executable was met, and then it is what was left. -/
theorem sessionLoop_command {shell : ShellCommand} {command : GuestCommand}
    (h : sessionLoop mode state args = .ok (.run (.shell shell))) (hcommand : shell.command = some command) :
    ∃ front after, args = front ++ command.program :: command.args ∧ advance mode state front = some after ∧
      sessionArgument mode after command.program = .executable := by
  induction args generalizing state with
  | nil =>
    rw [finishSession_command h] at hcommand
    cases hcommand
  | cons argument args ih =>
    rw [sessionLoop] at h
    cases hmet : sessionArgument mode state argument with
    | next next =>
      rw [hmet] at h
      obtain ⟨front, after, hargs, hadvance, hexecutable⟩ := ih h
      refine ⟨argument :: front, after, by rw [hargs, List.cons_append], ?_, hexecutable⟩
      rw [advance, hmet]
      exact hadvance
    | stop result =>
      rw [hmet] at h
      exact absurd h (sessionArgument_stop hmet shell)
    | executable =>
      rw [hmet] at h
      unfold startGuest at h
      cases hguest : GuestCommand.new argument args with
      | error error =>
        rw [hguest] at h
        cases h
      | ok found =>
        rw [hguest] at h
        have hfound := finishSession_command h
        rw [hcommand] at hfound
        cases hfound
        rw [guestCommand_new hguest]
        exact ⟨[], state, rfl, rfl, hmet⟩

end Guest

section Separator

variable {mode : ShellIoMode} {state after : SessionState} {front rest : List Text}

/-- The arguments after a separator: the target, if there is none yet, the executable and its
arguments. -/
def positionals (mode : ShellIoMode) (state : SessionState) : List Text → Parsed Invocation
  | [] => finishSession mode state none
  | word :: words => match state.target with
    | some _ => startGuest mode state word words
    | none => match parseShellTarget word with
      | .error error => .error error
      | .ok target => match words with
        | [] => finishSession mode { state with target := some target } none
        | program :: args => startGuest mode { state with target := some target } program args

theorem sessionLoop_finished :
    sessionLoop mode { state with optionsFinished := true } rest = positionals mode state rest := by
  cases rest with
  | nil => rfl
  | cons word words =>
    have hword : sessionArgument mode { state with optionsFinished := true } word =
        positional { state with optionsFinished := true } word := if_pos rfl
    rw [sessionLoop, hword, positionals, positional]
    obtain ⟨options, target, wayland, x11, quiet, optionsFinished⟩ := state
    cases target with
    | some target => rfl
    | none =>
      dsimp only
      cases parseShellTarget word with
      | error error => rfl
      | ok target =>
        dsimp only
        cases words with
        | nil => rfl
        | cons program args => rfl

theorem parseSession_separator {options : CliOptions} (h : advance mode { options := options } front = some after)
    (hfinished : after.optionsFinished = false) :
    parseSession mode (front ++ "--".toList :: rest) options = positionals mode after rest := by
  have hseparator : sessionArgument mode after "--".toList = .next { after with optionsFinished := true } := by
    rw [sessionArgument, if_neg (by simp [hfinished]), if_pos rfl]
  rw [parseSession, sessionLoop_advance h, sessionLoop, hseparator]
  exact sessionLoop_finished

end Separator

section Placement

variable {o : Text} {options : CliOptions} {mode : ShellIoMode} {front rest other pre mid post : List Text}
  {target : Text}

/-- No command, separator or internal entry. -/
def IsPlain (argument : Text) : Prop :=
  argument ∉ ["--", "--daemon", "--internal-x11-reconcile", "shell", "launch"].map String.toList

theorem isPlain_iff {argument : Text} : IsPlain argument ↔ argument ≠ "--".toList ∧ argument ≠ "--daemon".toList ∧
    argument ≠ "--internal-x11-reconcile".toList ∧ argument ≠ "shell".toList ∧ argument ≠ "launch".toList := by
  unfold IsPlain
  simp only [List.map_cons, List.map_nil, List.mem_cons, List.not_mem_nil, or_false, not_or, ne_eq]

theorem parseFrom_common (ho : o ∈ commonOptions) :
    parseFrom options false (o :: rest) = parseFrom (applyCommon o options) false rest := by
  have hothers : ∀ o ∈ commonOptions, ¬ (o = "--help".toList ∨ o = "-h".toList) ∧
      ¬ (o = "--version".toList ∨ o = "-v".toList) ∧ o ≠ "--".toList ∧ o ≠ "--daemon".toList ∧
      o ≠ "--internal-x11-reconcile".toList := by simp [commonOptions]
  obtain ⟨hhelp, hversion, hseparator, hdaemon, hreconcile⟩ := hothers o ho
  rcases parseCommonOption_cases o with ⟨-, hparse⟩ | ⟨hnot, -⟩
  · rw [parseFrom, if_neg (by simp), if_neg hhelp, if_neg hversion, if_neg hseparator, if_neg hdaemon,
      if_neg hreconcile, hparse]
  · exact absurd ho hnot

/-- A plain argument is a common option, or decides the invocation alone. -/
theorem parseFrom_plain {argument : Text} (h : IsPlain argument) :
    argument ∈ commonOptions ∨ ∃ result, ∀ options rest, parseFrom options false (argument :: rest) = result := by
  obtain ⟨hseparator, hdaemon, hreconcile, hshell, hlaunch⟩ := isPlain_iff.mp h
  by_cases hhelp : argument = "--help".toList ∨ argument = "-h".toList
  · exact Or.inr ⟨_, fun options rest => by rw [parseFrom, if_neg (by simp), if_pos hhelp]⟩
  · by_cases hversion : argument = "--version".toList ∨ argument = "-v".toList
    · exact Or.inr ⟨_, fun options rest => by rw [parseFrom, if_neg (by simp), if_neg hhelp, if_pos hversion]⟩
    · rcases parseCommonOption_cases argument with ⟨hcommon, -⟩ | ⟨-, result, hparse⟩
      · exact Or.inl hcommon
      · right
        refine ⟨match result with
          | .error error => .error error
          | .ok () => .error s!"unknown command or option: {String.ofList argument}", fun options rest => ?_⟩
        rw [parseFrom, if_neg (by simp), if_neg hhelp, if_neg hversion, if_neg hseparator, if_neg hdaemon,
          if_neg hreconcile, hparse]
        cases result with
        | error error => rfl
        | ok found =>
          show parseVerb options argument rest = _
          rw [parseVerb, if_neg hshell, if_neg hlaunch]

theorem parseFrom_congr (hfront : ∀ argument ∈ front, IsPlain argument)
    (h : ∀ options, parseFrom options false rest = parseFrom options false other) :
    parseFrom options false (front ++ rest) = parseFrom options false (front ++ other) := by
  induction front generalizing options with
  | nil => exact h options
  | cons argument front ih =>
    rw [List.cons_append, List.cons_append]
    rcases parseFrom_plain (hfront argument List.mem_cons_self) with hcommon | ⟨result, hresult⟩
    · rw [parseFrom_common hcommon, parseFrom_common hcommon]
      exact ih fun another hanother => hfront another (List.mem_cons_of_mem _ hanother)
    · rw [hresult, hresult]

/-- A common option may stand before plain arguments or after them. -/
theorem parseFrom_move (ho : o ∈ commonOptions) (hfront : ∀ argument ∈ front, IsPlain argument)
    (hagrees : ∀ argument ∈ front, Agrees o argument) :
    parseFrom options false (front ++ o :: rest) = parseFrom options false (o :: (front ++ rest)) := by
  induction front generalizing options with
  | nil => rfl
  | cons argument front ih =>
    have hmove := @ih (applyCommon argument options)
      (fun another hanother => hfront another (List.mem_cons_of_mem _ hanother))
      (fun another hanother => hagrees another (List.mem_cons_of_mem _ hanother))
    rw [parseFrom_common ho] at hmove ⊢
    rw [List.cons_append, List.cons_append]
    rcases parseFrom_plain (hfront argument List.mem_cons_self) with hcommon | ⟨result, hresult⟩
    · rw [parseFrom_common hcommon, parseFrom_common hcommon, hmove,
        applyCommon_comm (hagrees argument List.mem_cons_self)]
    · rw [hresult, hresult]

theorem parseFrom_command (args : List Text) :
    parseFrom options false (mode.commandName.toList :: args) = parseSession mode args options := by
  have hclosed : ∀ mode : ShellIoMode, ¬ (mode.commandName.toList = "--help".toList ∨ mode.commandName.toList = "-h".toList) ∧
      ¬ (mode.commandName.toList = "--version".toList ∨ mode.commandName.toList = "-v".toList) ∧
      mode.commandName.toList ≠ "--".toList ∧ mode.commandName.toList ≠ "--daemon".toList ∧
      mode.commandName.toList ≠ "--internal-x11-reconcile".toList ∧
      ¬ (mode.commandName.toList = "--elevate".toList ∨ mode.commandName.toList = "-e".toList) ∧
      ¬ (mode.commandName.toList = "--systemd-tools".toList ∨ mode.commandName.toList = "-s".toList) := by
    intro mode
    cases mode <;> simp [ShellIoMode.commandName]
  have hstrip : Text.stripPrefix elevatePrefix mode.commandName.toList = none := by
    cases mode <;> decide
  obtain ⟨hhelp, hversion, hseparator, hdaemon, hreconcile, helevate, hsystemd⟩ := hclosed mode
  rw [parseFrom, if_neg (by simp), if_neg hhelp, if_neg hversion, if_neg hseparator, if_neg hdaemon,
    if_neg hreconcile, parseCommonOption, if_neg helevate, if_neg hsystemd, hstrip]
  show parseVerb options mode.commandName.toList args = _
  cases mode with
  | interactive => exact if_pos rfl
  | launcher =>
    have hother : "launch".toList ≠ "shell".toList := by simp
    exact (if_neg hother).trans (if_pos rfl)

/-- A common option may stand before the command or after it. -/
theorem parseFrom_cross (ho : o ∈ commonOptions) :
    parseFrom options false (mode.commandName.toList :: o :: rest) =
      parseFrom options false (o :: mode.commandName.toList :: rest) := by
  rw [parseFrom_command, parseFrom_common ho, parseFrom_command, parseSession, sessionLoop,
    sessionArgument_common ho rfl]
  rfl

theorem agrees_of_noDash (h : target.head? ≠ some '-') : Agrees o target := by
  have hmethod : commonMethod target = none := by
    unfold commonMethod
    split_ifs with hsudo hrun0
    · rw [hsudo] at h
      exact absurd rfl h
    · rw [hrun0] at h
      exact absurd rfl h
    · rfl
  exact Or.inr (Or.inr hmethod)

/-- The arguments of a session, with what stands around the command and the target. -/
def sessionArgs (mode : ShellIoMode) (pre mid : List Text) (target : Text) (post rest : List Text) : List Text :=
  pre ++ mode.commandName.toList :: (mid ++ target :: (post ++ rest))

/-- Options around the command and the target, and a common option that agrees with them. -/
structure Surrounds (o : Text) (pre mid : List Text) (target : Text) (post : List Text) : Prop where
  common : o ∈ commonOptions
  before : ∀ argument ∈ pre, IsPlain argument
  between : ∀ argument ∈ mid, IsOption argument
  behind : ∀ argument ∈ post, IsOption argument
  noDash : target.head? ≠ some '-'
  agrees : ∀ argument ∈ pre ++ mid ++ post, Agrees o argument

/-- One argument more at any place of a list. -/
def InsertedIn (o : Text) (args longer : List Text) : Prop := ∃ a b, args = a ++ b ∧ longer = a ++ o :: b

theorem parse_before (h : Surrounds o pre mid target post) {longer : List Text} (hlonger : InsertedIn o pre longer) :
    parse (sessionArgs mode longer mid target post rest) = parse (o :: sessionArgs mode pre mid target post rest) := by
  obtain ⟨a, b, rfl, rfl⟩ := hlonger
  unfold parse sessionArgs
  rw [List.append_assoc, List.cons_append, List.append_assoc]
  apply parseFrom_move h.common
  · exact fun argument hmem => h.before argument (by simp [hmem])
  · exact fun argument hmem => h.agrees argument (by simp [hmem])

theorem parse_after {args : List Text} (h : Surrounds o pre mid target post)
    (hargs : ∀ options : CliOptions,
      parseSession mode args options = parseSession mode (o :: (mid ++ target :: (post ++ rest))) options) :
    parse (pre ++ mode.commandName.toList :: args) = parse (o :: sessionArgs mode pre mid target post rest) := by
  have hinside : ∀ options, parseFrom options false (mode.commandName.toList :: args) =
      parseFrom options false (o :: mode.commandName.toList :: (mid ++ target :: (post ++ rest))) := by
    intro options
    rw [parseFrom_command, hargs, ← parseFrom_command, parseFrom_cross h.common]
  unfold parse sessionArgs
  rw [parseFrom_congr h.before hinside]
  exact parseFrom_move h.common h.before fun argument hmem => h.agrees argument (by simp [hmem])

theorem parse_between (h : Surrounds o pre mid target post) {longer : List Text} (hlonger : InsertedIn o mid longer) :
    parse (sessionArgs mode pre longer target post rest) = parse (o :: sessionArgs mode pre mid target post rest) := by
  obtain ⟨a, b, rfl, rfl⟩ := hlonger
  apply parse_after h
  intro options
  rw [List.append_assoc, List.cons_append, List.append_assoc]
  apply sessionLoop_move h.common rfl
  · exact hostOnly_options (fun argument hmem => h.between argument (by simp [hmem])) rfl
  · exact fun argument hmem => h.agrees argument (by simp [hmem])

theorem parse_behind (h : Surrounds o pre mid target post) {longer : List Text} (hlonger : InsertedIn o post longer) :
    parse (sessionArgs mode pre mid target longer rest) = parse (o :: sessionArgs mode pre mid target post rest) := by
  obtain ⟨a, b, rfl, rfl⟩ := hlonger
  have hseparator : target ≠ "--".toList := by
    rintro rfl
    exact h.noDash (by decide)
  apply parse_after h
  intro options
  have hsplit : ∀ back : List Text, mid ++ target :: (a ++ back) = (mid ++ target :: a) ++ back := by simp
  rw [List.append_assoc, List.cons_append, List.append_assoc, hsplit, hsplit]
  apply sessionLoop_move h.common rfl
  · exact hostOnly_target h.between hseparator (fun argument hmem => h.behind argument (by simp [hmem])) rfl rfl
  · intro argument hmem
    rcases List.mem_append.mp hmem with hmem | hmem
    · exact h.agrees argument (by simp [hmem])
    · rcases List.mem_cons.mp hmem with rfl | hmem
      · exact agrees_of_noDash h.noDash
      · exact h.agrees argument (by simp [hmem])

theorem parse_separator (hpre : ∀ argument ∈ pre, argument ∈ commonOptions) :
    parse (pre ++ "--".toList :: rest) =
      match rest with
      | [] => .ok (.run (.application (pre.foldl (fun options o => applyCommon o options) {})))
      | verb :: args => parseVerb (pre.foldl (fun options o => applyCommon o options) {}) verb args := by
  have hall : ∀ options, parseFrom options false (pre ++ "--".toList :: rest) =
      parseFrom (pre.foldl (fun options o => applyCommon o options) options) true rest := by
    induction pre with
    | nil =>
      intro options
      have hclosed : ¬ ("--".toList = "--help".toList ∨ "--".toList = "-h".toList) ∧
          ¬ ("--".toList = "--version".toList ∨ "--".toList = "-v".toList) := by simp
      rw [List.nil_append, parseFrom, if_neg (by simp), if_neg hclosed.1, if_neg hclosed.2, if_pos rfl]
      rfl
    | cons o pre ih =>
      intro options
      rw [List.cons_append, parseFrom_common (hpre o List.mem_cons_self), List.foldl_cons]
      exact ih (fun argument hmem => hpre argument (List.mem_cons_of_mem _ hmem)) _
  rw [parse, hall]
  cases rest with
  | nil => rfl
  | cons verb args => exact if_pos rfl

/-- From the executable on, the arguments are the guest's, and only its command is checked
for them. A common option means the same wherever it stands around the command and the
target. After a separator the session has no option, and neither has the application. -/
theorem parse_placement (mode : ShellIoMode) :
    (∀ options front program after, MeetsExecutable mode options front program after → ∀ rest,
      parseSession mode (front ++ program :: rest) options = startGuest mode after program rest ∧
      ∀ command, GuestCommand.new program rest = .ok command → command = ⟨program, rest⟩) ∧
    (∀ options args shell command, parseSession mode args options = .ok (.run (.shell shell)) →
      shell.command = some command → ∃ front after, args = front ++ command.program :: command.args ∧
        MeetsExecutable mode options front command.program after) ∧
    (∀ o pre mid target post rest, Surrounds o pre mid target post →
      (∀ longer, InsertedIn o pre longer → parse (sessionArgs mode longer mid target post rest) =
        parse (o :: sessionArgs mode pre mid target post rest)) ∧
      (∀ longer, InsertedIn o mid longer → parse (sessionArgs mode pre longer target post rest) =
        parse (o :: sessionArgs mode pre mid target post rest)) ∧
      (∀ longer, InsertedIn o post longer → parse (sessionArgs mode pre mid target longer rest) =
        parse (o :: sessionArgs mode pre mid target post rest))) ∧
    (∀ options front after rest, advance mode { options := options } front = some after →
      after.optionsFinished = false →
      parseSession mode (front ++ "--".toList :: rest) options = positionals mode after rest) ∧
    (∀ pre verb args, (∀ argument ∈ pre, argument ∈ commonOptions) →
      parse (pre ++ "--".toList :: verb :: args) =
        parseVerb (pre.foldl (fun options o => applyCommon o options) {}) verb args) := by
  refine ⟨?_, ?_, ?_, ?_, ?_⟩
  · exact fun options front program after h rest => ⟨parseSession_executable h rest, fun command => guestCommand_new⟩
  · exact fun options args shell command h hcommand => sessionLoop_command h hcommand
  · exact fun o pre mid target post rest h => ⟨fun longer => parse_before h, fun longer => parse_between h,
      fun longer => parse_behind h⟩
  · exact fun options front after rest h hfinished => parseSession_separator h hfinished
  · exact fun pre verb args hpre => parse_separator hpre

def words (texts : List String) : List Text := texts.map String.toList

/-- The option for other tools, behind the target and before the command, and a guest that
gets an option of its own. -/
theorem parse_placement_echo :
    parse (sessionArgs .interactive [] [] "alice@demo".toList (words ["-s"]) (words ["/bin/echo", "--quiet"])) =
      parse ("-s".toList :: sessionArgs .interactive [] [] "alice@demo".toList [] (words ["/bin/echo", "--quiet"])) := by
  have hsurrounds : Surrounds "-s".toList [] [] "alice@demo".toList [] :=
    ⟨by decide +kernel, nofun, nofun, nofun, by decide +kernel, nofun⟩
  obtain ⟨-, -, hplaced, -, -⟩ := parse_placement .interactive
  exact (hplaced _ _ _ _ _ (words ["/bin/echo", "--quiet"]) hsurrounds).2.2 (words ["-s"]) ⟨[], [], rfl, rfl⟩

def isQuiet : Parsed Invocation → Bool
  | .ok (.run (.shell shell)) => shell.quiet
  | _ => false

def elevation : Parsed Invocation → Option ElevationMethod
  | .ok (.run (.shell shell)) => shell.options.elevationMethod
  | _ => none

/-- Behind a separator that stands before the command an option is still read, and of two
ways of elevation the last one counts, so neither may pass the other. -/
theorem separator_before_command :
    isQuiet (parse (words ["--", "shell", "--quiet", "alice@demo"])) = true ∧
      elevation (parse (words ["--elevate=sudo", "shell", "--elevate=run0", "alice@demo"])) = some .run0 ∧
      elevation (parse (words ["shell", "--elevate=run0", "alice@demo", "--elevate=sudo"])) = some .sudo := by
  decide +kernel

end Placement

end Lasper.Cli
