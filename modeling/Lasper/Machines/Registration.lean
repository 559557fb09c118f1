import Lasper.Lib.Numbers
import Lasper.Lib.Table
import Lasper.Machines.Runtime
import Lasper.Sessions.Identity

/-! The files in which machined registers its machines, as they are read without asking
machined. Each holds assignments whose values may be quoted. What is read of a machine is put
together from several looks at a host that others change meanwhile. -/

namespace Lasper.Machines

def MachineClass.parse : String → MachineClass
  | "container" => .container
  | "vm" => .vm
  | "host" => .host
  | value => .unknown value

def MachineProvider.parse : String → MachineProvider
  | "systemd-nspawn" => .nspawn
  | "systemd-vmspawn" => .vmspawn
  | value => .unknown value

end Lasper.Machines

namespace Lasper.Machines.Registration

open Lib
open Provisioning (MachineName)
open Sessions (ObservedMachineInstance ObservedNamespaceIdentity)

inductive ErrorKind
  | notFound
  | permissionDenied
  | invalidData
  | other
  deriving DecidableEq

structure IoError where
  kind : ErrorKind
  message : String
  deriving DecidableEq

def invalidData (message : String) : IoError := ⟨.invalidData, message⟩

/-! ## Values -/

section Value

def unescape : Char → Char
  | 'n' => '\n'
  | 'r' => '\r'
  | 't' => '\t'
  | other => other

/-- The loop of `decode_env_value`, inside the quote that is open. -/
def decodeFrom : Option Char → Text → Except IoError Text
  | none, [] => .ok []
  | some _, [] => .error (invalidData "unterminated quote in runtime state")
  | some delimiter, ch :: rest =>
    if ch = delimiter then decodeFrom none rest
    else if delimiter = '"' ∧ ch = '\\' then
      match rest with
      | [] => .error (invalidData "trailing escape in quoted value")
      | escaped :: rest => (decodeFrom (some delimiter) rest).map (unescape escaped :: ·)
    else (decodeFrom (some delimiter) rest).map (ch :: ·)
  | none, ch :: rest =>
    if ch = '\'' ∨ ch = '"' then decodeFrom (some ch) rest
    else if ch = '\\' then
      match rest with
      | [] => .error (invalidData "trailing escape in value")
      | escaped :: rest => (decodeFrom none rest).map (escaped :: ·)
    else (decodeFrom none rest).map (ch :: ·)

def decodeEnvValue (value : Text) : Except IoError Text := decodeFrom none value

/-- A character between double quotes, as it is written. -/
inductive Quoted
  | plain (c : Char) (ordinary : c ≠ '"' ∧ c ≠ '\\')
  | escaped (c : Char)

def Quoted.spelled : Quoted → Text
  | .plain c _ => [c]
  | .escaped c => ['\\', c]

def Quoted.value : Quoted → Char
  | .plain c _ => c
  | .escaped c => unescape c

/-- A part of a value, as it is written. -/
inductive Part
  | bare (c : Char) (ordinary : c ≠ '\'' ∧ c ≠ '"' ∧ c ≠ '\\')
  | escaped (c : Char)
  | single (body : Text) (closed : '\'' ∉ body)
  | double (body : List Quoted)

def Part.spelled : Part → Text
  | .bare c _ => [c]
  | .escaped c => ['\\', c]
  | .single body _ => '\'' :: body ++ ['\'']
  | .double body => '"' :: body.flatMap Quoted.spelled ++ ['"']

def Part.value : Part → Text
  | .bare c _ => [c]
  | .escaped c => [c]
  | .single body _ => body
  | .double body => body.map Quoted.value

theorem decode_quoted (delimiter ch : Char) (rest : Text) :
    decodeFrom (some delimiter) (ch :: rest) =
      if ch = delimiter then decodeFrom none rest
      else if delimiter = '"' ∧ ch = '\\' then
        match rest with
        | [] => .error (invalidData "trailing escape in quoted value")
        | escaped :: rest => (decodeFrom (some delimiter) rest).map (unescape escaped :: ·)
      else (decodeFrom (some delimiter) rest).map (ch :: ·) := by
  rw [decodeFrom.eq_def]
  rfl

theorem decode_bare (ch : Char) (rest : Text) :
    decodeFrom none (ch :: rest) =
      if ch = '\'' ∨ ch = '"' then decodeFrom (some ch) rest
      else if ch = '\\' then
        match rest with
        | [] => .error (invalidData "trailing escape in value")
        | escaped :: rest => (decodeFrom none rest).map (escaped :: ·)
      else (decodeFrom none rest).map (ch :: ·) := by
  rw [decodeFrom.eq_def]
  rfl

/-- Nothing is put before what follows. -/
theorem map_nil_append (result : Except IoError Text) : result.map ([] ++ ·) = result := by
  cases result <;> rfl

theorem decode_single {body : Text} (closed : '\'' ∉ body) (rest : Text) :
    decodeFrom (some '\'') (body ++ '\'' :: rest) = (decodeFrom none rest).map (body ++ ·) := by
  induction body with
  | nil => rw [List.nil_append, decode_quoted, if_pos rfl, map_nil_append]
  | cons c body ih =>
    obtain ⟨hc, hbody⟩ := not_or.mp (mt List.mem_cons.mpr closed)
    rw [List.cons_append, decode_quoted, if_neg (Ne.symm hc), if_neg (by simp), ih hbody]
    cases decodeFrom none rest <;> rfl

theorem decode_double (body : List Quoted) (rest : Text) :
    decodeFrom (some '"') (body.flatMap Quoted.spelled ++ '"' :: rest) =
      (decodeFrom none rest).map (body.map Quoted.value ++ ·) := by
  induction body with
  | nil => rw [List.flatMap_nil, List.nil_append, decode_quoted, if_pos rfl, List.map_nil, map_nil_append]
  | cons item body ih =>
    cases item with
    | plain c ordinary =>
      rw [List.flatMap_cons, Quoted.spelled, List.append_assoc, List.singleton_append, decode_quoted,
        if_neg ordinary.1, if_neg (by simp [ordinary.2]), ih]
      cases decodeFrom none rest <;> rfl
    | escaped c =>
      rw [List.flatMap_cons, Quoted.spelled, List.append_assoc, List.cons_append, List.singleton_append,
        decode_quoted, if_neg (by decide), if_pos (by simp)]
      simp only [ih]
      cases decodeFrom none rest <;> rfl

theorem decode_part (part : Part) (rest : Text) :
    decodeFrom none (part.spelled ++ rest) = (decodeFrom none rest).map (part.value ++ ·) := by
  cases part with
  | bare c ordinary =>
    rw [Part.spelled, List.singleton_append, decode_bare, if_neg (by simp [ordinary.1, ordinary.2.1]),
      if_neg ordinary.2.2]
    rfl
  | escaped c =>
    rw [Part.spelled, List.cons_append, List.singleton_append, decode_bare, if_neg (by decide), if_pos rfl]
    rfl
  | single body closed =>
    rw [Part.spelled, List.cons_append, List.cons_append, List.append_assoc, decode_bare, if_pos (by simp)]
    exact decode_single closed rest
  | double body =>
    rw [Part.spelled, List.cons_append, List.cons_append, List.append_assoc, decode_bare, if_pos (by simp)]
    exact decode_double body rest

theorem decode_parts (parts : List Part) :
    decodeFrom none (parts.flatMap Part.spelled) = .ok (parts.flatMap Part.value) := by
  induction parts with
  | nil => rfl
  | cons part parts ih =>
    rw [List.flatMap_cons, decode_part, ih]
    rfl

theorem map_eq_ok {α β : Type} {f : α → β} {result : Except IoError α} {b : β}
    (h : result.map f = .ok b) : ∃ a, result = .ok a ∧ f a = b := by
  cases result with
  | error error => cases h
  | ok a => exact ⟨a, rfl, Except.ok.inj h⟩

/-- What an open single quote leads to, if the value is accepted. -/
theorem of_decode_single {value decoded : Text} (h : decodeFrom (some '\'') value = .ok decoded) :
    ∃ body rest after, '\'' ∉ body ∧ value = body ++ '\'' :: rest ∧ decodeFrom none rest = .ok after ∧
      decoded = body ++ after := by
  induction value generalizing decoded with
  | nil => cases h
  | cons c value ih =>
    rw [decode_quoted] at h
    by_cases hc : c = '\''
    · rw [if_pos hc] at h
      exact ⟨[], value, decoded, List.not_mem_nil, by rw [hc]; rfl, h, rfl⟩
    · rw [if_neg hc, if_neg (by simp)] at h
      obtain ⟨more, hmore, rfl⟩ := map_eq_ok h
      obtain ⟨body, rest, after, hbody, rfl, hafter, rfl⟩ := ih hmore
      exact ⟨c :: body, rest, after, List.not_mem_cons_of_ne_of_not_mem (Ne.symm hc) hbody, rfl, hafter, rfl⟩

/-- The same for a double quote, inside which a character may be escaped. -/
theorem of_decode_double {value decoded : Text} (h : decodeFrom (some '"') value = .ok decoded) :
    ∃ (body : List Quoted) (rest after : Text), value = body.flatMap Quoted.spelled ++ '"' :: rest ∧
      decodeFrom none rest = .ok after ∧ decoded = body.map Quoted.value ++ after := by
  induction hlength : value.length using Nat.strongRecOn generalizing value decoded with
  | ind length ih =>
    cases value with
    | nil => cases h
    | cons c value =>
      rw [decode_quoted] at h
      by_cases hc : c = '"'
      · rw [if_pos hc] at h
        exact ⟨[], value, decoded, by rw [hc]; rfl, h, rfl⟩
      · rw [if_neg hc] at h
        by_cases hescape : c = '\\'
        · rw [if_pos ⟨rfl, hescape⟩] at h
          cases value with
          | nil => cases h
          | cons e value =>
            obtain ⟨more, hmore, rfl⟩ := map_eq_ok h
            have hshorter : value.length < length := by
              simp only [← hlength, List.length_cons]
              omega
            obtain ⟨body, rest, after, rfl, hafter, rfl⟩ := ih value.length hshorter hmore rfl
            exact ⟨.escaped e :: body, rest, after, by rw [hescape]; rfl, hafter, rfl⟩
        · rw [if_neg (by simp [hescape])] at h
          obtain ⟨more, hmore, rfl⟩ := map_eq_ok h
          have hshorter : value.length < length := by
            simp only [← hlength, List.length_cons]
            omega
          obtain ⟨body, rest, after, rfl, hafter, rfl⟩ := ih value.length hshorter hmore rfl
          exact ⟨.plain c ⟨hc, hescape⟩ :: body, rest, after, rfl, hafter, rfl⟩

theorem of_decode {value decoded : Text} (h : decodeFrom none value = .ok decoded) :
    ∃ parts : List Part, value = parts.flatMap Part.spelled ∧ decoded = parts.flatMap Part.value := by
  induction hlength : value.length using Nat.strongRecOn generalizing value decoded with
  | ind length ih =>
    cases value with
    | nil =>
      cases h
      exact ⟨[], rfl, rfl⟩
    | cons c value =>
      rw [decode_bare] at h
      by_cases hquote : c = '\'' ∨ c = '"'
      · rw [if_pos hquote] at h
        rcases hquote with rfl | rfl
        · obtain ⟨body, rest, after, hbody, rfl, hafter, rfl⟩ := of_decode_single h
          have hshorter : rest.length < length := by
            simp only [← hlength, List.length_cons, List.length_append]
            omega
          obtain ⟨parts, rfl, rfl⟩ := ih rest.length hshorter hafter rfl
          exact ⟨.single body hbody :: parts, by simp [Part.spelled], rfl⟩
        · obtain ⟨body, rest, after, rfl, hafter, rfl⟩ := of_decode_double h
          have hshorter : rest.length < length := by
            simp only [← hlength, List.length_cons, List.length_append]
            omega
          obtain ⟨parts, rfl, rfl⟩ := ih rest.length hshorter hafter rfl
          exact ⟨.double body :: parts, by simp [Part.spelled], rfl⟩
      · rw [if_neg hquote] at h
        by_cases hescape : c = '\\'
        · rw [if_pos hescape] at h
          cases value with
          | nil => cases h
          | cons e value =>
            obtain ⟨more, hmore, rfl⟩ := map_eq_ok h
            have hshorter : value.length < length := by
              simp only [← hlength, List.length_cons]
              omega
            obtain ⟨parts, rfl, rfl⟩ := ih value.length hshorter hmore rfl
            exact ⟨.escaped e :: parts, by rw [hescape]; rfl, rfl⟩
        · rw [if_neg hescape] at h
          obtain ⟨more, hmore, rfl⟩ := map_eq_ok h
          have hshorter : value.length < length := by
            simp only [← hlength, List.length_cons]
            omega
          obtain ⟨parts, rfl, rfl⟩ := ih value.length hshorter hmore rfl
          have hordinary := not_or.mp hquote
          exact ⟨.bare c ⟨hordinary.1, hordinary.2, hescape⟩ :: parts, rfl, rfl⟩

/-- The accepted values are the written parts, and mean what the parts mean. -/
theorem decodeEnvValue_iff {value decoded : Text} : decodeEnvValue value = .ok decoded ↔
    ∃ parts : List Part, value = parts.flatMap Part.spelled ∧ decoded = parts.flatMap Part.value := by
  constructor
  · exact of_decode
  · rintro ⟨parts, rfl, rfl⟩
    exact decode_parts parts

end Value

/-! ## Assignments -/

section Assignments

abbrev Fields := Table Text Text

def isFieldName (key : Text) : Bool := key ≠ [] && key.all fun c => c.isUpper || c.isDigit || c = '_'

def parseLine (number : ℕ) (fields : Fields) (raw : Text) : Except IoError Fields :=
  let line := Text.trim raw
  if line = [] ∨ line.head? = some '#' then .ok fields
  else
    match Text.splitOnce '=' line with
    | none => .error (invalidData s!"invalid assignment on line {number + 1}")
    | some (key, value) =>
      if isFieldName key then (decodeEnvValue (Text.trim value)).map (fields.insert key ·)
      else .error (invalidData s!"invalid field name on line {number + 1}")

def parseLines : ℕ → Fields → List Text → Except IoError Fields
  | _, fields, [] => .ok fields
  | number, fields, line :: rest =>
    match parseLine number fields line with
    | .ok fields => parseLines (number + 1) fields rest
    | .error error => .error error

def parseRuntimeState (content : Text) : Except IoError Fields := parseLines 0 ∅ (Text.lines content)

/-- A line without the space around it. -/
inductive Line
  | ignored (text : Text) (quiet : text = [] ∨ text.head? = some '#')
  | assignment (name : Text) (valid : isFieldName name = true) (value : Text) (parts : List Part)
      (spelled : Text.trim value = parts.flatMap Part.spelled)

def Line.text : Line → Text
  | .ignored text _ => text
  | .assignment name _ value _ _ => name ++ '=' :: value

def Line.apply (fields : Fields) : Line → Fields
  | .ignored _ _ => fields
  | .assignment name _ _ parts _ => fields.insert name (parts.flatMap Part.value)

/-- What a line assigns to a name. -/
def Line.valueOf (name : Text) : Line → Option Text
  | .ignored _ _ => none
  | .assignment other _ _ parts _ => if name = other then some (parts.flatMap Part.value) else none

/-- The lines are what a text consists of. -/
def Reads (content : Text) (lines : List Line) : Prop :=
  (Text.lines content).map Text.trim = lines.map Line.text

/-- The last assignment to a name is the one that holds. -/
def lastValue (name : Text) (lines : List Line) : Option Text := lines.reverse.findSome? (Line.valueOf name)

variable {name key value content : Text} {fields : Fields} {lines : List Line}

theorem isFieldName_char (h : isFieldName name = true) : ∀ c ∈ name, c.isUpper ∨ c.isDigit ∨ c = '_' := by
  simp only [isFieldName, Bool.and_eq_true, List.all_eq_true, Bool.or_eq_true, decide_eq_true_eq] at h
  intro c hc
  have := h.2 c hc
  tauto

theorem isFieldName_free (h : isFieldName name = true) : '=' ∉ name := by
  intro hmem
  have := isFieldName_char h _ hmem
  revert this
  decide

/-- An assignment is neither blank nor a comment. -/
theorem assignment_stands (h : isFieldName name = true) :
    ¬ (name ++ '=' :: value = [] ∨ (name ++ '=' :: value).head? = some '#') := by
  cases name with
  | nil => cases h
  | cons c name =>
    have hc := isFieldName_char h c List.mem_cons_self
    rintro (hnil | hhead)
    · cases hnil
    · obtain rfl : c = '#' := by simpa using hhead
      revert hc
      decide

theorem parseLine_text {number : ℕ} {raw : Text} {line : Line} (h : Text.trim raw = line.text) :
    parseLine number fields raw = .ok (line.apply fields) := by
  cases line with
  | ignored text quiet =>
    simp only [parseLine, h, Line.text, if_pos quiet]
    rfl
  | assignment name valid value parts spelled =>
    simp only [parseLine, h, Line.text, if_neg (assignment_stands valid),
      Text.splitOnce_append (isFieldName_free valid), valid, if_true,
      decodeEnvValue_iff.mpr ⟨parts, spelled, rfl⟩]
    rfl

theorem of_parseLine {number : ℕ} {raw : Text} {after : Fields}
    (h : parseLine number fields raw = .ok after) :
    ∃ line : Line, Text.trim raw = line.text ∧ after = line.apply fields := by
  unfold parseLine at h
  by_cases hquiet : Text.trim raw = [] ∨ (Text.trim raw).head? = some '#'
  · rw [if_pos hquiet] at h
    cases h
    exact ⟨.ignored _ hquiet, rfl, rfl⟩
  · rw [if_neg hquiet] at h
    cases hsplit : Text.splitOnce '=' (Text.trim raw) with
    | none =>
      rw [hsplit] at h
      cases h
    | some pair =>
      obtain ⟨key, value⟩ := pair
      rw [hsplit] at h
      cases hkey : isFieldName key with
      | false => simp [hkey] at h
      | true =>
        simp only [hkey, if_true] at h
        obtain ⟨decoded, hdecoded, rfl⟩ := map_eq_ok h
        obtain ⟨parts, hspelled, rfl⟩ := decodeEnvValue_iff.mp hdecoded
        exact ⟨.assignment key hkey value parts hspelled, (Text.splitOnce_some hsplit).1, rfl⟩

theorem parseLines_iff {raws : List Text} {number : ℕ} {after : Fields} :
    parseLines number fields raws = .ok after ↔
      ∃ lines : List Line, raws.map Text.trim = lines.map Line.text ∧
        after = lines.foldl Line.apply fields := by
  induction raws generalizing number fields with
  | nil =>
    constructor
    · intro h
      cases h
      exact ⟨[], rfl, rfl⟩
    · rintro ⟨lines, hlines, rfl⟩
      cases lines with
      | nil => rfl
      | cons line lines => cases hlines
  | cons raw raws ih =>
    constructor
    · intro h
      cases hline : parseLine number fields raw with
      | error error => simp [parseLines, hline] at h
      | ok next =>
        simp only [parseLines, hline] at h
        obtain ⟨line, hraw, rfl⟩ := of_parseLine hline
        obtain ⟨lines, hraws, rfl⟩ := ih.mp h
        exact ⟨line :: lines, by simp [hraw, hraws], rfl⟩
    · rintro ⟨lines, hlines, rfl⟩
      cases lines with
      | nil => cases hlines
      | cons line lines =>
        obtain ⟨hraw, hraws⟩ := List.cons_eq_cons.mp hlines
        simp only [parseLines, parseLine_text hraw]
        exact ih.mpr ⟨lines, hraws, rfl⟩

theorem lookup_apply (line : Line) (name : Text) :
    (line.apply fields).lookup name = (line.valueOf name).or (fields.lookup name) := by
  cases line with
  | ignored text quiet => rfl
  | assignment other valid value parts spelled =>
    simp only [Line.apply, Line.valueOf, Table.lookup_insert_ite]
    split_ifs <;> rfl

theorem lookup_foldl_apply (name : Text) (lines : List Line) :
    (lines.foldl Line.apply fields).lookup name = (lastValue name lines).or (fields.lookup name) := by
  induction lines generalizing fields with
  | nil => rfl
  | cons line lines ih =>
    rw [List.foldl_cons, ih, lookup_apply, lastValue, lastValue, List.reverse_cons, List.findSome?_append,
      Option.or_assoc]
    simp

/-- A text is accepted where every line is blank, a comment or an assignment. Under each name the last
assigned value is found. -/
theorem parseRuntimeState_reads (content : Text) :
    (∀ fields, parseRuntimeState content = .ok fields → ∃ lines, Reads content lines) ∧
      ∀ lines, Reads content lines → ∃ fields, parseRuntimeState content = .ok fields ∧
        ∀ name, fields.lookup name = lastValue name lines := by
  constructor
  · intro fields h
    obtain ⟨lines, hlines, -⟩ := parseLines_iff.mp h
    exact ⟨lines, hlines⟩
  · intro lines hlines
    refine ⟨_, parseLines_iff.mpr ⟨lines, hlines, rfl⟩, fun name => ?_⟩
    rw [lookup_foldl_apply]
    exact Option.or_none

theorem lookup_parsed (h : parseRuntimeState content = .ok fields) (hlines : Reads content lines)
    (name : Text) : fields.lookup name = lastValue name lines := by
  obtain ⟨found, hfound, hlookup⟩ := (parseRuntimeState_reads content).2 lines hlines
  rw [h] at hfound
  rw [Except.ok.inj hfound]
  exact hlookup name

end Assignments

/-! ## Registrations -/

section Registrations

def maxRuntimeStateBytes : ℕ := 64 * 1024

def maxStatBytes : ℕ := 8 * 1024

def decodeUtf8 (bytes : List UInt8) : Option Text := (String.fromUTF8? ⟨bytes.toArray⟩).map String.toList

/-- A registration that has been opened. Its bytes are those that are read after its length was. -/
structure StateFile where
  isFile : Bool
  len : ℕ
  bytes : List UInt8

def readRuntimeState (opened : Except IoError StateFile) (expectedName : Text) : Except IoError Fields :=
  match opened with
  | .error error => .error error
  | .ok file =>
    if !file.isFile then .error (invalidData "runtime state is not a regular file")
    else if maxRuntimeStateBytes < file.len then .error (invalidData "runtime state exceeds the 64 KiB limit")
    else if maxRuntimeStateBytes < file.bytes.length then
      .error (invalidData "runtime state changed beyond the 64 KiB limit while reading")
    else
      match decodeUtf8 file.bytes with
      | none => .error (invalidData "runtime state is not UTF-8")
      | some content =>
        match parseRuntimeState content with
        | .error error => .error error
        | .ok fields =>
          if fields.lookup "NAME".toList = some expectedName then .ok fields
          else .error (invalidData "runtime state NAME does not match the requested machine")

def parseLeaderPid (fields : Fields) : Except IoError ℕ :=
  match fields.lookup "LEADER".toList with
  | none => .error (invalidData "runtime state has no LEADER field")
  | some value =>
    match Text.parseUnsigned (2 ^ 32) value with
    | none => .error (invalidData "runtime state LEADER is not a PID")
    | some pid =>
      if pid = 0 ∨ 2 ^ 31 - 1 < pid then
        .error (invalidData "runtime state LEADER is outside the Linux PID range")
      else .ok pid

/-- Field 22 of `/proc/<pid>/stat`, counted after the last parenthesis that ends the command. -/
def parseStartTime (stat : List UInt8) : Except IoError ℕ :=
  match stat.reverse.span (· ≠ 0x29) with
  | (_, []) => .error (invalidData "process stat has no command terminator")
  | (after, _ :: _) =>
    match decodeUtf8 after.reverse with
    | none => .error (invalidData "process stat has invalid numeric fields")
    | some fields =>
      match (Text.splitAsciiWhitespace fields)[19]? with
      | none => .error (invalidData "process stat has no start time")
      | some field =>
        match Text.parseUnsigned (2 ^ 64) field with
        | none => .error (invalidData "process stat has an invalid start time")
        | some 0 => .error (invalidData "process start time is zero")
        | some time => .ok time

def processStartTime (opened : Except IoError (List UInt8)) : Except IoError ℕ :=
  match opened with
  | .error error => .error error
  | .ok stat =>
    if maxStatBytes < stat.length then .error (invalidData "process stat exceeded its size limit")
    else parseStartTime stat

/-- What one look at the host can show. -/
structure Host where
  registration : Except IoError StateFile
  stat : ℕ → Except IoError (List UInt8)
  pidNamespace : ℕ → Except IoError ObservedNamespaceIdentity
  userNamespace : ℕ → Except IoError ObservedNamespaceIdentity

def Host.startTime (host : Host) (leader : ℕ) : Except IoError ℕ := processStartTime (host.stat leader)

/-- The first look is at the namespace of the process ids. -/
def namespacePair (first second : Host) (leader : ℕ) :
    Except IoError (ObservedNamespaceIdentity × ObservedNamespaceIdentity) := do
  let pid ← first.pidNamespace leader
  let user ← second.userNamespace leader
  return (pid, user)

/-- Namespaces that may not be read are left open. -/
def permitted {α : Type} : Except IoError α → Except IoError (Option α)
  | .ok a => .ok (some a)
  | .error error => if error.kind = .permissionDenied then .ok none else .error error

/-- Look `n` sees the host `seen n`; a look that is not made leaves its number out. -/
def observeMachineInstance (seen : ℕ → Host) (look leader : ℕ) : Except IoError ObservedMachineInstance := do
  let before ← (seen look).startTime leader
  let namespaces ← permitted (namespacePair (seen (look + 1)) (seen (look + 2)) leader)
  let after ← (seen (look + 3)).startTime leader
  if before ≠ after then throw ⟨.notFound, "machine leader changed during process inspection"⟩
  return ⟨leader, some before, namespaces⟩

def leaderPidAt (host : Host) (expectedName : Text) : Except IoError ℕ := do
  let fields ← readRuntimeState host.registration expectedName
  parseLeaderPid fields

def machineInstanceAt (seen : ℕ → Host) (expectedName : Text) : Except IoError ObservedMachineInstance := do
  let leader ← leaderPidAt (seen 0) expectedName
  let before ← observeMachineInstance seen 1 leader
  let current ← leaderPidAt (seen 5) expectedName
  if current ≠ leader then throw ⟨.notFound, "machine leader changed during registration inspection"⟩
  let after ← observeMachineInstance seen 6 leader
  if before ≠ after then throw ⟨.notFound, "machine process identity changed during registration inspection"⟩
  return before

/-- The registration at a look is a whole regular file that gives the machine this name and this leader. -/
def Registers (host : Host) (name : Text) (leader : ℕ) : Prop :=
  ∃ file content lines value, host.registration = .ok file ∧ file.isFile = true ∧
    file.len ≤ maxRuntimeStateBytes ∧ file.bytes.length ≤ maxRuntimeStateBytes ∧
    decodeUtf8 file.bytes = some content ∧ Reads content lines ∧
    lastValue "NAME".toList lines = some name ∧ lastValue "LEADER".toList lines = some value ∧
    Text.parseUnsigned (2 ^ 32) value = some leader ∧ 0 < leader ∧ leader < 2 ^ 31

/-- A leader that shows the same start time twice is the same process, and shows it in between. -/
def SameProcess (seen : ℕ → Host) (leader : ℕ) : Prop :=
  ∀ time first look last, first ≤ look → look ≤ last → (seen first).startTime leader = .ok time →
    (seen last).startTime leader = .ok time → (seen look).startTime leader = .ok time

variable {host : Host} {name : Text} {leader : ℕ} {fields : Fields} {seen : ℕ → Host}

theorem bind_eq_ok {α β : Type} {result : Except IoError α} {f : α → Except IoError β} {b : β}
    (h : (result >>= f) = .ok b) : ∃ a, result = .ok a ∧ f a = .ok b := by
  cases result with
  | error error => cases h
  | ok a => exact ⟨a, rfl, h⟩

theorem readRuntimeState_ok {opened : Except IoError StateFile}
    (h : readRuntimeState opened name = .ok fields) :
    ∃ file content, opened = .ok file ∧ file.isFile = true ∧ file.len ≤ maxRuntimeStateBytes ∧
      file.bytes.length ≤ maxRuntimeStateBytes ∧ decodeUtf8 file.bytes = some content ∧
      parseRuntimeState content = .ok fields ∧ fields.lookup "NAME".toList = some name := by
  cases opened with
  | error error => cases h
  | ok file =>
    simp only [readRuntimeState] at h
    split_ifs at h with hfile hlen hbytes
    cases hcontent : decodeUtf8 file.bytes with
    | none => simp [hcontent] at h
    | some content =>
      simp only [hcontent] at h
      cases hparsed : parseRuntimeState content with
      | error error => simp [hparsed] at h
      | ok parsed =>
        simp only [hparsed] at h
        split_ifs at h with hname
        cases h
        exact ⟨file, content, rfl, by simpa using hfile, by omega, by omega, hcontent, hparsed, hname⟩

theorem parseLeaderPid_ok (h : parseLeaderPid fields = .ok leader) :
    ∃ value, fields.lookup "LEADER".toList = some value ∧ Text.parseUnsigned (2 ^ 32) value = some leader ∧
      0 < leader ∧ leader < 2 ^ 31 := by
  unfold parseLeaderPid at h
  generalize hbound : 2 ^ 32 = bound at h ⊢
  cases hvalue : fields.lookup "LEADER".toList with
  | none =>
    rw [hvalue] at h
    cases h
  | some value =>
    rw [hvalue] at h
    cases hpid : Text.parseUnsigned bound value with
    | none =>
      simp only [hpid] at h
      cases h
    | some pid =>
      simp only [hpid] at h
      split_ifs at h with hrange
      cases h
      exact ⟨value, rfl, hpid, by omega, by omega⟩

/-- A leader is read exactly from a registration that gives it. -/
theorem leaderPidAt_iff : leaderPidAt host name = .ok leader ↔ Registers host name leader := by
  constructor
  · intro h
    obtain ⟨fields, hread, hpid⟩ := bind_eq_ok h
    obtain ⟨file, content, hopened, hfile, hlen, hbytes, hcontent, hparsed, hname⟩ :=
      readRuntimeState_ok hread
    obtain ⟨value, hvalue, hnumber, hpos, hlt⟩ := parseLeaderPid_ok hpid
    obtain ⟨lines, hlines⟩ := (parseRuntimeState_reads content).1 fields hparsed
    rw [lookup_parsed hparsed hlines] at hname hvalue
    exact ⟨file, content, lines, value, hopened, hfile, hlen, hbytes, hcontent, hlines, hname, hvalue,
      hnumber, hpos, hlt⟩
  · rintro ⟨file, content, lines, value, hopened, hfile, hlen, hbytes, hcontent, hlines, hname, hvalue,
      hnumber, hpos, hlt⟩
    obtain ⟨fields, hparsed, hlookup⟩ := (parseRuntimeState_reads content).2 lines hlines
    have hread : readRuntimeState host.registration name = .ok fields := by
      simp only [hopened, readRuntimeState, hfile, Bool.not_true, Bool.false_eq_true, if_false,
        if_neg (Nat.not_lt.mpr hlen), if_neg (Nat.not_lt.mpr hbytes), hcontent, hparsed, hlookup, hname,
        if_true]
    have hrange : ¬ (leader = 0 ∨ 2 ^ 31 - 1 < leader) := by omega
    show (readRuntimeState host.registration name >>= parseLeaderPid) = _
    rw [hread]
    show parseLeaderPid fields = _
    simp only [parseLeaderPid, hlookup, hvalue, hnumber, if_neg hrange]

theorem permitted_ok {α : Type} {result : Except IoError α} {found : Option α}
    (h : permitted result = .ok found) :
    (∀ a, found = some a → result = .ok a) ∧
      (found = none → ∃ error, result = .error error ∧ error.kind = .permissionDenied) := by
  cases result with
  | ok a =>
    cases h
    exact ⟨fun _ heq => by rw [Option.some.inj heq], nofun⟩
  | error error =>
    simp only [permitted] at h
    split_ifs at h with hkind
    cases h
    exact ⟨nofun, fun _ => ⟨error, rfl, hkind⟩⟩

/-- What an observation of a process has seen. -/
structure Observed (seen : ℕ → Host) (look : ℕ) (inst : ObservedMachineInstance) (time : ℕ) : Prop where
  start : inst.leaderStartTime = some time
  before : (seen look).startTime inst.leaderPid = .ok time
  after : (seen (look + 3)).startTime inst.leaderPid = .ok time
  namespaces : ∀ pair, inst.namespaces = some pair →
    namespacePair (seen (look + 1)) (seen (look + 2)) inst.leaderPid = .ok pair
  closed : inst.namespaces = none → ∃ error,
    namespacePair (seen (look + 1)) (seen (look + 2)) inst.leaderPid = .error error ∧
      error.kind = .permissionDenied

theorem observeMachineInstance_ok {look : ℕ} {inst : ObservedMachineInstance}
    (h : observeMachineInstance seen look leader = .ok inst) :
    inst.leaderPid = leader ∧ ∃ time, Observed seen look inst time := by
  obtain ⟨before, hbefore, h⟩ := bind_eq_ok h
  obtain ⟨namespaces, hnamespaces, h⟩ := bind_eq_ok h
  obtain ⟨after, hafter, h⟩ := bind_eq_ok h
  by_cases hsame : before = after
  · simp only [hsame, ne_eq, not_true_eq_false, if_false] at h
    cases h
    obtain ⟨hsome, hnone⟩ := permitted_ok hnamespaces
    exact ⟨rfl, after, rfl, by rw [← hsame]; exact hbefore, hafter, hsome, hnone⟩
  · simp [hsame] at h
    cases h

/-- An instance that was read was registered before and after its process was looked at, and the process
was the same all along. -/
theorem machineInstanceAt_registered {inst : ObservedMachineInstance}
    (h : machineInstanceAt seen name = .ok inst) :
    Registers (seen 0) name inst.leaderPid ∧ Registers (seen 5) name inst.leaderPid ∧
      ∃ time, Observed seen 1 inst time ∧ Observed seen 6 inst time ∧
        (SameProcess seen inst.leaderPid →
          ∀ look, 1 ≤ look → look ≤ 9 → (seen look).startTime inst.leaderPid = .ok time) := by
  obtain ⟨leader, hleader, h⟩ := bind_eq_ok h
  obtain ⟨before, hbefore, h⟩ := bind_eq_ok h
  obtain ⟨current, hcurrent, h⟩ := bind_eq_ok h
  by_cases hkept : current = leader
  · simp only [hkept, ne_eq, not_true_eq_false, if_false] at h
    obtain ⟨after, hafter, h⟩ := bind_eq_ok h
    by_cases hsame : before = after
    · simp only [hsame, not_true_eq_false, if_false] at h
      cases h
      obtain ⟨rfl, time, hfirst⟩ := observeMachineInstance_ok (hsame ▸ hbefore)
      obtain ⟨-, later, hsecond⟩ := observeMachineInstance_ok hafter
      obtain rfl : time = later := by
        have htimes := hfirst.start.symm.trans hsecond.start
        exact Option.some.inj htimes
      refine ⟨leaderPidAt_iff.mp hleader, leaderPidAt_iff.mp (hkept ▸ hcurrent), time, hfirst, hsecond, ?_⟩
      intro hprocess look hfrom huntil
      exact hprocess _ 1 look 9 hfrom huntil hfirst.before hsecond.after
    · simp [hsame] at h
      cases h
  · simp [hkept] at h
    cases h

/-- A machine whose leader stays while its registration is written anew, and another process comes
and goes. -/
def steadyHost (look : ℕ) : Host where
  registration := .ok (if look < 3 then ⟨true, 17, "NAME=a\nLEADER=42\n".toUTF8.data.toList⟩
    else ⟨true, 33, "LEADER=42\nCLASS=container\nNAME=a\n".toUTF8.data.toList⟩)
  stat pid :=
    if pid = 42 then .ok "42 (a )b) S 0 0 0 0 0 0 0 0 0 0 0 0 0 0 0 0 0 0 77 0\n".toUTF8.data.toList
    else if look = 4 then .ok "43 (c) S 0 0 0 0 0 0 0 0 0 0 0 0 0 0 0 0 0 0 78 0\n".toUTF8.data.toList
    else .error ⟨.notFound, "no such process"⟩
  pidNamespace _ := .ok ⟨4, 1⟩
  userNamespace _ := .ok ⟨4, 2⟩

theorem machineInstanceAt_registered_steady :
    Registers (steadyHost 0) ['a'] 42 ∧ Registers (steadyHost 5) ['a'] 42 ∧
      ∀ look, 1 ≤ look → look ≤ 9 → (steadyHost look).startTime 42 = .ok 77 := by
  have hread : machineInstanceAt steadyHost ['a'] = .ok ⟨42, some 77, some (⟨4, 1⟩, ⟨4, 2⟩)⟩ := by
    decide +kernel
  have hsame : SameProcess steadyHost 42 := fun _ _ _ _ _ _ hfirst _ => hfirst
  obtain ⟨hfirst, hagain, time, hobserved, -, hall⟩ := machineInstanceAt_registered hread
  obtain rfl : 77 = time := Option.some.inj hobserved.start
  exact ⟨hfirst, hagain, hall hsame⟩

end Registrations

/-! ## The list of machines -/

section Enumeration

/-- One entry of the directory: its kind, its name if it is a text, and what opening it gives. -/
structure DirEntry where
  isFile : Except IoError Bool
  name : Option String
  registration : Except IoError StateFile

def withoutTrailingDot (name : String) : String :=
  if name.toList.getLast? = some '.' then String.ofList name.toList.dropLast else ""

/-- A name that the mutating operations accept, or such a name with a dot after it. -/
def validObservedName (name : String) : Bool :=
  (MachineName.new name).isOk ||
    (withoutTrailingDot name ≠ "" && (MachineName.new (withoutTrailingDot name)).isOk)

def unsupportedAddresses : MachineAddressObservation :=
  .unsupported "runtime-state observation does not query addresses"

def machineEntry (name : String) (fields : Fields) : MachineEntry where
  name := name
  class_ := .parse (String.ofList ((fields.lookup "CLASS".toList).getD []))
  service := .parse (String.ofList ((fields.lookup "SERVICE".toList).getD []))
  state := .running
  addresses := unsupportedAddresses

/-- What has gone meanwhile is left out; other failures to look at an entry end the enumeration. -/
def unlessGone {α : Type} : Except IoError α → Except IoError (Option α)
  | .ok a => .ok (some a)
  | .error error => if error.kind = .notFound then .ok none else .error error

/-- A registration that cannot be read is left out. -/
def regularEntry (entry : DirEntry) : Option MachineEntry :=
  match entry.name with
  | none => none
  | some name =>
    if validObservedName name then
      match readRuntimeState entry.registration name.toList with
      | .error _ => none
      | .ok fields => some (machineEntry name fields)
    else none

def registeredEntry (found : Except IoError DirEntry) : Except IoError (Option MachineEntry) :=
  match unlessGone found with
  | .error error => .error error
  | .ok none => .ok none
  | .ok (some entry) =>
    match unlessGone entry.isFile with
    | .error error => .error error
    | .ok none | .ok (some false) => .ok none
    | .ok (some true) => .ok (regularEntry entry)

def registeredEntries : List (Except IoError DirEntry) → Except IoError (List MachineEntry)
  | [] => .ok []
  | found :: rest =>
    match registeredEntry found with
    | .error error => .error error
    | .ok none => registeredEntries rest
    | .ok (some machine) => (registeredEntries rest).map (machine :: ·)

def enumerateMachines (directory : Except IoError (List (Except IoError DirEntry))) :
    Except IoError (List MachineEntry) :=
  match unlessGone directory with
  | .error error => .error error
  | .ok none => .ok []
  | .ok (some entries) => (registeredEntries entries).map fun machines => machines.mergeSort MachineEntry.le

/-- A failure that is not that of a vanished entry. -/
def Fatal {α : Type} (result : Except IoError α) : Prop :=
  ∃ error, result = .error error ∧ error.kind ≠ .notFound

/-- A regular file under a valid name whose last assignments describe the machine. -/
structure Listed (found : Except IoError DirEntry) (machine : MachineEntry) : Prop where
  registered : ∃ entry fields, found = .ok entry ∧ entry.isFile = .ok true ∧ entry.name = some machine.name ∧
    readRuntimeState entry.registration machine.name.toList = .ok fields ∧
    machine = machineEntry machine.name fields
  valid : validObservedName machine.name = true

variable {found : Except IoError DirEntry} {entries : List (Except IoError DirEntry)}
  {machine : MachineEntry} {machines : List MachineEntry}

theorem unlessGone_some {α : Type} {result : Except IoError α} {a : α} :
    unlessGone result = .ok (some a) ↔ result = .ok a := by
  cases result with
  | ok b => simp [unlessGone]
  | error error =>
    simp only [unlessGone]
    split_ifs <;> simp

theorem unlessGone_error {α : Type} {result : Except IoError α} :
    (∃ error, unlessGone result = .error error) ↔ Fatal result := by
  cases result with
  | ok b => simp [unlessGone, Fatal]
  | error error =>
    simp only [unlessGone, Fatal]
    split_ifs with hkind <;> simp [hkind]

theorem regularEntry_some {entry : DirEntry} : regularEntry entry = some machine ↔
    entry.name = some machine.name ∧ validObservedName machine.name = true ∧ ∃ fields,
      readRuntimeState entry.registration machine.name.toList = .ok fields ∧
        machine = machineEntry machine.name fields := by
  constructor
  · intro h
    unfold regularEntry at h
    cases hname : entry.name with
    | none => simp [hname] at h
    | some name =>
      simp only [hname] at h
      split_ifs at h with hvalid
      cases hread : readRuntimeState entry.registration name.toList with
      | error error => simp [hread] at h
      | ok fields =>
        simp only [hread] at h
        obtain rfl := Option.some.inj h
        exact ⟨rfl, hvalid, fields, hread, rfl⟩
  · rintro ⟨hname, hvalid, fields, hread, hmachine⟩
    simp only [regularEntry, hname, hvalid, hread, if_true]
    rw [← hmachine]

theorem registeredEntry_some : registeredEntry found = .ok (some machine) ↔ Listed found machine := by
  constructor
  · intro h
    cases hfound : unlessGone found with
    | error error => simp [registeredEntry, hfound] at h
    | ok opened =>
      cases opened with
      | none => simp [registeredEntry, hfound] at h
      | some entry =>
        rw [registeredEntry, hfound] at h
        cases hfile : unlessGone entry.isFile with
        | error error => simp [hfile] at h
        | ok kind =>
          cases kind with
          | none => simp [hfile] at h
          | some isFile =>
            cases isFile with
            | false => simp [hfile] at h
            | true =>
              simp only [hfile] at h
              obtain ⟨hname, hvalid, fields, hread, hmachine⟩ := regularEntry_some.mp (Except.ok.inj h)
              exact ⟨⟨entry, fields, unlessGone_some.mp hfound, unlessGone_some.mp hfile, hname, hread,
                hmachine⟩, hvalid⟩
  · rintro ⟨⟨entry, fields, rfl, hfile, hname, hread, hmachine⟩, hvalid⟩
    simp only [registeredEntry, unlessGone, hfile]
    rw [regularEntry_some.mpr ⟨hname, hvalid, fields, hread, hmachine⟩]

theorem registeredEntry_error : (∃ error, registeredEntry found = .error error) ↔
    Fatal found ∨ ∃ entry, found = .ok entry ∧ Fatal entry.isFile := by
  rw [← unlessGone_error]
  cases hfound : unlessGone found with
  | error error => simp [registeredEntry, hfound]
  | ok opened =>
    cases opened with
    | none =>
      have hgone : ∀ entry, found ≠ .ok entry := by
        rintro entry rfl
        cases hfound
      simp [registeredEntry, hfound, hgone]
    | some entry =>
      obtain rfl := unlessGone_some.mp hfound
      rw [registeredEntry, hfound]
      cases hfile : unlessGone entry.isFile with
      | error error =>
        have hfatal := unlessGone_error.mp ⟨error, hfile⟩
        simp [hfatal, hfile]
      | ok kind =>
        have hfatal : ¬ Fatal entry.isFile := by
          rw [← unlessGone_error, hfile]
          simp
        rcases kind with _ | _ | _ <;> simp [hfatal, hfile]

theorem mem_registeredEntries (h : registeredEntries entries = .ok machines) :
    machine ∈ machines ↔ ∃ found ∈ entries, Listed found machine := by
  simp only [← registeredEntry_some]
  induction entries generalizing machines with
  | nil =>
    cases h
    simp
  | cons found rest ih =>
    cases hfound : registeredEntry found with
    | error error => simp [registeredEntries, hfound] at h
    | ok listed =>
      cases listed with
      | none =>
        simp only [registeredEntries, hfound] at h
        simp [ih h, hfound]
      | some first =>
        simp only [registeredEntries, hfound] at h
        obtain ⟨others, hothers, rfl⟩ := map_eq_ok h
        simp [ih hothers, hfound, eq_comm]

theorem registeredEntries_names (h : registeredEntries entries = .ok machines) :
    (machines.map (·.name)).Sublist (entries.filterMap fun found => found.toOption.bind (·.name)) := by
  induction entries generalizing machines with
  | nil =>
    cases h
    exact .slnil
  | cons found rest ih =>
    have hskip : ∀ names : List String,
        names.Sublist (rest.filterMap fun found => found.toOption.bind (·.name)) →
        names.Sublist ((found :: rest).filterMap fun found => found.toOption.bind (·.name)) := by
      intro names hnames
      rw [List.filterMap_cons]
      split
      · exact hnames
      · exact hnames.cons _
    cases hfound : registeredEntry found with
    | error error => simp [registeredEntries, hfound] at h
    | ok listed =>
      cases listed with
      | none =>
        simp only [registeredEntries, hfound] at h
        exact hskip _ (ih h)
      | some first =>
        simp only [registeredEntries, hfound] at h
        obtain ⟨others, hothers, rfl⟩ := map_eq_ok h
        obtain ⟨entry, fields, rfl, -, hname, -⟩ := (registeredEntry_some.mp hfound).registered
        have hhead : ((.ok entry : Except IoError DirEntry)).toOption.bind (·.name) = some first.name := hname
        rw [List.filterMap_cons, hhead]
        exact (ih hothers).cons_cons _

theorem registeredEntries_ok : (∃ machines, registeredEntries entries = .ok machines) ↔
    ∀ found ∈ entries, ¬ ∃ error, registeredEntry found = .error error := by
  induction entries with
  | nil => simp [registeredEntries]
  | cons found rest ih =>
    rw [List.forall_mem_cons, ← ih, registeredEntries]
    cases hfound : registeredEntry found with
    | error error => simp
    | ok listed =>
      cases listed with
      | none => simp
      | some first =>
        simp only [reduceCtorEq, exists_false, not_false_eq_true, true_and]
        constructor
        · rintro ⟨machines, h⟩
          obtain ⟨others, hothers, -⟩ := map_eq_ok h
          exact ⟨others, hothers⟩
        · rintro ⟨others, hothers⟩
          exact ⟨first :: others, by rw [hothers]; rfl⟩

theorem enumerateMachines_ok (entries : List (Except IoError DirEntry)) :
    (∃ machines, enumerateMachines (.ok entries) = .ok machines) ↔
      ∀ found ∈ entries, ¬ Fatal found ∧ ∀ entry, found = .ok entry → ¬ Fatal entry.isFile := by
  have hiff : (∃ machines, enumerateMachines (.ok entries) = .ok machines) ↔
      ∃ machines, registeredEntries entries = .ok machines := by
    constructor
    · rintro ⟨machines, h⟩
      obtain ⟨unsorted, hunsorted, -⟩ := map_eq_ok h
      exact ⟨unsorted, hunsorted⟩
    · rintro ⟨machines, h⟩
      exact ⟨machines.mergeSort MachineEntry.le, by simp only [enumerateMachines, unlessGone, h]; rfl⟩
  rw [hiff, registeredEntries_ok]
  simp only [registeredEntry_error, not_or, not_exists, not_and]

theorem enumerateMachines_entries (h : enumerateMachines (.ok entries) = .ok machines) :
    machines.Pairwise (fun a b => a.le b) ∧
      (∀ machine, machine ∈ machines ↔ ∃ found ∈ entries, Listed found machine) ∧
      ((entries.filterMap fun found => found.toOption.bind (·.name)).Nodup → (machines.map (·.name)).Nodup) := by
  obtain ⟨unsorted, hunsorted, rfl⟩ := map_eq_ok h
  have hperm : (unsorted.mergeSort MachineEntry.le).Perm unsorted := List.mergeSort_perm _ _
  refine ⟨?_, ?_, ?_⟩
  · apply List.pairwise_mergeSort
    · intro a b c
      exact MachineEntry.le_of_le_of_le
    · exact MachineEntry.le_or_le
  · intro machine
    rw [hperm.mem_iff]
    exact mem_registeredEntries hunsorted
  · intro hnames
    exact (hperm.map _).nodup_iff.mpr (hnames.sublist (registeredEntries_names hunsorted))

/-- A directory that is not there has no machines; one that cannot be opened gives no list. -/
theorem enumerateMachines_unopened (error : IoError) :
    enumerateMachines (.error error) = if error.kind = .notFound then .ok [] else .error error := by
  simp only [enumerateMachines, unlessGone]
  split_ifs <;> rfl

/-- The list holds exactly the machines whose registrations can be read, in order, each once where the names
of the directory are different. Only a failure to look at the directory or at an entry itself leaves no
list; where the directory is not there the list is empty. -/
theorem enumerateMachines_exact (directory : Except IoError (List (Except IoError DirEntry))) :
    ((∃ machines, enumerateMachines directory = .ok machines) ↔
        ¬ Fatal directory ∧ ∀ entries, directory = .ok entries →
          ∀ found ∈ entries, ¬ Fatal found ∧ ∀ entry, found = .ok entry → ¬ Fatal entry.isFile) ∧
      ∀ machines, enumerateMachines directory = .ok machines →
        machines.Pairwise (fun a b => a.le b) ∧
        (∀ machine, machine ∈ machines ↔
          ∃ entries, directory = .ok entries ∧ ∃ found ∈ entries, Listed found machine) ∧
        ∀ entries, directory = .ok entries →
          (entries.filterMap fun found => found.toOption.bind (·.name)).Nodup → (machines.map (·.name)).Nodup := by
  cases directory with
  | ok entries =>
    have hopened : ¬ Fatal (.ok entries : Except IoError (List (Except IoError DirEntry))) := by
      simp [Fatal]
    constructor
    · rw [enumerateMachines_ok, and_iff_right hopened]
      exact ⟨fun h others heq => Except.ok.inj heq ▸ h, fun h => h entries rfl⟩
    · intro machines h
      obtain ⟨hsorted, hmem, hnames⟩ := enumerateMachines_entries h
      refine ⟨hsorted, fun machine => ?_, fun others heq => Except.ok.inj heq ▸ hnames⟩
      rw [hmem]
      exact ⟨fun hlisted => ⟨entries, rfl, hlisted⟩, fun ⟨others, heq, hlisted⟩ => Except.ok.inj heq ▸ hlisted⟩
  | error error =>
    rw [enumerateMachines_unopened]
    by_cases hgone : error.kind = .notFound
    · simp [hgone, Fatal]
    · simp [hgone, Fatal]

end Enumeration

end Lasper.Machines.Registration
