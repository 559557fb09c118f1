import Lasper.Config.Apply
import Lasper.Lib.Calls
import Lasper.Lib.Joined

/-! The environment of a guest, with the variables of a graphics driver merged into it.
The file is read line by line, and written as lines. -/

namespace Lasper.Rootfs

open Lib Config

section Validation

def maxLdCacheFolders : ℕ := 512

def maxEnvironmentEntries : ℕ := 512

def maxPathBytes : ℕ := 4096

def maxEnvKeyBytes : ℕ := 128

def maxEnvValueBytes : ℕ := 8192

def maxMutationBytes : ℕ := 1024 * 1024

def isPlainComponent : Component → Bool
  | .rootDir | .normal _ => true
  | _ => false

def validateContainerPath (label : String) (value : Text) : Except NspawnError Unit :=
  if value = [] ∨ maxPathBytes < value.byteLen ∨ value.any isControl = true ∨ ¬ Path.isAbsolute value then
    .error (.validation s!"Invalid {label}: \"{String.ofList value}\"")
  else if ¬ (Path.components value).all isPlainComponent then
    .error (.validation s!"{label} contains relative path components: \"{String.ofList value}\"")
  else .ok ()

def isKeyStart (c : Char) : Bool := c = '_' || c.isAlpha

def isEnvironmentKey (key : Text) : Bool :=
  key ≠ [] && key.byteLen ≤ maxEnvKeyBytes && key.head?.all isKeyStart &&
    key.tail.all fun c => isKeyStart c || c.isDigit

def validateEnvironmentEntry (entry : Text × Text) : Except NspawnError Unit :=
  if ¬ isEnvironmentKey entry.1 ∨ maxEnvValueBytes < entry.2.byteLen ∨ entry.2.any isControl = true then
    .error (.validation s!"Invalid NVIDIA environment entry: \"{String.ofList entry.1}\"")
  else .ok ()

def totalBytes (folders : List Text) (environment : List (Text × Text)) : ℕ :=
  (folders.map Text.byteLen).sum + (environment.map fun entry => entry.1.byteLen + entry.2.byteLen).sum

def validateNvidiaConfig (folders : List Text) (environment : List (Text × Text)) (writeEnvironment : Bool) :
    Except NspawnError Unit := do
  (if maxLdCacheFolders < folders.length then .error (.validation "Too many NVIDIA ld-cache folders") else .ok ())
  folders.forM (validateContainerPath "NVIDIA ld-cache folder")
  (if maxEnvironmentEntries < environment.length then .error (.validation "Too many NVIDIA environment entries")
    else .ok ())
  (if ¬ writeEnvironment ∧ environment ≠ [] then
    .error (.validation "NVIDIA environment entries require environment injection to be enabled") else .ok ())
  environment.forM validateEnvironmentEntry
  (if maxMutationBytes < totalBytes folders environment then
    .error (.validation "NVIDIA rootfs configuration exceeds 1 MiB") else .ok ())

end Validation

section Merging

/-- The line gives a value to the key. -/
def assigns (key line : Text) : Bool := (key ++ ['=']).isPrefixOf line

def setVariable (lines : List Text) (entry : Text × Text) : List Text :=
  lines.filter (fun line => !assigns entry.1 line) ++ [entry.1 ++ '=' :: entry.2]

def environmentContent (lines : List Text) : Text :=
  if lines = [] then [] else Text.joinedLines lines ++ ['\n']

def mergeEnvironment (existing : Text) (environment : List (Text × Text)) : Text :=
  environmentContent (environment.foldl setVariable (Text.lines existing))

end Merging

section Configuration

/-- A command in the guest's tree, and what it gets on its standard input. -/
structure RootfsCommand where
  command : List String
  stdin : Option Text
  deriving DecidableEq

structure Output where
  success : Bool
  stdout : ByteArray
  message : String

abbrev Runs := Calls NspawnError RootfsCommand fun _ => Output

def catEnvironment : RootfsCommand := ⟨["cat", "/etc/environment"], none⟩

def decodeExisting (output : Output) : Except NspawnError Text :=
  if ¬ output.success then .ok []
  else if maxMutationBytes < output.stdout.size then
    .error (.validation "Existing /etc/environment exceeds 1 MiB")
  else match String.fromUTF8? output.stdout with
    | some text => .ok text.toList
    | none => .error (.validation "Existing /etc/environment is not valid UTF-8")

def readEnvironment : Runs Text := do
  let output ← Calls.ask catEnvironment
  .done (decodeExisting output)

def writeScript (createParent : Bool) : String :=
  if createParent then
    "target=$1; install -d -m 0755 \"$\x7btarget%/*\x7d\"; [ ! -L \"$target\" ]; cat > \"$target\"; chmod 0644 \"$target\""
  else "target=$1; [ ! -L \"$target\" ]; cat > \"$target\"; chmod 0644 \"$target\""

def writeSystemFile (target : String) (createParent : Bool) (content : Text) : RootfsCommand :=
  ⟨["sh", "-eu", "-c", writeScript createParent, "_", target], some content⟩

/-- Each folder once, in the order of the first mention. -/
def ldCacheContent (folders : List Text) : Text := folders.eraseDups.flatMap (· ++ ['\n'])

def ldconfig : RootfsCommand := ⟨["ldconfig"], none⟩

def warningUnless (output : Output) (text : String) : List String :=
  if output.success then [] else [s!"{text}: {output.message}"]

def configureLdCache (folders : List Text) : Runs (List String) := do
  let written ← Calls.ask (writeSystemFile "/etc/ld.so.conf.d/lasper-nvidia.conf" true (ldCacheContent folders))
  if written.success then
    let output ← Calls.ask ldconfig
    return warningUnless output "WARNING: ldconfig failed after NVIDIA configuration"
  else return warningUnless written "WARNING: Failed to write NVIDIA ld.so.conf"

def configureEnvironment (environment : List (Text × Text)) : Runs (List String) := do
  let existing ← readEnvironment
  let content := mergeEnvironment existing environment
  if maxMutationBytes < content.byteLen then
    .done (.error (.validation "NVIDIA environment output exceeds 1 MiB"))
  else
    let output ← Calls.ask (writeSystemFile "/etc/environment" false content)
    return warningUnless output "WARNING: Failed to write NVIDIA environment"

def configureNvidiaRootfs (ldCacheFolders : List Text) (environment : List (Text × Text)) (writeEnvironment : Bool) :
    Runs (List String) := do
  Calls.done (validateNvidiaConfig ldCacheFolders environment writeEnvironment)
  let ldWarnings ← (if ldCacheFolders = [] then pure [] else configureLdCache ldCacheFolders)
  let environmentWarnings ← (if writeEnvironment then configureEnvironment environment else pure [])
  return ldWarnings ++ environmentWarnings

end Configuration

section Writes

/-- The state is the text that was read last. -/
def rootfsService : Service NspawnError RootfsCommand (fun _ => Output) (Option Text) where
  others s t := s = t
  answers c s r t := if c = catEnvironment then t = (r.bind decodeExisting).toOption else t = s

/-- What goes to the file is the text that was read, with the variables merged into it. -/
def MergesOnly (environment : List (Text × Text)) (s : Option Text) (c : RootfsCommand) : Prop :=
  c.command = (writeSystemFile "/etc/environment" false []).command →
    ∃ existing, s = some existing ∧ c.stdin = some (mergeEnvironment existing environment)

variable {environment : List (Text × Text)} {P : Option Text → Prop}

theorem stable_rootfs : Calls.Stable rootfsService P := by
  rintro s t hs rfl
  exact hs

theorem triple_other {c : RootfsCommand} (hcommand : c.command ≠ (writeSystemFile "/etc/environment" false []).command) :
    Calls.Triple rootfsService (MergesOnly environment) (fun _ => True) (Calls.ask c) fun _ _ => True :=
  Calls.triple_ask stable_rootfs (fun _ _ h => absurd h hcommand) fun _ _ _ _ _ => trivial

theorem triple_readEnvironment : Calls.Triple rootfsService (MergesOnly environment) (fun _ => True) readEnvironment
    fun existing s => s = some existing := by
  have hcat : catEnvironment.command ≠ (writeSystemFile "/etc/environment" false []).command := by
    simp [catEnvironment, writeSystemFile]
  have hask : Calls.Triple rootfsService (MergesOnly environment) (fun _ => True) (Calls.ask catEnvironment)
      fun output s => s = (decodeExisting output).toOption := by
    apply Calls.triple_ask stable_rootfs fun _ _ h => absurd h hcat
    intro s output t _ hanswer
    simpa [rootfsService, Except.bind] using hanswer
  apply hask.bind
  intro output
  apply Calls.triple_done
  rintro existing hexisting s rfl
  rw [hexisting]
  rfl

theorem triple_configureEnvironment : Calls.Triple rootfsService (MergesOnly environment) (fun _ => True)
    (configureEnvironment environment) fun _ _ => True := by
  apply triple_readEnvironment.bind
  intro existing
  apply Calls.triple_ite
  · exact fun _ => Calls.triple_done fun _ _ _ _ => trivial
  · intro _
    apply Calls.Triple.bind
    · apply Calls.triple_ask stable_rootfs
      · intro s hs _
        exact ⟨existing, hs, rfl⟩
      · exact fun _ _ _ _ _ => trivial
    · exact fun _ => Calls.triple_pure fun _ _ => trivial

theorem triple_configureLdCache (folders : List Text) : Calls.Triple rootfsService (MergesOnly environment)
    (fun _ => True) (configureLdCache folders) fun _ _ => True := by
  apply Calls.Triple.bind (triple_other (by simp [writeSystemFile]))
  intro written
  apply Calls.triple_ite
  · intro _
    apply Calls.Triple.bind (triple_other (by simp [ldconfig, writeSystemFile]))
    exact fun _ => Calls.triple_pure fun _ _ => trivial
  · exact fun _ => Calls.triple_pure fun _ _ => trivial

/-- In every run, the file is only ever written with what was read, merged. -/
theorem triple_configureNvidiaRootfs (folders : List Text) (writeEnvironment : Bool) :
    Calls.Triple rootfsService (MergesOnly environment) (fun _ => True)
      (configureNvidiaRootfs folders environment writeEnvironment) fun _ _ => True := by
  have hld : Calls.Triple rootfsService (MergesOnly environment) (fun _ => True)
      (if folders = [] then pure [] else configureLdCache folders) fun _ _ => True := by
    apply Calls.triple_ite
    · exact fun _ => Calls.triple_pure fun _ _ => trivial
    · exact fun _ => triple_configureLdCache folders
  have henvironment : Calls.Triple rootfsService (MergesOnly environment) (fun _ => True)
      (if writeEnvironment then configureEnvironment environment else pure []) fun _ _ => True := by
    apply Calls.triple_ite
    · exact fun _ => triple_configureEnvironment
    · exact fun _ => Calls.triple_pure fun _ _ => trivial
  apply Calls.Triple.bind (Calls.triple_done fun _ _ _ _ => trivial)
  intro _
  apply hld.bind
  intro _
  apply henvironment.bind
  exact fun _ => Calls.triple_pure fun _ _ => trivial

end Writes

section Merged

/-- The line gives a value to one of the keys. -/
def isManaged (environment : List (Text × Text)) (line : Text) : Bool := environment.any fun entry => assigns entry.1 line

/-- The value that was asked for last. -/
def lastValue (environment : List (Text × Text)) (key : Text) : Option Text :=
  (environment.reverse.find? fun entry => entry.1 = key).map (·.2)

/-- What a merge should do to the file. -/
structure Merged (existing : Text) (environment : List (Text × Text)) (content : Text) : Prop where
  kept : (Text.lines content).filter (fun line => !isManaged environment line) =
    (Text.lines existing).filter fun line => !isManaged environment line
  assigned : ∀ key value, lastValue environment key = some value →
    (Text.lines content).filter (assigns key) = [key ++ '=' :: value]
  again : mergeEnvironment content environment = content

/-- Lines that are kept do not end in a carriage return. -/
def NoReturns (existing : Text) (environment : List (Text × Text)) : Prop :=
  ∀ line ∈ Text.lines existing, isManaged environment line = false → line.getLast? ≠ some '\r'

variable {environment : List (Text × Text)} {lines : List Text} {line key value existing : Text}

theorem isManaged_concat (entry : Text × Text) :
    isManaged (environment ++ [entry]) line = (isManaged environment line || assigns entry.1 line) := by
  simp [isManaged]

/-- The lines that are kept, and behind them what the entries make of no lines. -/
theorem foldl_setVariable (lines : List Text) (environment : List (Text × Text)) :
    environment.foldl setVariable lines =
      lines.filter (fun line => !isManaged environment line) ++ environment.foldl setVariable [] := by
  induction environment using List.reverseRecOn with
  | nil => simp [isManaged]
  | append_singleton environment entry ih =>
    rw [List.foldl_concat, List.foldl_concat, ih, setVariable, setVariable, List.filter_append, List.append_assoc,
      List.filter_filter]
    congr 2
    funext line
    rw [isManaged_concat, Bool.not_or, Bool.and_comm]

theorem assigns_self (key value : Text) : assigns key (key ++ '=' :: value) = true := by
  simp [assigns]

theorem assigns_iff : assigns key line = true ↔ ∃ value, line = key ++ '=' :: value := by
  unfold assigns
  rw [List.isPrefixOf_iff_prefix]
  constructor
  · rintro ⟨value, rfl⟩
    exact ⟨value, by simp⟩
  · rintro ⟨value, rfl⟩
    exact ⟨value, by simp⟩

/-- A line gives a value to one key at most. -/
theorem assigns_unique {other : Text} (hkey : '=' ∉ key) (hother : '=' ∉ other) (h : assigns key line = true)
    (h' : assigns other line = true) : key = other := by
  obtain ⟨value, rfl⟩ := assigns_iff.mp h
  obtain ⟨more, heq⟩ := assigns_iff.mp h'
  have hfirst := Text.splitOnce_append hkey value
  rw [heq, Text.splitOnce_append hother more] at hfirst
  exact (Prod.mk.inj (Option.some.inj hfirst)).1.symm

/-- What the entries say of one key. -/
theorem filter_assigns (hkeys : ∀ entry ∈ environment, '=' ∉ entry.1) (hkey : '=' ∉ key) :
    (environment.foldl setVariable []).filter (assigns key) =
      ((lastValue environment key).map fun value => key ++ '=' :: value).toList := by
  induction environment using List.reverseRecOn with
  | nil => rfl
  | append_singleton environment entry ih =>
    have hentry := hkeys entry (List.mem_append_right _ List.mem_cons_self)
    have hbefore := ih fun other hother => hkeys other (List.mem_append_left _ hother)
    rw [List.foldl_concat, setVariable, List.filter_append, List.filter_filter]
    by_cases hsame : entry.1 = key
    · have hnone : (environment.foldl setVariable []).filter (fun line => assigns key line && !assigns entry.1 line) = [] := by
        rw [hsame, List.filter_eq_nil_iff]
        simp
      have hlast : lastValue (environment ++ [entry]) key = some entry.2 := by
        simp [lastValue, hsame]
      rw [hnone, hlast, hsame, List.nil_append, List.filter_cons_of_pos (assigns_self key entry.2)]
      rfl
    · have hothers : (environment.foldl setVariable []).filter (fun line => assigns key line && !assigns entry.1 line) =
          (environment.foldl setVariable []).filter (assigns key) := by
        apply List.filter_congr
        intro line _
        cases hline : assigns key line with
        | false => rfl
        | true =>
          have hnot : assigns entry.1 line = false := by
            by_contra hassigns
            exact hsame (assigns_unique hentry hkey (by simpa using hassigns) hline)
          rw [hnot]
          rfl
      have hnot : ¬ assigns key (entry.1 ++ '=' :: entry.2) = true :=
        fun hassigns => hsame (assigns_unique hentry hkey (assigns_self entry.1 entry.2) hassigns)
      have hlast : lastValue (environment ++ [entry]) key = lastValue environment key := by
        simp [lastValue, hsame]
      rw [hothers, hbefore, hlast, List.filter_cons_of_neg hnot, List.filter_nil, List.append_nil]

/-- Every line that the entries make is one of theirs. -/
theorem mem_foldl_setVariable (h : line ∈ environment.foldl setVariable []) :
    ∃ entry ∈ environment, line = entry.1 ++ '=' :: entry.2 := by
  induction environment using List.reverseRecOn with
  | nil => cases h
  | append_singleton environment entry ih =>
    rw [List.foldl_concat, setVariable] at h
    rcases List.mem_append.mp h with h | h
    · obtain ⟨other, hother, hline⟩ := ih (List.mem_filter.mp h).1
      exact ⟨other, List.mem_append_left _ hother, hline⟩
    · exact ⟨entry, List.mem_append_right _ List.mem_cons_self, List.mem_singleton.mp h⟩

/-- The lines of an entry that passes the validation are lines. -/
structure PlainEntry (entry : Text × Text) : Prop where
  key : '=' ∉ entry.1
  newline : '\n' ∉ entry.1 ++ '=' :: entry.2
  carriage : '\r' ∉ entry.1 ++ '=' :: entry.2

theorem validateEnvironmentEntry_plain {entry : Text × Text} (h : validateEnvironmentEntry entry = .ok ()) :
    PlainEntry entry := by
  unfold validateEnvironmentEntry at h
  split_ifs at h with hbad
  rw [not_or, not_or, not_not] at hbad
  obtain ⟨hkey, -, hvalue⟩ := hbad
  have hletter : ∀ c ∈ entry.1, (isKeyStart c || c.isDigit) = true := by
    simp only [isEnvironmentKey, Bool.and_eq_true, List.all_eq_true] at hkey
    intro c hc
    cases hkeyText : entry.1 with
    | nil =>
      rw [hkeyText] at hc
      cases hc
    | cons d rest =>
      rw [hkeyText] at hc hkey
      rcases List.mem_cons.mp hc with rfl | hc
      · have hstart : isKeyStart c = true := by simpa using hkey.1.2
        rw [hstart]
        rfl
      · exact hkey.2 c hc
  have hprintable : ∀ c, isControl c = true → c ∉ entry.2 := by
    intro c hc hmem
    exact hvalue (List.any_eq_true.mpr ⟨c, hmem, hc⟩)
  have hkeyNot : ∀ c, (isKeyStart c || c.isDigit) = false → c ∉ entry.1 := by
    intro c hc hmem
    rw [hletter c hmem] at hc
    cases hc
  constructor
  · exact hkeyNot '=' (by decide)
  · simp only [List.mem_append, List.mem_cons, not_or]
    exact ⟨hkeyNot _ (by decide), by decide, hprintable _ (by decide)⟩
  · simp only [List.mem_append, List.mem_cons, not_or]
    exact ⟨hkeyNot _ (by decide), by decide, hprintable _ (by decide)⟩

theorem validateNvidiaConfig_plain {folders : List Text} {writeEnvironment : Bool}
    (h : validateNvidiaConfig folders environment writeEnvironment = .ok ()) : ∀ entry ∈ environment, PlainEntry entry := by
  unfold validateNvidiaConfig at h
  obtain ⟨_, -, h⟩ := bind_ok h
  obtain ⟨_, -, h⟩ := bind_ok h
  obtain ⟨_, -, h⟩ := bind_ok h
  obtain ⟨_, -, h⟩ := bind_ok h
  obtain ⟨_, hentries, h⟩ := bind_ok h
  exact fun entry hentry => validateEnvironmentEntry_plain (forM_ok hentries entry hentry)

theorem environmentContent_eq (lines : List Text) : environmentContent lines = Text.terminated lines := by
  unfold environmentContent
  split_ifs with hempty
  · rw [hempty]
    rfl
  · exact Text.joinedLines_newline hempty

theorem lines_environmentContent (h : ∀ line ∈ lines, '\n' ∉ line) :
    Text.lines (environmentContent lines) = lines.map Text.dropReturn := by
  have hlines := @Text.lines_terminated lines [] h List.not_mem_nil
  rwa [List.append_nil, if_pos rfl, List.append_nil, ← environmentContent_eq] at hlines

section Content

variable (hplain : ∀ entry ∈ environment, PlainEntry entry)
include hplain

omit hplain in
theorem own_managed : ∀ line ∈ environment.foldl setVariable [], isManaged environment line = true := by
  intro line hline
  obtain ⟨entry, hentry, rfl⟩ := mem_foldl_setVariable hline
  exact List.any_eq_true.mpr ⟨entry, hentry, assigns_self entry.1 entry.2⟩

theorem own_dropReturn : (environment.foldl setVariable []).map Text.dropReturn = environment.foldl setVariable [] := by
  have hsame : ∀ line ∈ environment.foldl setVariable [], Text.dropReturn line = line := by
    intro line hline
    obtain ⟨entry, hentry, rfl⟩ := mem_foldl_setVariable hline
    exact if_neg fun hlast => (hplain entry hentry).carriage (List.mem_of_getLast? hlast)
  rw [List.map_congr_left hsame, List.map_id']

/-- The lines of the file that is written. -/
theorem lines_mergeEnvironment (existing : Text) : Text.lines (mergeEnvironment existing environment) =
    ((Text.lines existing).filter fun line => !isManaged environment line).map Text.dropReturn ++
      environment.foldl setVariable [] := by
  rw [mergeEnvironment, foldl_setVariable, lines_environmentContent, List.map_append, own_dropReturn hplain]
  intro line hline
  rcases List.mem_append.mp hline with hline | hline
  · exact Text.newline_notMem_lines (List.mem_filter.mp hline).1
  · obtain ⟨entry, hentry, rfl⟩ := mem_foldl_setVariable hline
    exact (hplain entry hentry).newline

omit hplain in
theorem filter_own : (environment.foldl setVariable []).filter (fun line => !isManaged environment line) = [] := by
  rw [List.filter_eq_nil_iff]
  intro line hline
  rw [own_managed line hline]
  exact Bool.false_ne_true

omit hplain in
theorem isManaged_dropReturn (h : isManaged environment line = false) :
    isManaged environment (Text.dropReturn line) = false := by
  have hbegin : Text.dropReturn line <+: line := by
    unfold Text.dropReturn
    split_ifs
    · exact List.dropLast_prefix line
    · exact List.prefix_refl line
  by_contra hmanaged
  obtain ⟨entry, hentry, hassigns⟩ := List.any_eq_true.mp (Bool.not_eq_false _ ▸ hmanaged)
  have hline : assigns entry.1 line = true :=
    List.isPrefixOf_iff_prefix.mpr ((List.isPrefixOf_iff_prefix.mp hassigns).trans hbegin)
  rw [isManaged, List.any_eq_false] at h
  exact h entry hentry hline

/-- The merge keeps its promise exactly when no line that it keeps ends in a carriage return. -/
theorem merged_iff (existing : Text) :
    Merged existing environment (mergeEnvironment existing environment) ↔ NoReturns existing environment := by
  have hlines := lines_mergeEnvironment hplain existing
  generalize hkept : (Text.lines existing).filter (fun line => !isManaged environment line) = kept at hlines
  have hunmanaged : ∀ line ∈ kept, isManaged environment line = false := by
    intro line hline
    rw [← hkept] at hline
    simpa using (List.mem_filter.mp hline).2
  have hreturns : (Text.lines (mergeEnvironment existing environment)).filter (fun line => !isManaged environment line) =
      kept.map Text.dropReturn := by
    rw [hlines, List.filter_append, filter_own, List.append_nil, List.filter_eq_self]
    intro line hline
    obtain ⟨before, hbefore, rfl⟩ := List.mem_map.mp hline
    rw [isManaged_dropReturn (hunmanaged before hbefore)]
    rfl
  constructor
  · intro hmerged line hline hnot hlast
    have hsame : kept.map Text.dropReturn = kept.map id := by
      rw [← hreturns, hmerged.kept, hkept, List.map_id]
    have hmem : line ∈ kept := by
      rw [← hkept]
      exact List.mem_filter.mpr ⟨hline, by rw [hnot]; rfl⟩
    have hkeep := List.map_inj_left.mp hsame line hmem
    rw [Text.dropReturn, if_pos hlast] at hkeep
    have hlength := congrArg List.length hkeep
    have hne : line ≠ [] := by
      rintro rfl
      cases hlast
    have hpos := List.length_pos_of_ne_nil hne
    rw [List.length_dropLast, id] at hlength
    omega
  · intro hno
    have hsame : kept.map Text.dropReturn = kept := by
      have hkeep : ∀ line ∈ kept, Text.dropReturn line = line := by
        intro line hline
        apply if_neg
        apply hno line _ (hunmanaged line hline)
        rw [← hkept] at hline
        exact (List.mem_filter.mp hline).1
      rw [List.map_congr_left hkeep, List.map_id']
    rw [hsame] at hlines hreturns
    constructor
    · rw [hreturns, hkept]
    · intro key value hvalue
      obtain ⟨entry, hentry, hfound⟩ := Option.map_eq_some_iff.mp hvalue
      have hmem : entry ∈ environment := List.mem_reverse.mp (List.mem_of_find?_eq_some hentry)
      have hkey : entry.1 = key := by simpa using List.find?_some hentry
      have hnone : kept.filter (assigns key) = [] := by
        rw [List.filter_eq_nil_iff]
        intro line hline hassigns
        have hnot := hunmanaged line hline
        rw [isManaged, List.any_eq_false] at hnot
        exact hnot entry hmem (by rw [hkey]; exact hassigns)
      rw [hlines, List.filter_append, hnone, List.nil_append,
        filter_assigns (fun entry hentry => (hplain entry hentry).key) (by rw [← hkey]; exact (hplain entry hmem).key), hvalue]
      rfl
    · rw [mergeEnvironment, hlines, foldl_setVariable, List.filter_append, filter_own, List.append_nil]
      have hfilter : kept.filter (fun line => !isManaged environment line) = kept := by
        rw [List.filter_eq_self]
        intro line hline
        rw [hunmanaged line hline]
        rfl
      rw [hfilter, mergeEnvironment, foldl_setVariable (Text.lines existing), hkept]

end Content

/-- The file is written only with the merge of what was read, and the merge keeps the other lines, sets each
key once and can be repeated exactly when no line that it keeps ends in a carriage return. -/
theorem configureNvidiaRootfs_merges_iff {folders : List Text}
    (hvalid : validateNvidiaConfig folders environment true = .ok ()) :
    Calls.Triple rootfsService (MergesOnly environment) (fun _ => True)
      (configureNvidiaRootfs folders environment true) (fun _ _ => True) ∧
    ∀ existing, Merged existing environment (mergeEnvironment existing environment) ↔ NoReturns existing environment :=
  ⟨triple_configureNvidiaRootfs folders true, merged_iff (validateNvidiaConfig_plain hvalid)⟩

def visibleDevices : List (Text × Text) := [("NVIDIA_VISIBLE_DEVICES".toList, "void".toList)]

/-- A variable is set twice, and the file assigns it twice already. -/
def repeatedDevices : List (Text × Text) :=
  [("NVIDIA_VISIBLE_DEVICES".toList, "void".toList), ("NVIDIA_DRIVER_CAPABILITIES".toList, "all".toList),
    ("NVIDIA_VISIBLE_DEVICES".toList, "0".toList)]

def assignedText : Text := "NVIDIA_VISIBLE_DEVICES=all\nLANG=C\nNVIDIA_VISIBLE_DEVICES=none\n".toList

theorem configureNvidiaRootfs_merges_visible :
    validateNvidiaConfig [] repeatedDevices true = .ok () ∧
      Merged assignedText repeatedDevices (mergeEnvironment assignedText repeatedDevices) ∧
      mergeEnvironment assignedText repeatedDevices =
        "LANG=C\nNVIDIA_DRIVER_CAPABILITIES=all\nNVIDIA_VISIBLE_DEVICES=0\n".toList := by
  have hvalid : validateNvidiaConfig [] repeatedDevices true = .ok () := rfl
  refine ⟨hvalid, ((configureNvidiaRootfs_merges_iff hvalid).2 assignedText).mpr ?_, by decide +kernel⟩
  unfold NoReturns
  decide +kernel

/-- A line that ends in a carriage return changes once more when the merge is repeated. -/
theorem merge_not_idempotent :
    validateNvidiaConfig [] visibleDevices true = .ok () ∧
      mergeEnvironment (mergeEnvironment "LANG=C\r".toList visibleDevices) visibleDevices ≠
        mergeEnvironment "LANG=C\r".toList visibleDevices ∧
      ¬ Merged "LANG=C\r".toList visibleDevices (mergeEnvironment "LANG=C\r".toList visibleDevices) := by
  have hagain : mergeEnvironment (mergeEnvironment "LANG=C\r".toList visibleDevices) visibleDevices ≠
      mergeEnvironment "LANG=C\r".toList visibleDevices := by decide +kernel
  exact ⟨rfl, hagain, fun hmerged => hagain hmerged.again⟩

end Merged

end Lasper.Rootfs
