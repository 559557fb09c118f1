import Lasper.Config.Paths
import Lasper.Lib.Joined
import Lasper.Lib.Traced

/-! The accounts of a new root file system. Each is made by commands that run inside it; what a
command answers may depend on everything that was run before. A password goes to one command,
through its input. -/

namespace Lasper.Rootfs.Users

open Lib Traced Config

section Validation

inductive UserValidationError
  | emptyUsername
  | usernameTooLong
  | usernameNotAscii
  | usernameInvalidStart
  | usernameInvalidCharacters
  | rootUid
  | shellWhitespace
  | shellInvalidCharacters
  | shellNotAbsolute
  | shellRelativeComponent
  | shellMissingExecutable
  deriving DecidableEq

def UserValidationError.text : UserValidationError → String
  | .emptyUsername => "Username cannot be empty"
  | .usernameTooLong => "Username is too long"
  | .usernameNotAscii => "Username must be ASCII"
  | .usernameInvalidStart => "Username must start with a letter or '_'"
  | .usernameInvalidCharacters => "Username contains invalid characters"
  | .rootUid => "Regular users cannot request uid 0"
  | .shellWhitespace => "Login shell cannot contain leading or trailing whitespace"
  | .shellInvalidCharacters => "Login shell contains invalid characters"
  | .shellNotAbsolute => "Login shell must be an absolute path"
  | .shellRelativeComponent => "Login shell path must not contain relative components"
  | .shellMissingExecutable => "Login shell must include an executable path"

def isUsernameChar (c : Char) : Bool := c.isAlphanum || c = '_' || c = '-'

/-- The characters after the first; the last may be a dollar sign. -/
def usernameTail : Text → Bool
  | [] => true
  | c :: rest => (isUsernameChar c || (c = '$' && rest = [])) && usernameTail rest

def validateLoginUsername (name : Text) : Except UserValidationError Unit :=
  match name with
  | [] => .error .emptyUsername
  | first :: rest =>
    if 32 < name.byteLen then .error .usernameTooLong
    else if !name.all fun c => c.toNat < 128 then .error .usernameNotAscii
    else if !(first.isAlpha || first = '_') then .error .usernameInvalidStart
    else if usernameTail rest then .ok ()
    else .error .usernameInvalidCharacters

def isSafeShellPathChar (c : Char) : Bool := c.isAlphanum || c ∈ ['/', '.', '_', '-', '+']

def isNormal : Component → Bool
  | .normal _ => true
  | _ => false

def isPlain : Component → Bool
  | .rootDir | .normal _ => true
  | _ => false

def validateLoginShell (shell : Text) : Except UserValidationError Unit :=
  if shell = [] then .ok ()
  else if shell.trim ≠ shell then .error .shellWhitespace
  else if 255 < shell.byteLen || ':' ∈ shell || shell.any isControl || !shell.all isSafeShellPathChar then
    .error .shellInvalidCharacters
  else if !Path.isAbsolute shell then .error .shellNotAbsolute
  else if !(Path.components shell).all isPlain then .error .shellRelativeComponent
  else if !(Path.components shell).any isNormal then .error .shellMissingExecutable
  else .ok ()

structure CreateUser where
  username : Text
  uid : Option ℕ
  sudoer : Bool
  shell : Text

def CreateUser.validate (user : CreateUser) : Except UserValidationError Unit :=
  match validateLoginUsername user.username with
  | .error error => .error error
  | .ok () => if user.uid = some 0 then .error .rootUid else validateLoginShell user.shell

def CreateUser.loginShell (user : CreateUser) : Text :=
  if user.shell = [] then "/bin/bash".toList else user.shell

def maxChpasswdSecretBytes : ℕ := 4096

inductive SecretValidationError
  | tooLong
  | containsControlCharacter
  deriving DecidableEq

def SecretValidationError.message (label : String) : SecretValidationError → String
  | .tooLong => s!"{label} cannot exceed {maxChpasswdSecretBytes} bytes"
  | .containsControlCharacter => s!"{label} cannot contain control characters"

def validateChpasswdSecret (secret : Text) : Except SecretValidationError Unit :=
  if maxChpasswdSecretBytes < secret.byteLen then .error .tooLong
  else if secret.any isControl then .error .containsControlCharacter
  else .ok ()

end Validation

/-! ## Commands -/

section Commands

structure Output where
  success : Bool
  status : String
  stdout : Text
  stderr : Text
  deriving DecidableEq

/-- A command that was run, with its input. -/
structure Call where
  command : List Text
  stdin : Option Text
  deriving DecidableEq

inductive NspawnError
  | validation (message : String)
  | io (error : String)
  | commandFailed (context command : String) (output : Output)
  | runtime (message : String)

/-- What a command gives after the calls before it. -/
abbrev Runner := List Call → Call → Except String Output

abbrev Session (α : Type) := Traced (List Call) NspawnError α

def commandError (output : Output) : String :=
  if output.stderr.trim = [] then s!"process exited with {output.status}"
  else String.ofList output.stderr.trim

variable (runner : Runner)

def run (command : List String) (stdin : Option Text) : Session (Except String Output) := fun calls =>
  let call : Call := ⟨command.map String.toList, stdin⟩
  ⟨[calls ++ [call]], calls ++ [call], .ok (runner calls call)⟩

def useraddCommand (user : CreateUser) : List String :=
  ["useradd", "-m"] ++ (user.uid.elim [] fun uid => ["--uid", toString uid]) ++
    ["-s", String.ofList user.loginShell, String.ofList user.username]

/-- The policy is written beside the others, checked, and put in place of one that is managed. -/
def sudoersScript : String :=
  "grep -Eq '^[[:space:]]*([@#]includedir)[[:space:]]+\"?(/etc/)?sudoers\\.d/?\"?([[:space:]]|$)' " ++
  "/etc/sudoers || " ++
  "\x7b echo '/etc/sudoers does not include /etc/sudoers.d' >&2; exit 1; \x7d; " ++
  "command -v visudo >/dev/null || \x7b echo 'visudo is unavailable' >&2; exit 1; \x7d; " ++
  "LC_ALL=C visudo -cf /etc/sudoers >/dev/null; " ++
  "target=/etc/sudoers.d/90-lasper-$1; " ++
  "install -d -m 0750 /etc/sudoers.d; " ++
  "[ ! -L \"$target\" ]; " ++
  "if [ -e \"$target\" ]; then head -n 1 \"$target\" | " ++
  "grep -Fx '# Managed by Lasper: sudo access for provisioned users' >/dev/null || " ++
  "\x7b echo 'refusing to replace an unmanaged sudoers policy' >&2; exit 1; \x7d; fi; " ++
  "tmp=$(mktemp /etc/sudoers.d/.lasper-sudoers.XXXXXX); " ++
  "trap 'rm -f \"$tmp\"' EXIT; cat > \"$tmp\"; chmod 0440 \"$tmp\"; " ++
  "LC_ALL=C visudo -cf \"$tmp\" >/dev/null; mv -f \"$tmp\" \"$target\"; " ++
  "trap - EXIT; LC_ALL=C visudo -cf /etc/sudoers >/dev/null"

def sudoersPolicy (group : String) : Text :=
  s!"# Managed by Lasper: sudo access for provisioned users\n%{group} ALL=(ALL:ALL) ALL\n".toList

def usermodCommand (group : String) (username : Text) : List String :=
  ["usermod", "-aG", group, String.ofList username]

def policyCommand (group : String) : List String := ["sh", "-eu", "-c", sudoersScript, "_", group]

def joinFailures : List String → String
  | [] => ""
  | [failure] => failure
  | failure :: rest => failure ++ "; " ++ joinFailures rest

/-- A command that has to succeed. -/
def requireSuccess (context command : String) (result : Except String Output) : Session Unit :=
  match result with
  | .error error => fail (.io error)
  | .ok output => if output.success then pure () else fail (.commandFailed context command output)

/-- Why the user could not be added to a group. -/
def refusal (group : String) : Except String Output → Option String
  | .ok output => if output.success then none else some s!"{group}: {commandError output}"
  | .error error => some s!"{group}: {error}"

/-- The groups in their order; the first that the user can be added to gets the policy. -/
def configureSudoerFrom (username : Text) (failures : List String) : List String → Session Unit
  | [] => fail (.runtime (s!"Could not grant sudo access to \"{String.ofList username}\": " ++
      s!"neither sudo nor wheel group was usable ({joinFailures failures})"))
  | group :: groups => do
    let added ← run runner (usermodCommand group username) none
    match refusal group added with
    | some failure => configureSudoerFrom username (failures ++ [failure]) groups
    | none => do
      let written ← run runner (policyCommand group) (some (sudoersPolicy group))
      requireSuccess "write sudoers policy in container" "systemd-nspawn -- write sudoers" written

def configureSudoer (username : Text) : Session Unit :=
  configureSudoerFrom runner username [] ["sudo", "wheel"]

def chpasswdInput (username password : Text) : Text := username ++ ':' :: password ++ ['\n']

def runChpasswd (username password : Text) : Session Output := do
  match validateChpasswdSecret password with
  | .error error => fail (.validation (error.message "password"))
  | .ok () =>
    match ← run runner ["chpasswd"] (some (chpasswdInput username password)) with
    | .error error => fail (.io error)
    | .ok output => pure output

def setRootPassword (password : Text) : Session (List String) :=
  if password = [] then pure []
  else do
    let output ← runChpasswd runner "root".toList password
    if output.success then pure [] else pure [s!"WARNING: chpasswd for root failed: {commandError output}"]

/-- The account and its privileges. -/
def prepareAccount (user : CreateUser) : Session Unit := do
  let created ← run runner (useraddCommand user) none
  requireSuccess "useradd in container" "systemd-nspawn -- useradd ..." created
  if user.sudoer then configureSudoer runner user.username else pure ()

def setUserPassword (user : CreateUser) (password : Option Text) : Session (List String) :=
  match password.filter (· ≠ []) with
  | none => pure []
  | some password => do
    let output ← runChpasswd runner user.username password
    if output.success then pure []
    else pure [s!"WARNING: chpasswd failed for user '{String.ofList user.username}': {commandError output}"]

def createUserInContainer (user : CreateUser) (password : Option Text) : Session (List String) :=
  match user.validate with
  | .error error => fail (.validation error.text)
  | .ok () =>
    match password.elim (.ok ()) validateChpasswdSecret with
    | .error error => fail (.validation (error.message "user password"))
    | .ok () => do
      prepareAccount runner user
      setUserPassword runner user password

end Commands

/-! ## What is run -/

section Runs

variable {runner : Runner} {username : Text} {group : String}

def useraddCall (user : CreateUser) : Call := ⟨(useraddCommand user).map String.toList, none⟩

def usermodCall (username : Text) (group : String) : Call :=
  ⟨(usermodCommand group username).map String.toList, none⟩

def policyCall (group : String) : Call :=
  ⟨(policyCommand group).map String.toList, some (sudoersPolicy group)⟩

def chpasswdCall (username password : Text) : Call :=
  ⟨["chpasswd".toList], some (chpasswdInput username password)⟩

/-- The call is answered with success after the calls before it. -/
def Succeeds (runner : Runner) (before : List Call) (call : Call) : Prop :=
  ∃ output, runner before call = .ok output ∧ output.success = true

/-- How the groups are tried: each is refused, or one takes the user and then the policy. -/
inductive Tried (runner : Runner) (username : Text) (groups : List String) (calls : List Call) :
    Outcome (List Call) NspawnError Unit → Prop
  | refused {outcome} (state : outcome.state = calls ++ groups.map (usermodCall username))
      (failed : outcome.result ≠ .ok ()) : Tried runner username groups calls outcome
  | granted {outcome} (front : List String) (group : String) (later : List String)
      (split : groups = front ++ group :: later)
      (joined : Succeeds runner (calls ++ front.map (usermodCall username)) (usermodCall username group))
      (state : outcome.state =
        calls ++ front.map (usermodCall username) ++ [usermodCall username group, policyCall group])
      (written : outcome.result = .ok () →
        Succeeds runner (calls ++ front.map (usermodCall username) ++ [usermodCall username group])
          (policyCall group)) : Tried runner username groups calls outcome

theorem requireSuccess_ok {context command : String} {result : Except String Output} {calls : List Call}
    (h : (requireSuccess context command result calls).result = .ok ()) :
    ∃ output, result = .ok output ∧ output.success = true := by
  cases result with
  | error error => cases h
  | ok output =>
    cases hsuccess : output.success with
    | true => exact ⟨output, rfl, hsuccess⟩
    | false =>
      simp only [requireSuccess, hsuccess] at h
      cases h

theorem requireSuccess_state (context command : String) (result : Except String Output) (calls : List Call) :
    (requireSuccess context command result calls).state = calls := by
  cases result with
  | error error => rfl
  | ok output =>
    simp only [requireSuccess]
    split <;> rfl

/-- A group that refused the user stands before those that are tried after it. -/
theorem Tried.skip {groups : List String} {calls : List Call}
    {rest outcome : Outcome (List Call) NspawnError Unit}
    (h : Tried runner username groups (calls ++ [usermodCall username group]) rest)
    (hstate : outcome.state = rest.state) (hresult : outcome.result = rest.result) :
    Tried runner username (group :: groups) calls outcome := by
  cases h with
  | refused state failed => exact .refused (by simp [hstate, state]) (by rw [hresult]; exact failed)
  | granted front other later split joined state written =>
    have hfront : calls ++ (group :: front).map (usermodCall username) =
        calls ++ [usermodCall username group] ++ front.map (usermodCall username) := by simp
    refine .granted (group :: front) other later (by rw [split]; rfl) ?_ ?_ ?_
    · rw [hfront]
      exact joined
    · rw [hfront, hstate]
      exact state
    · rw [hfront, hresult]
      exact written

theorem refusal_none {added : Except String Output} (h : refusal group added = none) :
    ∃ output, added = .ok output ∧ output.success = true := by
  cases added with
  | error error => cases h
  | ok output =>
    simp only [refusal] at h
    split at h
    · exact ⟨output, rfl, by assumption⟩
    · cases h

theorem run_bind_state {α : Type} (command : List String) (stdin : Option Text)
    (next : Except String Output → Session α) (calls : List Call) :
    ((run runner command stdin >>= next) calls).state =
      (next (runner calls ⟨command.map String.toList, stdin⟩)
        (calls ++ [⟨command.map String.toList, stdin⟩])).state := rfl

theorem run_bind_result {α : Type} (command : List String) (stdin : Option Text)
    (next : Except String Output → Session α) (calls : List Call) :
    ((run runner command stdin >>= next) calls).result =
      (next (runner calls ⟨command.map String.toList, stdin⟩)
        (calls ++ [⟨command.map String.toList, stdin⟩])).result := rfl

theorem configureSudoerFrom_tried (groups failures : List String) (calls : List Call) :
    Tried runner username groups calls (configureSudoerFrom runner username failures groups calls) := by
  induction groups generalizing failures calls with
  | nil => exact .refused (by simp [configureSudoerFrom, fail]) nofun
  | cons group groups ih =>
    rw [configureSudoerFrom]
    cases hrefusal : refusal group (runner calls (usermodCall username group)) with
    | some failure =>
      rw [usermodCall] at hrefusal
      apply (ih (failures ++ [failure]) (calls ++ [usermodCall username group])).skip
      · rw [run_bind_state, hrefusal]
        rfl
      · rw [run_bind_result, hrefusal]
        rfl
    | none =>
      obtain ⟨output, hadded, hsuccess⟩ := refusal_none hrefusal
      rw [usermodCall] at hrefusal
      refine .granted [] group groups rfl ⟨output, by simpa using hadded, hsuccess⟩ ?_ ?_
      · rw [run_bind_state, hrefusal]
        show ((run runner (policyCommand group) _ >>= _) _).state = _
        rw [run_bind_state, requireSuccess_state]
        simp [usermodCall, policyCall]
      · intro hok
        rw [run_bind_result, hrefusal] at hok
        obtain ⟨written, hwritten, hdone⟩ := requireSuccess_ok hok
        exact ⟨written, by simpa [usermodCall, policyCall] using hwritten, hdone⟩

end Runs

/-! ## Accounts -/

section Accounts

variable {runner : Runner} {user : CreateUser} {call : Call} {calls : List Call}

def Call.program (call : Call) : Option Text := call.command.head?

@[simp] theorem useraddCall_program : (useraddCall user).program = some "useradd".toList := rfl

@[simp] theorem usermodCall_program (username : Text) (group : String) :
    (usermodCall username group).program = some "usermod".toList := rfl

@[simp] theorem policyCall_program (group : String) : (policyCall group).program = some "sh".toList := rfl

@[simp] theorem chpasswdCall_program (username password : Text) :
    (chpasswdCall username password).program = some "chpasswd".toList := rfl

theorem program_ne {other : Call} (h : call.program ≠ other.program) : call ≠ other :=
  fun he => h (by rw [he])

/-- How an account is prepared: without privileges, or with the groups tried after it is made. -/
inductive Prepared (runner : Runner) (user : CreateUser) : Outcome (List Call) NspawnError Unit → Prop
  | plain {outcome} (state : outcome.state = [useraddCall user])
      (made : outcome.result = .ok () → Succeeds runner [] (useraddCall user) ∧ user.sudoer = false) :
      Prepared runner user outcome
  | privileged {outcome} (sudoer : user.sudoer = true) (made : Succeeds runner [] (useraddCall user))
      (tried : Tried runner user.username ["sudo", "wheel"] [useraddCall user] outcome) :
      Prepared runner user outcome

theorem requireSuccess_bind {context command : String} {output : Output} (h : output.success = true)
    (next : Unit → Session Unit) : (requireSuccess context command (.ok output) >>= next) = next () := by
  simp only [requireSuccess, h, if_true]
  rfl

theorem Tried.of_eq {outcome outcome' : Outcome (List Call) NspawnError Unit} {username : Text}
    {groups : List String} (h : Tried runner username groups calls outcome)
    (hstate : outcome'.state = outcome.state)
    (hresult : outcome'.result = outcome.result) : Tried runner username groups calls outcome' := by
  cases h with
  | refused state failed => exact .refused (by rw [hstate, state]) (by rw [hresult]; exact failed)
  | granted front group later split joined state written =>
    exact .granted front group later split joined (by rw [hstate, state]) (by rw [hresult]; exact written)

theorem prepareAccount_prepared : Prepared runner user (prepareAccount runner user []) := by
  cases hcreated : runner [] (useraddCall user) with
  | error error =>
    rw [useraddCall] at hcreated
    apply Prepared.plain
    · rw [prepareAccount, run_bind_state, hcreated]
      rfl
    · intro hok
      rw [prepareAccount, run_bind_result, hcreated] at hok
      cases hok
  | ok output =>
    rw [useraddCall] at hcreated
    cases hsuccess : output.success with
    | false =>
      apply Prepared.plain
      · rw [prepareAccount, run_bind_state, hcreated]
        simp only [requireSuccess, hsuccess]
        rfl
      · intro hok
        rw [prepareAccount, run_bind_result, hcreated] at hok
        simp only [requireSuccess, hsuccess] at hok
        cases hok
    | true =>
      have hmade : Succeeds runner [] (useraddCall user) := ⟨output, hcreated, hsuccess⟩
      cases hsudoer : user.sudoer with
      | false =>
        apply Prepared.plain
        · rw [prepareAccount, run_bind_state, hcreated, requireSuccess_bind hsuccess, hsudoer]
          rfl
        · exact fun _ => ⟨hmade, hsudoer⟩
      | true =>
        apply Prepared.privileged hsudoer hmade
        apply (configureSudoerFrom_tried ["sudo", "wheel"] [] [useraddCall user]).of_eq
        · rw [prepareAccount, run_bind_state, hcreated, requireSuccess_bind hsuccess, hsudoer]
          rfl
        · rw [prepareAccount, run_bind_result, hcreated, requireSuccess_bind hsuccess, hsudoer]
          rfl

/-- A policy is the last that is run for the account, right after the group took the user. -/
theorem Prepared.policies {outcome : Outcome (List Call) NspawnError Unit}
    (h : Prepared runner user outcome) :
    ((∀ group, policyCall group ∉ outcome.state) ∧ (outcome.result = .ok () →
      Succeeds runner [] (useraddCall user) ∧ user.sudoer = false)) ∨
    ∃ earlier group, outcome.state = earlier ++ [usermodCall user.username group, policyCall group] ∧
      (∀ group, policyCall group ∉ earlier) ∧ user.sudoer = true ∧ Succeeds runner [] (useraddCall user) ∧
      Succeeds runner earlier (usermodCall user.username group) ∧ (outcome.result = .ok () →
        Succeeds runner (earlier ++ [usermodCall user.username group]) (policyCall group)) := by
  have hfront (front : List String) (group : String) :
      policyCall group ∉ [useraddCall user] ++ front.map (usermodCall user.username) := by
    intro hmem
    obtain hmem | hmem := List.mem_append.mp hmem
    · exact program_ne (by simp) (List.mem_singleton.mp hmem)
    · obtain ⟨other, -, hother⟩ := List.mem_map.mp hmem
      exact program_ne (by simp) hother
  cases h with
  | plain state made =>
    left
    rw [state]
    exact ⟨hfront [], made⟩
  | privileged sudoer made tried =>
    cases tried with
    | refused state failed =>
      left
      rw [state]
      exact ⟨hfront _, fun hok => absurd hok failed⟩
    | granted front group later split joined state written =>
      right
      exact ⟨_, group, state, hfront front, sudoer, made, joined, written⟩

theorem runChpasswd_state (username password : Text) (calls : List Call) :
    (runChpasswd runner username password calls).state =
      if validateChpasswdSecret password = .ok () then calls ++ [chpasswdCall username password]
      else calls := by
  cases hvalid : validateChpasswdSecret password with
  | error error =>
    rw [runChpasswd, hvalid]
    rfl
  | ok valid =>
    rw [runChpasswd, hvalid]
    simp only [if_true]
    rw [run_bind_state]
    cases runner calls ⟨["chpasswd"].map String.toList, some (chpasswdInput username password)⟩ <;> rfl

/-- What a run does for a password, after the account. -/
def passwordCalls (username : Text) (password : Option Text) : List Call :=
  (password.filter (· ≠ [])).elim [] fun password => [chpasswdCall username password]

theorem setUserPassword_state {password : Option Text}
    (h : password.elim (.ok ()) validateChpasswdSecret = .ok ()) :
    (setUserPassword runner user password calls).state = calls ++ passwordCalls user.username password := by
  cases hgiven : password.filter (· ≠ []) with
  | none =>
    rw [setUserPassword, passwordCalls, hgiven]
    exact (List.append_nil calls).symm
  | some given =>
    obtain ⟨rfl, -⟩ := Option.filter_eq_some_iff.mp hgiven
    rw [setUserPassword, passwordCalls, hgiven]
    have hrun : (runChpasswd runner user.username given calls).state =
        calls ++ [chpasswdCall user.username given] := by
      rw [runChpasswd_state, if_pos (by simpa using h)]
    show ((runChpasswd runner user.username given >>= _) calls).state = calls ++ [_]
    cases hresult : (runChpasswd runner user.username given calls).result with
    | error error => rw [bind_run_error hresult, hrun]
    | ok output =>
      rw [bind_run_ok hresult]
      simp only [hrun]
      split <;> rfl

/-- A run that starts does what the account needs, and the password only once that is done. -/
theorem createUser_state {password : Option Text} (huser : user.validate = .ok ())
    (hpassword : password.elim (.ok ()) validateChpasswdSecret = .ok ()) :
    (createUserInContainer runner user password []).state = (prepareAccount runner user []).state ++
      if (prepareAccount runner user []).result.isOk then passwordCalls user.username password else [] := by
  rw [createUserInContainer, huser]
  simp only [hpassword]
  cases hresult : (prepareAccount runner user []).result with
  | error error => simp [bind_run_error hresult, Except.isOk, Except.toBool]
  | ok done =>
    rw [bind_run_ok hresult, setUserPassword_state hpassword]
    rfl

theorem usernameTail_mem {tail : Text} {c : Char} (h : usernameTail tail = true) (hc : c ∈ tail) :
    isUsernameChar c = true ∨ c = '$' := by
  induction tail with
  | nil => cases hc
  | cons first rest ih =>
    simp only [usernameTail, Bool.and_eq_true, Bool.or_eq_true, decide_eq_true_eq] at h
    obtain rfl | hc := List.mem_cons.mp hc
    · exact h.1.imp id And.left
    · exact ih h.2 hc

theorem validateLoginUsername_mem {name : Text} {c : Char} (h : validateLoginUsername name = .ok ())
    (hc : c ∈ name) :
    isUsernameChar c = true ∨ c = '$' := by
  cases name with
  | nil => cases hc
  | cons first rest =>
    simp only [validateLoginUsername] at h
    split at h <;> try cases h
    split at h <;> try cases h
    split at h <;> try cases h
    split at h <;> try cases h
    obtain rfl | hc := List.mem_cons.mp hc
    · left
      have halpha : c.isAlpha = true ∨ c = '_' := by
        by_cases hletter : c.isAlpha = true
        · exact .inl hletter
        · simp_all
      simp only [isUsernameChar, Char.isAlphanum, Bool.or_eq_true, decide_eq_true_eq]
      obtain halpha | halpha := halpha
      · exact .inl (.inl (.inl halpha))
      · exact .inl (.inr halpha)
    · exact usernameTail_mem (by assumption) hc

theorem validate_username (h : user.validate = .ok ()) : validateLoginUsername user.username = .ok () := by
  rw [CreateUser.validate] at h
  split at h
  · cases h
  · assumption

theorem validateChpasswdSecret_mem {secret : Text} {c : Char} (h : validateChpasswdSecret secret = .ok ())
    (hc : c ∈ secret) : isControl c = false := by
  rw [validateChpasswdSecret] at h
  split at h <;> try cases h
  split at h <;> try cases h
  simp_all

/-- The records of an input: in each line a name, and a password behind a colon. -/
def readCredentials (input : Text) : List (Option (Text × Text)) :=
  (Text.lines input).map (Text.splitOnce ':')

theorem readCredentials_chpasswdInput {username password : Text}
    (huser : validateLoginUsername username = .ok ())
    (hpassword : validateChpasswdSecret password = .ok ()) :
    readCredentials (chpasswdInput username password) = [some (username, password)] := by
  have hname {c : Char} (hc : c ∈ username) := validateLoginUsername_mem huser hc
  have hsecret {c : Char} (hc : c ∈ password) := validateChpasswdSecret_mem hpassword hc
  have hfree {c : Char} (hc : isControl c = true) (hname' : isUsernameChar c = false) (hdollar : c ≠ '$')
      (hcolon : c ≠ ':') : c ∉ username ++ ':' :: password := by
    intro hmem
    obtain hmem | hmem := List.mem_append.mp hmem
    · have := hname hmem
      simp_all
    · obtain rfl | hmem := List.mem_cons.mp hmem
      · exact hcolon rfl
      · simp_all
  have hline : '\n' ∉ username ++ ':' :: password := hfree (by decide) (by decide) (by decide) (by decide)
  have hreturn : '\r' ∉ username ++ ':' :: password := hfree (by decide) (by decide) (by decide) (by decide)
  have hcolon : ':' ∉ username := by
    intro hmem
    have := hname hmem
    revert this
    decide
  have hinput : chpasswdInput username password =
      Text.terminated [username ++ ':' :: password] ++ [] := by
    simp [chpasswdInput]
  have hdrop : Text.dropReturn (username ++ ':' :: password) = username ++ ':' :: password := by
    rw [Text.dropReturn, if_neg fun hlast => hreturn (List.mem_of_getLast? hlast)]
  rw [readCredentials, hinput, Text.lines_terminated (by simpa using hline) (by simp)]
  simp only [List.map_cons, List.map_nil, if_true, List.append_nil, hdrop]
  rw [Text.splitOnce_append hcolon]

/-- The password of the superuser goes the same way, and one that is refused is not given away. -/
theorem setRootPassword_secret (password : Text) (calls : List Call) :
    (setRootPassword runner password calls).state = calls ++
      (if password ≠ [] ∧ validateChpasswdSecret password = .ok () then
        [chpasswdCall "root".toList password] else []) ∧
    (validateChpasswdSecret password = .ok () →
      readCredentials (chpasswdInput "root".toList password) = [some ("root".toList, password)]) := by
  constructor
  · rcases eq_or_ne password [] with rfl | hne
    · simp [setRootPassword, Pure.pure, Traced.pure]
    · have hrun : (setRootPassword runner password calls).state =
          (runChpasswd runner "root".toList password calls).state := by
        rw [setRootPassword, if_neg hne]
        cases hresult : (runChpasswd runner "root".toList password calls).result with
        | error error => rw [bind_run_error hresult]
        | ok output =>
          rw [bind_run_ok hresult]
          dsimp only
          split <;> rfl
      rw [hrun, runChpasswd_state]
      by_cases hvalid : validateChpasswdSecret password = .ok ()
      · rw [if_pos hvalid, if_pos ⟨hne, hvalid⟩]
      · rw [if_neg hvalid, if_neg fun h => hvalid h.2, List.append_nil]
  · exact readCredentials_chpasswdInput (by decide)

/-- Nothing is run for a user or a password that is refused. -/
theorem createUser_refused {password : Option Text} (h : ¬(user.validate = .ok () ∧
      password.elim (.ok ()) validateChpasswdSecret = .ok ())) (calls : List Call) :
    ∃ error, createUserInContainer runner user password calls = ⟨[], calls, .error error⟩ := by
  rw [createUserInContainer]
  cases huser : user.validate with
  | error error => exact ⟨_, rfl⟩
  | ok done =>
    cases hpassword : password.elim (.ok ()) validateChpasswdSecret with
    | error error => exact ⟨_, rfl⟩
    | ok done => exact absurd ⟨huser, hpassword⟩ h

theorem policyCall_injective {group other : String} (h : policyCall group = policyCall other) :
    group = other := by
  have hcommand : (policyCommand group).map String.toList = (policyCommand other).map String.toList :=
    congrArg Call.command h
  exact String.toList_injective (by simpa [policyCommand] using hcommand)

theorem prepared_program (hcall : call ∈ (prepareAccount runner user []).state) :
    call.program ≠ some "chpasswd".toList := by
  have htried (groups : List String)
      (hcall : call ∈ [useraddCall user] ++ groups.map (usermodCall user.username)) :
      call.program ≠ some "chpasswd".toList := by
    obtain hcall | hcall := List.mem_append.mp hcall
    · rw [List.mem_singleton.mp hcall]
      simp
    · obtain ⟨group, -, rfl⟩ := List.mem_map.mp hcall
      simp
  cases @prepareAccount_prepared runner user with
  | plain state made =>
    rw [state] at hcall
    exact htried [] hcall
  | privileged sudoer made tried =>
    cases tried with
    | refused state failed =>
      rw [state] at hcall
      exact htried _ hcall
    | granted front group later split joined state written =>
      rw [state] at hcall
      obtain hcall | hcall := List.mem_append.mp hcall
      · exact htried front hcall
      · simp only [List.mem_cons, List.not_mem_nil, or_false] at hcall
        obtain rfl | rfl := hcall <;> simp

/-- The password of a new account. What is run before it does not depend on it and is not given
it; a password that is accepted then goes to chpasswd, on whose input the user's name and that
password are the only record, and after one that is refused nothing is run. -/
theorem createUser_secret (runner : Runner) (user : CreateUser) :
    ∃ (before : List Call) (reached : Bool),
      (∀ call ∈ before, call.program ≠ some "chpasswd".toList) ∧
      (createUserInContainer runner user none []).state = before ∧
      ∀ password : Text,
        (createUserInContainer runner user (some password) []).state =
          (if validateChpasswdSecret password = .ok () then
            before ++ if reached = true ∧ password ≠ [] then [chpasswdCall user.username password] else []
          else []) ∧
        (reached = true → validateChpasswdSecret password = .ok () →
          readCredentials (chpasswdInput user.username password) = [some (user.username, password)]) := by
  by_cases huser : user.validate = .ok ()
  · refine ⟨(prepareAccount runner user []).state, (prepareAccount runner user []).result.isOk,
      fun call hcall => prepared_program hcall, ?_, fun password => ⟨?_, fun _ hpassword =>
        readCredentials_chpasswdInput (validate_username huser) hpassword⟩⟩
    · rw [createUser_state huser rfl]
      simp [passwordCalls]
    · by_cases hpassword : validateChpasswdSecret password = .ok ()
      · have haccepted : (some password).elim (.ok ()) validateChpasswdSecret = .ok () := hpassword
        rw [createUser_state huser haccepted, if_pos hpassword]
        cases (prepareAccount runner user []).result.isOk with
        | false => simp
        | true =>
          rcases eq_or_ne password [] with rfl | hne
          · simp [passwordCalls, Option.filter]
          · simp [passwordCalls, Option.filter, hne]
      · have hrefused : (some password).elim (.ok ()) validateChpasswdSecret ≠ .ok () := hpassword
        obtain ⟨error, he⟩ := @createUser_refused runner user (some password) (fun h => hrefused h.2) []
        rw [he, if_neg hpassword]
  · have hstate (password : Option Text) : (createUserInContainer runner user password []).state = [] := by
      obtain ⟨error, he⟩ := @createUser_refused runner user password (fun h => huser h.1) []
      rw [he]
    refine ⟨[], false, by simp, hstate none, fun password => ⟨?_, by simp⟩⟩
    rw [hstate]
    simp

theorem policyCall_notMem_passwordCalls {password : Option Text} (group : String) (username : Text) :
    policyCall group ∉ passwordCalls username password := by
  intro hmem
  rw [passwordCalls] at hmem
  cases hgiven : password.filter (· ≠ []) with
  | none =>
    rw [hgiven] at hmem
    cases hmem
  | some given =>
    rw [hgiven] at hmem
    exact program_ne (by simp) (List.mem_singleton.mp hmem)

theorem prepareAccount_first : ∃ rest, (prepareAccount runner user []).state = useraddCall user :: rest := by
  cases @prepareAccount_prepared runner user with
  | plain state made => exact ⟨[], state⟩
  | privileged sudoer made tried =>
    cases tried with
    | refused state failed => exact ⟨_, state⟩
    | granted front group later split joined state written =>
      exact ⟨_, state⟩

/-- The privileges of a new account. The account is made first. A policy is written only for a user
who is to have one and after a group of that name has taken the user, and it is the only one; an
account that is reported as made was made, and a policy was written for it when one was asked for. -/
theorem createUser_privileges (runner : Runner) (user : CreateUser) (password : Option Text) :
    (∀ first ∈ (createUserInContainer runner user password []).state.head?, first = useraddCall user) ∧
    (∀ before group later,
      (createUserInContainer runner user password []).state = before ++ policyCall group :: later →
        user.sudoer = true ∧ (∀ other, policyCall other ∉ before ++ later) ∧
        ∃ earlier, before = earlier ++ [usermodCall user.username group] ∧
          Succeeds runner earlier (usermodCall user.username group)) ∧
    (∀ warnings, (createUserInContainer runner user password []).result = .ok warnings →
      Succeeds runner [] (useraddCall user) ∧ (user.sudoer = true → ∃ before group later,
        (createUserInContainer runner user password []).state = before ++ policyCall group :: later ∧
        Succeeds runner before (policyCall group))) := by
  by_cases haccepted : user.validate = .ok () ∧ password.elim (.ok ()) validateChpasswdSecret = .ok ()
  · obtain ⟨suffix, hstate, hsuffix⟩ : ∃ suffix, (createUserInContainer runner user password []).state =
        (prepareAccount runner user []).state ++ suffix ∧ ∀ group, policyCall group ∉ suffix := by
      refine ⟨_, createUser_state haccepted.1 haccepted.2, fun group => ?_⟩
      split
      · exact policyCall_notMem_passwordCalls group user.username
      · simp
    have hprepared {warnings : List String}
        (hok : (createUserInContainer runner user password []).result = .ok warnings) :
        (prepareAccount runner user []).result = .ok () := by
      rw [createUserInContainer, haccepted.1, haccepted.2] at hok
      obtain ⟨done, hdone, -⟩ := bind_result_ok.mp hok
      exact hdone
    have hfirst : ∀ first ∈ ((prepareAccount runner user []).state ++ suffix).head?, first = useraddCall user := by
      obtain ⟨rest, hrest⟩ := @prepareAccount_first runner user
      rw [hrest]
      exact fun first h => (Option.some.inj h).symm
    rw [hstate]
    refine ⟨hfirst, ?_⟩
    obtain ⟨hnone, hplain⟩ | ⟨earlier, granted, hsplit, hearlier, hsudoer, hmade, hjoined, hwritten⟩ :=
      (@prepareAccount_prepared runner user).policies
    · constructor
      · intro before group later h
        have hmem : policyCall group ∈ (prepareAccount runner user []).state ++ suffix := by simp [h]
        obtain hmem | hmem := List.mem_append.mp hmem
        · exact absurd hmem (hnone group)
        · exact absurd hmem (hsuffix group)
      · intro warnings hok
        obtain ⟨hmade, hsudoer⟩ := hplain (hprepared hok)
        exact ⟨hmade, fun h => by simp [hsudoer] at h⟩
    · have hwhole : (prepareAccount runner user []).state ++ suffix =
          (earlier ++ [usermodCall user.username granted]) ++ policyCall granted :: suffix := by
        simp [hsplit]
      have hfront (group : String) : policyCall group ∉ earlier ++ [usermodCall user.username granted] := by
        intro hmem
        obtain hmem | hmem := List.mem_append.mp hmem
        · exact hearlier group hmem
        · exact program_ne (by simp) (List.mem_singleton.mp hmem)
      constructor
      · intro before group later h
        rw [hwhole, List.append_cons_inj_of_notMem (hfront group) (hsuffix group)] at h
        obtain ⟨rfl, hsame, rfl⟩ := h
        obtain rfl := policyCall_injective hsame
        refine ⟨hsudoer, fun other hmem => ?_, earlier, rfl, hjoined⟩
        obtain hmem | hmem := List.mem_append.mp hmem
        · exact hfront other hmem
        · exact hsuffix other hmem
      · intro warnings hok
        exact ⟨hmade, fun _ => ⟨_, granted, suffix, hwhole, hwritten (hprepared hok)⟩⟩
  · obtain ⟨error, he⟩ := @createUser_refused runner user password haccepted []
    rw [he]
    refine ⟨nofun, ?_, ?_⟩
    · intro before group later h
      simp at h
    · intro warnings hok
      cases hok

end Accounts

end Lasper.Rootfs.Users
