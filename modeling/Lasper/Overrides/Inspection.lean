import Mathlib.Data.Char
import Mathlib.Data.List.Lex
import Mathlib.Data.List.Sort
import Lasper.Lib.Checked
import Lasper.Overrides.Removal

/-! The inspection of a machine's drop-ins, and exactly when it succeeds: every
drop-in can be read, they keep to the budget, and no system call fails. -/

namespace Lasper.Overrides

open Lib Traced Config
open Provisioning (MachineName)

section Inspection

def maxInspectionDropIns : ℕ := 256
def maxInspectionContentBytes : ℕ := 8 * 1024 * 1024

structure SystemdDropIn where
  path : Path
  content : Text

structure DropInReadBudget where
  files : ℕ
  bytes : ℕ

namespace DropInReadBudget

def default : DropInReadBudget := ⟨0, 0⟩

def checkFileCount (budget : DropInReadBudget) : Except NspawnError Unit :=
  if maxInspectionDropIns ≤ budget.files then
    .error (.validation s!"systemd unit inspection exceeds {maxInspectionDropIns} drop-in files")
  else .ok ()

def record (budget : DropInReadBudget) (size : ℕ) : Except NspawnError DropInReadBudget :=
  if maxInspectionContentBytes - budget.bytes < size then
    .error (.validation s!"systemd unit inspection exceeds {maxInspectionContentBytes} bytes of drop-in content")
  else .ok ⟨budget.files + 1, budget.bytes + size⟩

end DropInReadBudget

/-- What follows the last dot of a file name, unless the name starts there. -/
def extension (name : Text) : Option Text :=
  match Text.splitOnce '.' name.reverse with
  | none => none
  | some (after, before) => if before = [] then none else some after.reverse

def Node.isFile : Node → Bool
  | .file _ _ => true
  | _ => false

def isDropIn (node : Node) (name : Text) : Bool := Node.isFile node && extension name = some "conf".toList

def readEntries (dir : Path) : DropInReadBudget → List Text → Host (List SystemdDropIn × DropInReadBudget)
  | budget, [] => do
    callAt (Path.components dir) fun _ => .ok ()
    return ([], budget)
  | budget, name :: names => do
    callAt (Path.components dir) fun _ => .ok ()
    let node ← callAt (Path.components (Path.join dir name)) fun disk => disk.symlinkMetadata (Path.join dir name)
    if isDropIn node name then do
      ofExcept budget.checkFileCount
      let content ← readOverrideContent (Path.join dir name)
      let budget ← ofExcept (budget.record content.byteLen)
      let (others, budget) ← readEntries dir budget names
      return (⟨Path.join dir name, content⟩ :: others, budget)
    else readEntries dir budget names

-- the names in a directory, as the system lists them
variable (listing : Disk → Path → Except IoError (List Text))

def readDropIns (dir : Path) (budget : DropInReadBudget) : Host (List SystemdDropIn × DropInReadBudget) := do
  let names ← caught (systemCall fun disk => listing disk dir)
  match names with
  | .ok names => readEntries dir budget names
  | .error .notFound => return ([], budget)
  | .error error => fail (.io (Path.components dir) error)

/-- The directories that hold system units. -/
structure UnitRoots where
  system : Path
  runtime : Path

def dropInDirName (machine : MachineName) : Text := s!"systemd-nspawn@{machine.text}.service.d".toList

def serviceOverrideDir (roots : UnitRoots) (machine : MachineName) : Path :=
  Path.join roots.system (dropInDirName machine)

def transientServiceOverrideDir (roots : UnitRoots) (machine : MachineName) : Path :=
  Path.join roots.runtime (dropInDirName machine)

def serviceOverridePath (roots : UnitRoots) (machine : MachineName) : Path :=
  Path.join (serviceOverrideDir roots machine) lasperOverrideFile

def parseMachineName (name : String) : Except NspawnError MachineName :=
  (MachineName.new name).mapError .validation

def readUnit (roots : UnitRoots) (machine : MachineName) : Host (List SystemdDropIn) := do
  let (persistent, budget) ← readDropIns listing (serviceOverrideDir roots machine) .default
  let (transient, _) ← readDropIns listing (transientServiceOverrideDir roots machine) budget
  return (persistent ++ transient).insertionSort fun left right => left.path ≤ right.path

end Inspection

section Names

/-- A name that a directory can list. -/
structure IsFileName (name : Text) : Prop where
  nonempty : name ≠ []
  plain : '/' ∉ name
  notSelf : name ≠ ['.']
  notParent : name ≠ ['.', '.']

theorem IsFileName.component {name : Text} (h : IsFileName name) : componentOf name = some (.normal name) := by
  simp [componentOf, h.nonempty, h.notSelf, h.notParent]

theorem fileName_separated (base : Path) {name : Text} (h : IsFileName name) :
    Path.fileName (base ++ '/' :: name) = some name := by
  have hnames : (base ++ '/' :: name).splitOn '/' = base.splitOn '/' ++ [name] := by
    rw [List.splitOn_append_cons_self, List.splitOn_eq_singleton h.plain]
  have hkept : (base.splitOn '/' ++ [name]).filterMap componentOf =
      (base.splitOn '/').filterMap componentOf ++ [.normal name] := by
    rw [List.filterMap_append]
    simp [h.component]
  unfold Path.fileName
  simp only [Path.components, hnames, hkept]
  split_ifs
  · rw [← List.cons_append, List.getLast?_concat]
  · rw [← List.cons_append, List.getLast?_concat]
  · rw [List.getLast?_concat]

theorem fileName_plain {name : Text} (h : IsFileName name) : Path.fileName name = some name := by
  have hnames : name.splitOn '/' = [name] := List.splitOn_eq_singleton h.plain
  simp [Path.fileName, Path.components, hnames, isAbsolute_plain h.plain, h.notSelf, h.component]

theorem fileName_join (dir : Path) {name : Text} (h : IsFileName name) :
    Path.fileName (Path.join dir name) = some name := by
  simp only [Path.join, isAbsolute_plain h.plain, Bool.false_eq_true, if_false]
  split_ifs with hdir
  · obtain rfl | hlast := hdir
    · exact fileName_plain h
    · obtain ⟨base, rfl⟩ := List.getLast?_eq_some_iff.mp hlast
      rw [List.append_assoc]
      exact fileName_separated base h
  · exact fileName_separated dir h

end Names

section Settled

variable {disk : Disk} {s : Scene} {α β : Type} {m n : ℕ} {P Q : Prop} {a : α} {b : β} {p : Host α} {f : α → Host β}

/-- None of the next `n` calls fails of itself. -/
def Unfailing (s : Scene) (n : ℕ) : Prop := ∀ k < n, s.faults (s.clock + k + 1) = none

theorem Calm.elapse (h : Calm disk s) : ∀ n, Calm disk (s.elapse n)
  | 0 => h
  | n + 1 => (h.elapse n).tick

theorem elapse_clock (s : Scene) (n : ℕ) : (s.elapse n).clock = s.clock + n := by
  induction n with
  | zero => rfl
  | succ n ih =>
    show (s.elapse n).clock + 1 = s.clock + (n + 1)
    omega

theorem elapse_faults (s : Scene) (n : ℕ) : (s.elapse n).faults = s.faults := by
  induction n with
  | zero => rfl
  | succ n ih => exact ih

theorem elapse_elapse (s : Scene) (n m : ℕ) : (s.elapse n).elapse m = s.elapse (n + m) := by
  induction m with
  | zero => rfl
  | succ m ih => exact congrArg Scene.tick ih

theorem unfailing_add : Unfailing s (n + m) ↔ Unfailing s n ∧ Unfailing (s.elapse n) m := by
  unfold Unfailing
  rw [elapse_clock, elapse_faults]
  constructor
  · intro h
    refine ⟨fun k hk => h k (by omega), fun k hk => ?_⟩
    have hlater := h (n + k) (by omega)
    rwa [← Nat.add_assoc] at hlater
  · rintro ⟨hfirst, hthen⟩ k hk
    obtain hlt | hle := Nat.lt_or_ge k n
    · exact hfirst k hlt
    · obtain ⟨rest, rfl⟩ := Nat.exists_eq_add_of_le hle
      have hlater := hthen rest (by omega)
      rwa [Nat.add_assoc s.clock] at hlater

/-- The program makes `n` calls and returns `a`, if none of them fails and `P`
holds. Otherwise it fails. -/
structure Settles (disk : Disk) (n : ℕ) (P : Prop) (a : α) (p : Host α) : Prop where
  returns : ∀ s, Calm disk s → Unfailing s n → P → (p s).result = .ok a
  returned : ∀ s, Calm disk s → ∀ b, (p s).result = .ok b →
    (Unfailing s n ∧ P) ∧ b = a ∧ (p s).state = s.elapse n

theorem settles_pure (a : α) : Settles disk 0 True a (pure a) where
  returns _ _ _ _ := rfl
  returned _ _ _ hb := ⟨⟨fun _ hk => absurd hk (Nat.not_lt_zero _), trivial⟩, (Except.ok.inj hb).symm, rfl⟩

theorem settles_fail (e : NspawnError) : Settles disk 0 False a (fail e) where
  returns _ _ _ hP := hP.elim
  returned := nofun

theorem settles_ofExcept {x : Except NspawnError α} (h : ∀ b, x = .ok b ↔ P ∧ b = a) :
    Settles disk 0 P a (ofExcept x) where
  returns _ _ _ hP := by rw [(h a).mpr ⟨hP, rfl⟩]; rfl
  returned s _ b hb := by
    cases x with
    | error error => cases hb
    | ok other =>
      cases hb
      obtain ⟨hP, heq⟩ := (h _).mp rfl
      exact ⟨⟨fun _ hk => absurd hk (Nat.not_lt_zero _), hP⟩, heq, rfl⟩

theorem settles_bind (hp : Settles disk n P a p) (hf : P → Settles disk m Q b (f a)) :
    Settles disk (n + m) (P ∧ Q) b (p >>= f) where
  returns s hs hcalls hPQ := by
    obtain ⟨hfirst, hthen⟩ := unfailing_add.mp hcalls
    have hresult := hp.returns s hs hfirst hPQ.1
    obtain ⟨-, -, hstate⟩ := hp.returned s hs a hresult
    rw [bind_run_ok hresult, hstate]
    exact (hf hPQ.1).returns _ (hs.elapse n) hthen hPQ.2
  returned s hs c hc := by
    obtain ⟨a', ha, hresult⟩ := bind_result_ok.mp hc
    obtain ⟨⟨hfirst, hP⟩, rfl, hstate⟩ := hp.returned s hs a' ha
    rw [hstate] at hresult
    obtain ⟨⟨hthen, hQ⟩, rfl, hafter⟩ := (hf hP).returned _ (hs.elapse n) c hresult
    refine ⟨⟨unfailing_add.mpr ⟨hfirst, hthen⟩, hP, hQ⟩, rfl, ?_⟩
    rw [bind_run_ok ha, hstate, ← elapse_elapse]
    exact hafter

theorem settles_pos {c : Prop} [Decidable c] {q : Host α} (hc : c) (h : Settles disk n P a p) :
    Settles disk n P a (if c then p else q) := by
  rw [if_pos hc]
  exact h

theorem settles_neg {c : Prop} [Decidable c] {q : Host α} (hc : ¬ c) (h : Settles disk n P a q) :
    Settles disk n P a (if c then p else q) := by
  rw [if_neg hc]
  exact h

theorem Settles.congr {a' : α} (h : Settles disk n P a p) (hn : n = m) (hP : P ↔ Q) (ha : P → a = a') :
    Settles disk m Q a' p where
  returns s hs hcalls hQ := ha (hP.mpr hQ) ▸ h.returns s hs (hn ▸ hcalls) (hP.mpr hQ)
  returned s hs b hb := by
    obtain ⟨⟨hcalls, hp⟩, rfl, hstate⟩ := h.returned s hs b hb
    exact ⟨⟨hn ▸ hcalls, hP.mp hp⟩, ha hp, hn ▸ hstate⟩

/-- A call that says why it fails. -/
theorem caught_run (call : Disk → Except IoError α) (s : Scene) :
    (caught (systemCall call) s : Outcome Scene NspawnError _).state = s.tick ∧
    (caught (systemCall call) s : Outcome Scene NspawnError _).result = .ok (Scene.answer call s.tick) := by
  have hrun := systemCall_run call s
  show (systemCall call s).state = s.tick ∧ Except.ok (systemCall call s).result = _
  cases hresult : (systemCall call s).result with
  | ok a =>
    obtain ⟨hanswer, hstate⟩ := hrun.returned a hresult
    rw [hstate] at hanswer ⊢
    exact ⟨rfl, congrArg Except.ok hanswer.symm⟩
  | error e =>
    obtain ⟨hanswer, hstate⟩ := hrun.failed e hresult
    rw [hstate] at hanswer ⊢
    exact ⟨rfl, congrArg Except.ok hanswer.symm⟩

theorem answer_unfailing (call : Disk → Except IoError α) (h : Calm disk s) (hcalls : Unfailing s 1) :
    Scene.answer call s.tick = call disk := by
  have hfault : s.tick.faults s.tick.clock = none := hcalls 0 Nat.one_pos
  rw [Scene.answer, hfault, h.tick.disk_eq]

theorem answer_failing (call : Disk → Except IoError α) (h : Calm disk s) (hcalls : ¬ Unfailing s 1) :
    ∃ text, Scene.answer call s.tick = .error (.other text) := by
  have hfault : s.tick.faults s.tick.clock ≠ none := by
    intro hnone
    refine hcalls fun k hk => ?_
    rw [Nat.lt_one_iff.mp hk]
    exact hnone
  cases hanswer : s.tick.faults s.tick.clock with
  | none => exact absurd hanswer hfault
  | some error =>
    cases error with
    | notFound => exact absurd hanswer (h.honest _)
    | other text => exact ⟨text, by rw [Scene.answer, hanswer]⟩

theorem settles_caught {call : Disk → Except IoError α} {f : Except IoError α → Host β} {answer : Except IoError α}
    (hcall : call disk = answer) (hfail : ∀ text s b, (f (.error (.other text)) s).result ≠ .ok b)
    (h : Settles disk n P b (f answer)) : Settles disk (1 + n) P b (caught (systemCall call) >>= f) where
  returns s hs hcalls hP := by
    obtain ⟨hstate, hresult⟩ := caught_run call s
    obtain ⟨hfirst, hthen⟩ := unfailing_add.mp hcalls
    rw [bind_run_ok hresult, hstate, answer_unfailing call hs hfirst, hcall]
    exact h.returns _ (hs.elapse 1) hthen hP
  returned s hs c hc := by
    obtain ⟨hstate, hresult⟩ := caught_run call s
    rw [bind_run_ok hresult, hstate] at hc ⊢
    by_cases hfirst : Unfailing s 1
    · rw [answer_unfailing call hs hfirst, hcall] at hc ⊢
      obtain ⟨⟨hthen, hP⟩, rfl, hafter⟩ := h.returned _ (hs.elapse 1) c hc
      exact ⟨⟨unfailing_add.mpr ⟨hfirst, hthen⟩, hP⟩, rfl, hafter.trans (elapse_elapse s 1 n)⟩
    · obtain ⟨text, hanswer⟩ := answer_failing call hs hfirst
      rw [hanswer] at hc
      exact absurd hc (hfail text _ c)

theorem settles_callAt {names : List Component} {call : Disk → Except IoError α}
    (h : ∀ b, call disk = .ok b ↔ P ∧ b = a) : Settles disk 1 P a (callAt names call) := by
  refine settles_caught (n := 0) rfl nofun (settles_ofExcept fun b => ?_)
  rw [← h b]
  cases call disk with
  | ok c => simp [Except.mapError]
  | error error => simp [Except.mapError]

end Settled

section Entries

variable {disk : Disk} {dir : Path}

/-- The entries of a directory that the inspection reads. -/
def inspected (disk : Disk) (dir : Path) (name : Text) : Bool :=
  match disk.symlinkMetadata (Path.join dir name) with
  | .ok node => isDropIn node name
  | .error _ => false

def dropInText (disk : Disk) (path : Path) : Text :=
  match disk.readToString path with
  | .ok text => text
  | .error _ => []

def dropInAt (disk : Disk) (path : Path) : SystemdDropIn := ⟨path, dropInText disk path⟩

namespace DropInReadBudget

/-- The budget after these files have been read. -/
def spent (budget : DropInReadBudget) (disk : Disk) (paths : List Path) : DropInReadBudget :=
  ⟨budget.files + paths.length, budget.bytes + (paths.map fun path => (dropInText disk path).byteLen).sum⟩

structure Within (budget : DropInReadBudget) : Prop where
  files : budget.files ≤ maxInspectionDropIns
  bytes : budget.bytes ≤ maxInspectionContentBytes

variable {budget : DropInReadBudget}

theorem spent_append (first second : List Path) :
    budget.spent disk (first ++ second) = (budget.spent disk first).spent disk second := by
  simp only [spent, List.length_append, List.map_append, List.sum_append, Nat.add_assoc]

theorem Within.before {paths : List Path} (h : (budget.spent disk paths).Within) : budget.Within :=
  ⟨(Nat.le_add_right _ _).trans h.files, (Nat.le_add_right _ _).trans h.bytes⟩

end DropInReadBudget

theorem readOverrideContent_settles {path : Path} {inode : ℕ} {metadata : FileMetadata} {bytes : ByteArray}
    (hentry : disk.entry path = some inode) (hnode : disk.node inode = .file metadata bytes) :
    Settles disk 3 (∃ text, Reads disk path text) (dropInText disk path) (readOverrideContent path) := by
  have hreads : (True ∧ True ∧ bytes.size ≤ maxOverrideContentBytes ∧ True ∧ True ∧
      ∃ text, Disk.decodeUtf8 bytes = .ok text) ↔ ∃ text, Reads disk path text := by
    constructor
    · rintro ⟨-, -, hsize, -, -, text, htext⟩
      exact ⟨text, inode, metadata, bytes, openFile_file hentry hnode, hnode, hsize, htext⟩
    · rintro ⟨text, hreads⟩
      obtain ⟨other, metadata', bytes', hopen, hother, hsize, htext⟩ := hreads
      rw [openFile_file hentry hnode] at hopen
      cases hopen
      rw [hnode] at hother
      cases hother
      exact ⟨trivial, trivial, hsize, trivial, trivial, text, htext⟩
  have htext : dropInText disk path = (match Disk.decodeUtf8 bytes with
      | .ok text => text
      | .error _ => []) := by
    simp only [dropInText, Disk.readToString, Disk.maxSymlinks, Disk.follow, hentry, hnode]
  refine Settles.congr ?_ rfl hreads fun _ => rfl
  refine settles_bind (n := 1) (m := 2) (a := inode) (settles_callAt fun b => ?_) fun _ => ?_
  · simp [openFile_file hentry hnode, eq_comm]
  refine settles_bind (n := 1) (m := 1) (a := disk.node inode) (settles_callAt fun b => ?_) fun _ => ?_
  · simp [eq_comm]
  refine settles_bind (n := 0) (m := 1) (a := ()) (settles_ofExcept fun b => ?_) fun hsize => ?_
  · rw [hnode, checkOverrideFile]
    split_ifs with hlarge
    · simp [hlarge]
    · simp [not_lt.mp hlarge]
  have hall : takeOverride inode disk = .ok bytes := by
    rw [takeOverride, hnode]
    exact congrArg Except.ok (extract_all (by omega))
  refine settles_bind (n := 1) (m := 0) (a := bytes) (settles_callAt fun b => ?_) fun _ => ?_
  · simp [hall, eq_comm]
  refine settles_bind (n := 0) (m := 0) (a := ()) (settles_ofExcept fun b => ?_) fun _ => ?_
  · rw [checkTaken, if_neg (not_lt.mpr hsize)]
    simp
  refine settles_ofExcept fun b => ?_
  rw [htext]
  cases Disk.decodeUtf8 bytes with
  | ok text => simp [Except.mapError, eq_comm]
  | error error => simp [Except.mapError]

theorem checkFileCount_settles {budget : DropInReadBudget} :
    Settles disk 0 (budget.files < maxInspectionDropIns) () (ofExcept budget.checkFileCount) := by
  refine settles_ofExcept fun b => ?_
  rw [DropInReadBudget.checkFileCount]
  split_ifs with hfull
  · simp [hfull]
  · simp [not_le.mp hfull]

theorem record_settles {budget : DropInReadBudget} (h : budget.Within) (size : ℕ) :
    Settles disk 0 (budget.bytes + size ≤ maxInspectionContentBytes) ⟨budget.files + 1, budget.bytes + size⟩
      (ofExcept (budget.record size)) := by
  have hbytes := h.bytes
  refine settles_ofExcept fun b => ?_
  rw [DropInReadBudget.record]
  split_ifs with hfull
  · have hover : ¬ budget.bytes + size ≤ maxInspectionContentBytes := by omega
    simp [hover]
  · have hunder : budget.bytes + size ≤ maxInspectionContentBytes := by omega
    simp [hunder, eq_comm]

/-- The drop-ins among these names. -/
def dropInPaths (disk : Disk) (dir : Path) (names : List Text) : List Path :=
  (names.filter (inspected disk dir)).map (Path.join dir)

/-- The calls that are made for these names: two for each of them, three more for
each drop-in, and one for the end of the directory. -/
def entryCalls (disk : Disk) (dir : Path) (names : List Text) : ℕ :=
  2 * names.length + 3 * (dropInPaths disk dir names).length + 1

/-- The files can all be read, and the budget suffices for them. -/
structure Affordable (disk : Disk) (budget : DropInReadBudget) (paths : List Path) : Prop where
  readable : ∀ path ∈ paths, ∃ text, Reads disk path text
  within : (budget.spent disk paths).Within

theorem affordable_append {budget : DropInReadBudget} {first second : List Path} :
    Affordable disk budget (first ++ second) ↔
      Affordable disk budget first ∧ Affordable disk (budget.spent disk first) second := by
  constructor
  · rintro ⟨hreadable, hwithin⟩
    rw [DropInReadBudget.spent_append] at hwithin
    obtain ⟨hfirst, hsecond⟩ := List.forall_mem_append.mp hreadable
    exact ⟨⟨hfirst, hwithin.before⟩, hsecond, hwithin⟩
  · rintro ⟨hfirst, hsecond⟩
    refine ⟨List.forall_mem_append.mpr ⟨hfirst.readable, hsecond.readable⟩, ?_⟩
    rw [DropInReadBudget.spent_append]
    exact hsecond.within

theorem affordable_cons {budget : DropInReadBudget} {path : Path} {paths : List Path} :
    Affordable disk budget (path :: paths) ↔
      budget.files < maxInspectionDropIns ∧ (∃ text, Reads disk path text) ∧
        budget.bytes + (dropInText disk path).byteLen ≤ maxInspectionContentBytes ∧
        Affordable disk ⟨budget.files + 1, budget.bytes + (dropInText disk path).byteLen⟩ paths := by
  have hspent : budget.spent disk [path] = ⟨budget.files + 1, budget.bytes + (dropInText disk path).byteLen⟩ := by
    simp [DropInReadBudget.spent]
  have happend : Affordable disk budget (path :: paths) ↔
      Affordable disk budget [path] ∧ Affordable disk (budget.spent disk [path]) paths := by
    rw [← affordable_append]
    rfl
  have hone : Affordable disk budget [path] ↔ budget.files < maxInspectionDropIns ∧
      (∃ text, Reads disk path text) ∧
        budget.bytes + (dropInText disk path).byteLen ≤ maxInspectionContentBytes := by
    constructor
    · rintro ⟨hreadable, hwithin⟩
      rw [hspent] at hwithin
      exact ⟨hwithin.files, hreadable path List.mem_cons_self, hwithin.bytes⟩
    · rintro ⟨hfiles, hreads, hbytes⟩
      refine ⟨fun other hother => ?_, hspent ▸ ⟨hfiles, hbytes⟩⟩
      rw [List.mem_singleton.mp hother]
      exact hreads
  rw [happend, hone, hspent, and_assoc, and_assoc]

theorem inspected_file {name : Text} {node : Node} (hnode : disk.symlinkMetadata (Path.join dir name) = .ok node)
    (h : isDropIn node name = true) :
    ∃ inode metadata bytes, disk.entry (Path.join dir name) = some inode ∧
      disk.node inode = .file metadata bytes := by
  obtain ⟨inode, hentry, rfl⟩ := symlinkMetadata_ok hnode
  cases hfile : disk.node inode with
  | file metadata bytes => exact ⟨inode, metadata, bytes, hentry, hfile⟩
  | symlink target => simp [isDropIn, hfile, Node.isFile] at h
  | special => simp [isDropIn, hfile, Node.isFile] at h

theorem readEntries_settles (names : List Text) (budget : DropInReadBudget)
    (hthere : ∀ name ∈ names, disk.entry (Path.join dir name) ≠ none) (hwithin : budget.Within) :
    Settles disk (entryCalls disk dir names) (Affordable disk budget (dropInPaths disk dir names))
      ((dropInPaths disk dir names).map (dropInAt disk), budget.spent disk (dropInPaths disk dir names))
      (readEntries dir budget names) := by
  induction names generalizing budget with
  | nil =>
    have hcall : Settles disk 1 True () (callAt (Path.components dir) fun _ => .ok ()) :=
      settles_callAt fun b => by simp
    refine (settles_bind hcall fun _ => settles_pure ([], budget)).congr rfl ?_ fun _ => rfl
    exact iff_of_true ⟨trivial, trivial⟩ ⟨nofun, hwithin⟩
  | cons name names ih =>
    obtain ⟨hname, hnames⟩ := List.forall_mem_cons.mp hthere
    obtain ⟨inode, hentry⟩ := Option.ne_none_iff_exists'.mp hname
    have hmetadata : disk.symlinkMetadata (Path.join dir name) = .ok (disk.node inode) := by
      rw [Disk.symlinkMetadata, hentry]
    have hinspected : inspected disk dir name = isDropIn (disk.node inode) name := by rw [inspected, hmetadata]
    have hnext : Settles disk 1 True () (callAt (Path.components dir) fun _ => .ok ()) :=
      settles_callAt fun b => by simp
    have hfound : Settles disk 1 True (disk.node inode) (callAt (Path.components (Path.join dir name))
        fun disk => disk.symlinkMetadata (Path.join dir name)) :=
      settles_callAt fun b => by simp [hmetadata, eq_comm]
    by_cases hdrop : isDropIn (disk.node inode) name = true
    · obtain ⟨inode', metadata, bytes, hentry', hfile⟩ := inspected_file hmetadata hdrop
      have hpaths : dropInPaths disk dir (name :: names) = Path.join dir name :: dropInPaths disk dir names := by
        rw [dropInPaths, List.filter_cons_of_pos (hinspected.trans hdrop)]
        rfl
      have hread : Settles disk _ _ _ (readEntries dir budget (name :: names)) :=
        settles_bind hnext fun _ => settles_bind hfound fun _ => settles_pos hdrop <|
          settles_bind checkFileCount_settles fun hfiles =>
            settles_bind (readOverrideContent_settles hentry' hfile) fun _ =>
              settles_bind (record_settles hwithin _) fun hbytes =>
                settles_bind (ih _ hnames ⟨hfiles, hbytes⟩) fun _ => settles_pure _
      refine hread.congr ?_ ?_ fun _ => ?_
      · simp only [entryCalls, hpaths, List.length_cons]
        omega
      · rw [hpaths, affordable_cons]
        simp only [true_and, and_true]
      · rw [hpaths]
        simp only [dropInAt, DropInReadBudget.spent, List.map_cons, List.length_cons, List.sum_cons]
        congr 2 <;> omega
    · have hpaths : dropInPaths disk dir (name :: names) = dropInPaths disk dir names := by
        rw [dropInPaths, List.filter_cons_of_neg (hinspected ▸ hdrop)]
        rfl
      have hread : Settles disk _ _ _ (readEntries dir budget (name :: names)) :=
        settles_bind hnext fun _ => settles_bind hfound fun _ => settles_neg hdrop (ih budget hnames hwithin)
      refine hread.congr ?_ ?_ fun _ => ?_
      · simp only [entryCalls, hpaths, List.length_cons]
        omega
      · rw [hpaths]
        simp only [true_and]
      · rw [hpaths]

/-- What a directory's listing says: the names that are there, or that there is
no directory. -/
structure Lists (disk : Disk) (dir : Path) (listed : Except IoError (List Text)) : Prop where
  names : ∀ names, listed = .ok names →
    ∀ name, name ∈ names ↔ IsFileName name ∧ disk.entry (Path.join dir name) ≠ none
  missing : listed = .error .notFound → ∀ name, IsFileName name → disk.entry (Path.join dir name) = none

/-- A regular file of this name is in the directory. -/
def HasFile (disk : Disk) (dir : Path) (name : Text) : Prop :=
  ∃ inode metadata bytes, disk.entry (Path.join dir name) = some inode ∧ disk.node inode = .file metadata bytes

theorem inspected_iff {name : Text} (hext : extension name = some "conf".toList) :
    inspected disk dir name = true ↔ HasFile disk dir name := by
  unfold inspected Disk.symlinkMetadata
  cases hentry : disk.entry (Path.join dir name) with
  | none => simp [HasFile, hentry]
  | some inode =>
    cases hnode : disk.node inode with
    | file metadata bytes => simp [HasFile, hentry, hnode, isDropIn, Node.isFile, hext]
    | symlink target => simp [HasFile, hentry, hnode, isDropIn, Node.isFile]
    | special => simp [HasFile, hentry, hnode, isDropIn, Node.isFile]


/-- One of the drop-ins read from a directory has the given name. -/
theorem dropInPaths_iff {names : List Text} {name : Text} (hext : extension name = some "conf".toList)
    (hnames : ∀ other, other ∈ names ↔ IsFileName other ∧ disk.entry (Path.join dir other) ≠ none)
    (hname : IsFileName name) :
    (∃ path ∈ dropInPaths disk dir names, Path.fileName path = some name) ↔ HasFile disk dir name := by
  rw [← inspected_iff hext]
  constructor
  · rintro ⟨path, hpath, hfile⟩
    obtain ⟨other, hother, rfl⟩ := List.mem_map.mp hpath
    obtain ⟨hin, hinspected⟩ := List.mem_filter.mp hother
    rw [fileName_join dir ((hnames other).mp hin).1] at hfile
    cases hfile
    exact hinspected
  · intro hinspected
    obtain ⟨inode, metadata, bytes, hentry, -⟩ := (inspected_iff hext).mp hinspected
    have hin : name ∈ names := (hnames name).mpr ⟨hname, hentry ▸ Option.some_ne_none _⟩
    exact ⟨_, List.mem_map.mpr ⟨name, List.mem_filter.mpr ⟨hin, hinspected⟩, rfl⟩, fileName_join dir hname⟩

end Entries

section Unit

variable (listing : Disk → Path → Except IoError (List Text)) (disk : Disk) (dir : Path)

/-- The names that the inspection goes through. -/
def listedNames : List Text :=
  match listing disk dir with
  | .ok names => names
  | .error _ => []

def listedDropIns : List Path := dropInPaths disk dir (listedNames listing disk dir)

/-- A directory that is not there takes the one call that finds this out. -/
def directoryCalls : ℕ :=
  match listing disk dir with
  | .ok names => entryCalls disk dir names + 1
  | .error _ => 1

/-- The directory can be listed, or it is not there. -/
def Listed : Prop := ∀ error, listing disk dir = .error error → error = .notFound

variable {listing disk dir} {budget : DropInReadBudget}

theorem readDropIns_settles (hlists : Lists disk dir (listing disk dir)) (hwithin : budget.Within) :
    Settles disk (directoryCalls listing disk dir)
      (Listed listing disk dir ∧ Affordable disk budget (listedDropIns listing disk dir))
      ((listedDropIns listing disk dir).map (dropInAt disk), budget.spent disk (listedDropIns listing disk dir))
      (readDropIns listing dir budget) := by
  unfold Listed directoryCalls listedDropIns listedNames
  cases hlisting : listing disk dir with
  | ok names =>
    have hthere : ∀ name ∈ names, disk.entry (Path.join dir name) ≠ none :=
      fun name hname => ((hlists.names names hlisting name).mp hname).2
    have hentries := readEntries_settles names budget hthere hwithin
    have hread : Settles disk _ _ _ (readDropIns listing dir budget) := settles_caught hlisting nofun hentries
    exact hread.congr (Nat.add_comm _ _) (and_iff_right nofun).symm fun _ => rfl
  | error error =>
    have hnone : Affordable disk budget (dropInPaths disk dir []) := ⟨nofun, hwithin⟩
    cases error with
    | notFound =>
      have hread : Settles disk _ _ _ (readDropIns listing dir budget) :=
        settles_caught hlisting nofun (settles_pure ([], budget))
      refine hread.congr rfl (iff_of_true trivial ⟨?_, hnone⟩) fun _ => rfl
      rintro error ⟨⟩
      rfl
    | other text =>
      have hread : Settles disk _ _ ([], budget) (readDropIns listing dir budget) :=
        settles_caught hlisting nofun (settles_fail _)
      refine hread.congr rfl (iff_of_false id fun h => ?_) fun _ => rfl
      cases h.1 _ rfl

variable {roots : UnitRoots} {machine : MachineName}

/-- The drop-ins of the machine. -/
def unitDropIns (listing : Disk → Path → Except IoError (List Text)) (roots : UnitRoots) (disk : Disk)
    (machine : MachineName) : List Path :=
  listedDropIns listing disk (serviceOverrideDir roots machine) ++
    listedDropIns listing disk (transientServiceOverrideDir roots machine)

def unitCalls (listing : Disk → Path → Except IoError (List Text)) (roots : UnitRoots) (disk : Disk)
    (machine : MachineName) : ℕ :=
  directoryCalls listing disk (serviceOverrideDir roots machine) +
    directoryCalls listing disk (transientServiceOverrideDir roots machine)

/-- Both directories can be listed, and the budget suffices for their drop-ins. -/
structure Readable (listing : Disk → Path → Except IoError (List Text)) (roots : UnitRoots) (disk : Disk)
    (machine : MachineName) : Prop where
  persistent : Listed listing disk (serviceOverrideDir roots machine)
  transient : Listed listing disk (transientServiceOverrideDir roots machine)
  affordable : Affordable disk .default (unitDropIns listing roots disk machine)

theorem readUnit_settles
    (hpersistent : Lists disk (serviceOverrideDir roots machine) (listing disk (serviceOverrideDir roots machine)))
    (htransient : Lists disk (transientServiceOverrideDir roots machine)
      (listing disk (transientServiceOverrideDir roots machine))) :
    Settles disk (unitCalls listing roots disk machine) (Readable listing roots disk machine)
      (((unitDropIns listing roots disk machine).map (dropInAt disk)).insertionSort
        fun left right => left.path ≤ right.path)
      (readUnit listing roots machine) := by
  have hread : Settles disk _ _ _ (readUnit listing roots machine) :=
    settles_bind (readDropIns_settles hpersistent ⟨Nat.zero_le _, Nat.zero_le _⟩) fun hfirst =>
      settles_bind (readDropIns_settles htransient hfirst.2.within) fun _ => settles_pure _
  refine hread.congr rfl ?_ fun _ => ?_
  · constructor
    · rintro ⟨⟨hfirst, hreadable⟩, ⟨hsecond, hothers⟩, -⟩
      exact ⟨hfirst, hsecond, affordable_append.mpr ⟨hreadable, hothers⟩⟩
    · rintro ⟨hfirst, hsecond, haffordable⟩
      obtain ⟨hreadable, hothers⟩ := affordable_append.mp haffordable
      exact ⟨⟨hfirst, hreadable⟩, ⟨hsecond, hothers⟩, trivial⟩
  · rw [unitDropIns, List.map_append]

/-- A drop-in of the machine has the given name. -/
theorem listedDropIns_iff {name : Text} (hext : extension name = some "conf".toList) (hname : IsFileName name)
    (hlists : Lists disk dir (listing disk dir)) (hlisted : Listed listing disk dir) :
    (∃ path ∈ listedDropIns listing disk dir, Path.fileName path = some name) ↔ HasFile disk dir name := by
  unfold listedDropIns listedNames
  cases hlisting : listing disk dir with
  | ok names => exact dropInPaths_iff hext (hlists.names names hlisting) hname
  | error error =>
    cases hlisted error hlisting
    have habsent := hlists.missing hlisting name hname
    simp [dropInPaths, HasFile, habsent]

end Unit

end Lasper.Overrides
