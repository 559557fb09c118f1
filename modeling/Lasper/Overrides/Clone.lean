import Lasper.Overrides.Inspection

/-! The override of a cloned machine. The deployer looks for a drop-in under the
name that older releases gave to the override, but the clone operation copies the
file that the current release writes. -/

namespace Lasper.Overrides

open Lib Traced Config
open Provisioning (MachineName ResourceApplyStatus)

section Clone

variable (load : Text → Option IniSections) (listing : Disk → Path → Except IoError (List Text))
  (roots : UnitRoots)

def cloneOverride (source destination : String) : Host ResourceApplyStatus := do
  let source ← ofExcept (parseMachineName source)
  let destination ← ofExcept (parseMachineName destination)
  let content ← readOptional (serviceOverridePath roots source)
  match content with
  | some content => do
    ofExcept (validateContentSize content)
    applyNewOverrideAt load (serviceOverridePath roots destination) content
  | none => return .unchanged

def sourceHasOverride (sourceName : String) : Host Bool :=
  match MachineName.new sourceName with
  | .ok machine => do
    let dropIns ← readUnit listing roots machine
    return dropIns.any fun dropIn => Path.fileName dropIn.path = some legacyOverrideFile
  | .error _ => return false

/-- What `CloneDeployer` does about the override. The image and its settings are
cloned in between. -/
def deployOverride (sourceName name : String) : Host (Option ResourceApplyStatus) := do
  let requested ← sourceHasOverride listing roots sourceName
  if requested then do
    let apply ← cloneOverride load roots sourceName name
    return some apply
  else return none

end Clone

section Exactness

variable {load : Text → Option IniSections} {listing : Disk → Path → Except IoError (List Text)}
  {roots : UnitRoots} {disk : Disk} {s : Scene} {source : String}

/-- A regular file under the older name is in one of the machine's directories. -/
def HasLegacyDropIn (roots : UnitRoots) (disk : Disk) (source : String) : Prop :=
  ∃ machine, MachineName.new source = .ok machine ∧
    (HasFile disk (serviceOverrideDir roots machine) legacyOverrideFile ∨
      HasFile disk (transientServiceOverrideDir roots machine) legacyOverrideFile)

/-- The file that the clone operation reads is there. -/
def HasLasperOverride (roots : UnitRoots) (disk : Disk) (source : String) : Prop :=
  ∃ machine, MachineName.new source = .ok machine ∧
    openFile disk Disk.maxSymlinks (serviceOverridePath roots machine) ≠ .error .notFound

/-- The listings of the machine's two directories are what is there. -/
def ListsUnit (listing : Disk → Path → Except IoError (List Text)) (roots : UnitRoots) (disk : Disk)
    (source : String) : Prop :=
  ∀ machine, MachineName.new source = .ok machine →
    Lists disk (serviceOverrideDir roots machine) (listing disk (serviceOverrideDir roots machine)) ∧
    Lists disk (transientServiceOverrideDir roots machine) (listing disk (transientServiceOverrideDir roots machine))

/-- One of the machine's drop-ins has the older name. -/
def hasLegacyName (listing : Disk → Path → Except IoError (List Text)) (roots : UnitRoots) (disk : Disk)
    (machine : MachineName) : Bool :=
  (unitDropIns listing roots disk machine).any fun path => Path.fileName path = some legacyOverrideFile

theorem sourceHasOverride_settles {machine : MachineName} (hmachine : MachineName.new source = .ok machine)
    (hlists : ListsUnit listing roots disk source) :
    Settles disk (unitCalls listing roots disk machine) (Readable listing roots disk machine)
      (hasLegacyName listing roots disk machine) (sourceHasOverride listing roots source) := by
  obtain ⟨hpersistent, htransient⟩ := hlists machine hmachine
  rw [sourceHasOverride, hmachine]
  refine Settles.congr (settles_bind (readUnit_settles hpersistent htransient) fun _ => settles_pure _) rfl
    (and_iff_left trivial) fun _ => ?_
  rw [Bool.eq_iff_iff, hasLegacyName]
  simp only [List.any_eq_true, List.mem_insertionSort, List.mem_map, exists_exists_and_eq_and, dropInAt]

theorem hasLegacyName_iff {machine : MachineName} (hmachine : MachineName.new source = .ok machine)
    (hlists : ListsUnit listing roots disk source) (hreadable : Readable listing roots disk machine) :
    hasLegacyName listing roots disk machine = true ↔ HasLegacyDropIn roots disk source := by
  obtain ⟨hpersistent, htransient⟩ := hlists machine hmachine
  have hext : extension legacyOverrideFile = some "conf".toList := by decide
  have hname : IsFileName legacyOverrideFile := ⟨by decide, by decide, by decide, by decide⟩
  have hfirst := listedDropIns_iff hext hname hpersistent hreadable.persistent
  have hsecond := listedDropIns_iff hext hname htransient hreadable.transient
  simp only [HasLegacyDropIn, hmachine, Except.ok.injEq, exists_eq_left', ← hfirst, ← hsecond, hasLegacyName,
    unitDropIns, List.any_eq_true, List.mem_append, decide_eq_true_eq, or_and_right, exists_or]

/-- What the inspection needs, besides files that it can read. -/
structure Inspectable (listing : Disk → Path → Except IoError (List Text)) (roots : UnitRoots) (disk : Disk)
    (failures : ℕ → Option String) (machine : MachineName) : Prop
    extends Readable listing roots disk machine where
  unfailing : ∀ call < unitCalls listing roots disk machine, failures (call + 1) = none

/-- The failure does not say that the file is missing. -/
def NotMissing (e : NspawnError) : Prop := ∀ names, e ≠ .io names .notFound

theorem callAt_notMissing {α : Type} {names : List Component} {call : Disk → Except IoError α}
    (hcall : call disk ≠ .error .notFound) (h : Calm disk s) :
    Ensures (fun _ => True) (callAt names call) (fun a t => call disk = .ok a ∧ Calm disk t)
      (fun e _ => NotMissing e) s := by
  refine ensures_bind (caught_calm call h) ?_
  rintro answer t ⟨hanswer, ht⟩
  match answer with
  | .ok a => exact ensures_pure ⟨hanswer.ok, ht⟩
  | .error .notFound => exact absurd hanswer.notFound hcall
  | .error (.other text) => exact ensures_fail nofun

theorem checkOverrideFile_notMissing {path : Path} {node : Node} {e : NspawnError}
    (h : checkOverrideFile path node = .error e) : NotMissing e := by
  unfold checkOverrideFile checkOverrideFile.unsuitable at h
  split at h
  · split_ifs at h
    cases h
    exact nofun
  · cases h
    exact nofun

theorem checkTaken_notMissing {bytes : ByteArray} {e : NspawnError} (h : checkTaken bytes = .error e) :
    NotMissing e := by
  unfold checkTaken at h
  split_ifs at h
  cases h
  exact nofun

theorem decodeUtf8_notMissing {names : List Component} {bytes : ByteArray} {e : NspawnError}
    (h : (Disk.decodeUtf8 bytes).mapError (NspawnError.io names) = .error e) : NotMissing e := by
  unfold Disk.decodeUtf8 at h
  split at h
  · cases h
  · cases h
    exact nofun

theorem readOverrideContent_notMissing {path : Path}
    (hopen : openFile disk Disk.maxSymlinks path ≠ .error .notFound) (h : Calm disk s) :
    Ensures (fun _ => True) (readOverrideContent path) (fun _ _ => True) (fun e _ => NotMissing e) s := by
  refine ensures_bind (callAt_notMissing hopen h) fun inode t ht => ?_
  refine ensures_bind (callAt_notMissing nofun ht.2) fun node u hu => ?_
  refine ensures_bind (ensures_ofExcept (Q := fun _ => Calm disk) (fun _ _ => hu.2)
    fun _ he => checkOverrideFile_notMissing he) fun _ v hv => ?_
  have htake : takeOverride inode disk ≠ .error .notFound := by
    unfold takeOverride
    split <;> nofun
  refine ensures_bind (callAt_notMissing htake hv) fun bytes w hw => ?_
  refine ensures_bind (ensures_ofExcept (Q := fun _ => Calm disk) (fun _ _ => hw.2)
    fun _ he => checkTaken_notMissing he) fun _ x _ => ?_
  exact ensures_ofExcept (fun _ _ => trivial) fun _ he => decodeUtf8_notMissing he

theorem readOverrideContent_failure {path : Path} (h : Calm disk s) :
    Ensures (fun _ => True) (readOverrideContent path) (fun text t => Reads disk path text ∧ Calm disk t)
      (fun e t => (NotMissing e ∨ openFile disk Disk.maxSymlinks path = .error .notFound) ∧ Calm disk t) s := by
  by_cases hopen : openFile disk Disk.maxSymlinks path = .error .notFound
  · exact (readOverrideContent_calm h).mono (fun _ _ ht => ht) fun _ _ ht => ⟨.inr hopen, ht⟩
  · exact ((readOverrideContent_calm h).and (readOverrideContent_notMissing hopen h)).mono
      (fun _ _ ht => ht.1) fun _ _ ht => ⟨.inl ht.2, ht.1⟩

/-- What is read at a name, if anything is there. -/
def ReadsOptional (disk : Disk) (path : Path) : Option Text → Prop
  | some text => Reads disk path text
  | none => openFile disk Disk.maxSymlinks path = .error .notFound

theorem readOptional_calm {path : Path} (h : Calm disk s) :
    Ensures (fun _ => True) (readOptional path)
      (fun content t => ReadsOptional disk path content ∧ Calm disk t) (fun _ t => Calm disk t) s := by
  have hattempt : Ensures (fun _ => True) (attempt (readOverrideContent path))
      (fun content t => (match content with
        | .ok text => Reads disk path text
        | .error e => NotMissing e ∨ openFile disk Disk.maxSymlinks path = .error .notFound) ∧ Calm disk t)
      (fun _ t => Calm disk t) s := ensures_attempt (readOverrideContent_failure h)
  refine ensures_bind hattempt ?_
  rintro content t ⟨hcontent, ht⟩
  match content with
  | .ok text => exact ensures_pure ⟨hcontent, ht⟩
  | .error (.io names .notFound) =>
    refine ensures_pure ⟨?_, ht⟩
    obtain hnot | hopen := hcontent
    · exact absurd rfl (hnot names)
    · exact hopen
  | .error (.io names (.other text)) => exact ensures_fail ht
  | .error (.runtime text) => exact ensures_fail ht
  | .error (.validation text) => exact ensures_fail ht
  | .error .panicked => exact ensures_fail ht

theorem MachineName.new_text (machine : MachineName) : MachineName.new machine.text = .ok machine := by
  unfold MachineName.new
  rw [dif_pos machine.valid]

/-- The override was not there, or it was applied to the destination. -/
theorem cloneOverride_calm {machine destination : MachineName} (hsource : MachineName.new source = .ok machine)
    (h : Calm disk s) :
    Ensures (fun _ => True) (cloneOverride load roots source destination.text)
      (fun status t => openFile disk Disk.maxSymlinks (serviceOverridePath roots machine) = .error .notFound ∨
        ∃ content, Reads disk (serviceOverridePath roots machine) content ∧
          Applied load disk 0 (serviceOverridePath roots destination) content t.disk status)
      (fun _ _ => True) s := by
  have hparse : ∀ {name : String} {parsed : MachineName}, MachineName.new name = .ok parsed →
      parseMachineName name = .ok parsed := by
    intro name parsed hp
    rw [parseMachineName, hp]
    rfl
  unfold cloneOverride
  rw [hparse hsource, ofExcept_ok_bind, hparse (MachineName.new_text destination), ofExcept_ok_bind]
  refine ensures_bind ((readOptional_calm h).mono (fun _ _ ht => ht) fun _ _ _ => trivial) ?_
  rintro content t ⟨hcontent, ht⟩
  cases content with
  | none => exact ensures_pure (.inl hcontent)
  | some text =>
    refine ensures_bind (ensures_ofExcept (Q := fun _ => Calm disk) (fun _ _ => ht) fun _ _ => trivial)
      fun _ u hu => ?_
    refine (applyNewOverrideAtWithUid_calm hu).mono (fun status v hv => ?_) fun _ _ _ => trivial
    exact .inr ⟨text, hcontent, hv⟩

theorem Applied.carried {uid : ℕ} {path : Path} {content : Text} {disk' : Disk} {status : ResourceApplyStatus}
    (h : Applied load disk uid path content disk' status) (hstatus : status ≠ .conflictUnknownOwner) :
    disk'.readToString path = .ok content := by
  cases status with
  | created =>
    obtain ⟨-, metadata, rfl⟩ := h
    exact disk.readToString_persist path metadata content
  | replacedOwned =>
    obtain ⟨-, metadata, rfl⟩ := h
    exact disk.readToString_persist path metadata content
  | unchanged =>
    obtain ⟨rfl, -, hread⟩ := h
    exact hread
  | conflictUnknownOwner => exact absurd rfl hstatus

/-- The clone of the override is requested exactly when the file to be copied is
there. If it is, a deployment that succeeds and does not report a conflict has
copied it; if it is not, the override is no reason to fail. -/
structure CarriesOverride (load : Text → Option IniSections) (listing : Disk → Path → Except IoError (List Text))
    (roots : UnitRoots) (source : String) (destination : MachineName) (s : Scene) : Prop where
  requested_iff : (sourceHasOverride listing roots source s).result = .ok true ↔ HasLasperOverride roots s.disk source
  carried : HasLasperOverride roots s.disk source →
    ∀ applied, (deployOverride load listing roots source destination.text s).result = .ok applied →
      applied = some .conflictUnknownOwner ∨
      ∃ machine content, MachineName.new source = .ok machine ∧
        Reads s.disk (serviceOverridePath roots machine) content ∧
        (deployOverride load listing roots source destination.text s).state.disk.readToString
          (serviceOverridePath roots destination) = .ok content
  unfailing : ¬ HasLasperOverride roots s.disk source →
    ∃ applied, (deployOverride load listing roots source destination.text s).result = .ok applied

/-- What the request says when the inspection returns. -/
theorem sourceHasOverride_legacy (hlists : ListsUnit listing roots disk source) (h : Calm disk s) {requested : Bool}
    (hrequested : (sourceHasOverride listing roots source s).result = .ok requested) :
    (requested = true ↔ HasLegacyDropIn roots disk source) ∧
      Calm disk (sourceHasOverride listing roots source s).state := by
  cases hmachine : MachineName.new source with
  | error error =>
    rw [sourceHasOverride, hmachine] at hrequested ⊢
    cases hrequested
    exact ⟨by simp [HasLegacyDropIn, hmachine], h⟩
  | ok machine =>
    obtain ⟨⟨-, hreadable⟩, rfl, hstate⟩ := (sourceHasOverride_settles hmachine hlists).returned s h _ hrequested
    exact ⟨hasLegacyName_iff hmachine hlists hreadable, hstate ▸ h.elapse _⟩

/-- Where the two names are there together, a deployment that returns has copied
the override or met a conflict. -/
theorem deployOverride_carried {destination : MachineName} (hlists : ListsUnit listing roots disk source)
    (htogether : HasLegacyDropIn roots disk source ↔ HasLasperOverride roots disk source)
    (hthere : HasLasperOverride roots disk source) (h : Calm disk s) :
    Ensures (fun _ => True) (deployOverride load listing roots source destination.text)
      (fun applied t => applied = some .conflictUnknownOwner ∨
        ∃ machine content, MachineName.new source = .ok machine ∧
          Reads disk (serviceOverridePath roots machine) content ∧
          t.disk.readToString (serviceOverridePath roots destination) = .ok content)
      (fun _ _ => True) s := by
  have hinspect : Ensures (fun _ => True) (sourceHasOverride listing roots source)
      (fun requested t => (requested = true ↔ HasLegacyDropIn roots disk source) ∧ Calm disk t) (fun _ _ => True) s :=
    ⟨fun _ _ => trivial, fun _ hrequested => sourceHasOverride_legacy hlists h hrequested, fun _ _ => trivial⟩
  refine ensures_bind hinspect ?_
  rintro requested t ⟨hlegacy, ht⟩
  rw [if_pos (hlegacy.mpr (htogether.mpr hthere))]
  obtain ⟨machine, hmachine, hopen⟩ := hthere
  refine ensures_bind (cloneOverride_calm hmachine ht) fun status u hu => ensures_pure ?_
  obtain hmissing | ⟨content, hreads, happlied⟩ := hu
  · exact absurd hmissing hopen
  · by_cases hstatus : status = .conflictUnknownOwner
    · exact .inl (congrArg some hstatus)
    · exact .inr ⟨machine, content, hmachine, hreads, happlied.carried hstatus⟩

/-- The inspection returns exactly if the drop-ins can be inspected. -/
theorem sourceHasOverride_returns_iff (hlists : ListsUnit listing roots disk source) (failures : ℕ → Option String)
    (stamps : ℕ → FileMetadata) :
    (∃ requested, (sourceHasOverride listing roots source (aloneScene disk failures stamps)).result = .ok requested) ↔
      ∀ machine, MachineName.new source = .ok machine → Inspectable listing roots disk failures machine := by
  have hcalm := aloneScene_calm disk failures stamps
  cases hmachine : MachineName.new source with
  | error error =>
    rw [sourceHasOverride, hmachine]
    exact iff_of_true ⟨false, rfl⟩ nofun
  | ok machine =>
    have hsettles := sourceHasOverride_settles hmachine hlists
    have hunfailing : Unfailing (aloneScene disk failures stamps) (unitCalls listing roots disk machine) ↔
        ∀ call < unitCalls listing roots disk machine, failures (call + 1) = none := by
      simp [Unfailing, aloneScene]
    constructor
    · rintro ⟨requested, hrequested⟩ other ⟨⟩
      obtain ⟨⟨hcalls, hreadable⟩, -⟩ := hsettles.returned _ hcalm requested hrequested
      exact ⟨hreadable, hunfailing.mp hcalls⟩
    · intro h
      obtain ⟨hreadable, hcalls⟩ := h machine rfl
      exact ⟨_, hsettles.returns _ hcalm (hunfailing.mpr hcalls) hreadable⟩

/-- The request follows the older name, the copy the current one. Besides, the
inspection reads every drop-in of the source, and fails if one cannot be read. -/
theorem clone_requested_iff (load : Text → Option IniSections)
    (listing : Disk → Path → Except IoError (List Text)) (roots : UnitRoots) (source : String)
    (destination : MachineName) (disk : Disk) (failures : ℕ → Option String) (stamps : ℕ → FileMetadata)
    (hlists : ListsUnit listing roots disk source) :
    CarriesOverride load listing roots source destination (aloneScene disk failures stamps) ↔
      (HasLegacyDropIn roots disk source ↔ HasLasperOverride roots disk source) ∧
        ∀ machine, MachineName.new source = .ok machine → Inspectable listing roots disk failures machine := by
  have hcalm := aloneScene_calm disk failures stamps
  rw [← sourceHasOverride_returns_iff hlists failures stamps]
  constructor
  · intro h
    have hreturns : ∃ requested,
        (sourceHasOverride listing roots source (aloneScene disk failures stamps)).result = .ok requested := by
      by_cases hthere : HasLasperOverride roots disk source
      · exact ⟨true, h.requested_iff.mpr hthere⟩
      · obtain ⟨applied, happlied⟩ := h.unfailing hthere
        obtain ⟨requested, hrequested, -⟩ := bind_result_ok.mp happlied
        exact ⟨requested, hrequested⟩
    refine ⟨?_, hreturns⟩
    obtain ⟨requested, hrequested⟩ := hreturns
    have hthere := h.requested_iff
    rw [hrequested, Except.ok.injEq, (sourceHasOverride_legacy hlists hcalm hrequested).1] at hthere
    exact hthere
  · rintro ⟨htogether, requested, hrequested⟩
    obtain ⟨hlegacy, -⟩ := sourceHasOverride_legacy hlists hcalm hrequested
    refine ⟨?_, fun hthere applied happlied => ?_, fun hnot => ?_⟩
    · rw [hrequested, Except.ok.injEq]
      exact hlegacy.trans htogether
    · exact (deployOverride_carried hlists htogether hthere hcalm).returned applied happlied
    · have hquiet : requested = false := Bool.eq_false_iff.mpr fun heq => hnot (htogether.mp (hlegacy.mp heq))
      subst hquiet
      exact ⟨none, bind_result_ok.mpr ⟨false, hrequested, rfl⟩⟩

end Exactness

section Example

def standardUnitRoots : UnitRoots := ⟨"/etc/systemd/system".toList, "/run/systemd/system".toList⟩

def archMachine : MachineName := ⟨"arch", by decide⟩

def archDropIns : Path := serviceOverrideDir standardUnitRoots archMachine

def dropInContent : Text := lasperOverrideMarker ++ "\n[Service]\nDeviceAllow=/dev/nvidia0 rw\n".toList

/-- Files of these names, all with one text, are in the machine's directory. -/
def dropInDisk (names : List Text) : Disk where
  entry path := if path ∈ names.map (Path.join archDropIns) then some 0 else none
  node _ := .file ⟨1, 2, 0, 0, 0o100644, 3, 0, 3, 0⟩ (Disk.encodeUtf8 dropInContent)
  created := 1
  entry_lt := by
    intro path inode h
    split_ifs at h
    cases h
    decide

def dropInListing (names : List Text) (_ : Disk) (dir : Path) : Except IoError (List Text) :=
  if dir = archDropIns then .ok names else .error .notFound

def dropInScene (names : List Text) : Scene :=
  aloneScene (dropInDisk names) (fun _ => none) fun _ => ⟨1, 3, 0, 0, 0, 4, 0, 4, 0⟩

theorem archMachine_unique {machine : MachineName} (h : MachineName.new "arch" = .ok machine) :
    archMachine = machine := by
  rw [MachineName.new, dif_pos (by decide)] at h
  exact Except.ok.inj h

/-- The two directories differ in their second character. -/
theorem archDropIns_second : archDropIns[1]? = some 'e' := by decide

theorem transientDropIns_second : (transientServiceOverrideDir standardUnitRoots archMachine)[1]? = some 'r' := by
  decide

theorem transientDropIns_ne : transientServiceOverrideDir standardUnitRoots archMachine ≠ archDropIns := by
  intro h
  have hsecond := archDropIns_second
  rw [← h, transientDropIns_second] at hsecond
  cases hsecond

section Joined

variable {dir first second : Text}

theorem join_injective (hfirst : '/' ∉ first) (hsecond : '/' ∉ second)
    (h : Path.join dir first = Path.join dir second) : first = second := by
  simp only [Path.join, isAbsolute_plain hfirst, isAbsolute_plain hsecond, Bool.false_eq_true, if_false] at h
  split_ifs at h with hslash
  · simpa using h
  · simpa using h

theorem join_second {c : Char} (hfirst : '/' ∉ first) (h : dir[1]? = some c) :
    (Path.join dir first)[1]? = some c := by
  obtain ⟨hlength, -⟩ := List.getElem?_eq_some_iff.mp h
  simp only [Path.join, isAbsolute_plain hfirst, Bool.false_eq_true, if_false]
  split_ifs with hslash
  · rw [List.getElem?_append_left hlength, h]
  · rw [List.getElem?_append_left hlength, h]

end Joined

theorem dropInDisk_entry {names : List Text} {name : Text} (h : name ∈ names) :
    (dropInDisk names).entry (Path.join archDropIns name) = some 0 :=
  if_pos (List.mem_map.mpr ⟨name, h, rfl⟩)

theorem dropInListing_lists {names : List Text} (hnames : ∀ name ∈ names, IsFileName name) :
    ListsUnit (dropInListing names) standardUnitRoots (dropInDisk names) "arch" := by
  rintro machine hmachine
  cases archMachine_unique hmachine
  constructor
  · refine ⟨fun listed hlisted name => ?_, fun h => by simp [dropInListing, archDropIns] at h⟩
    have heq : listed = names := by simpa [dropInListing, archDropIns] using hlisted.symm
    subst heq
    constructor
    · intro hin
      exact ⟨hnames name hin, ne_of_eq_of_ne (dropInDisk_entry hin) (Option.some_ne_none 0)⟩
    · rintro ⟨hfile, hentry⟩
      simp only [dropInDisk] at hentry
      split_ifs at hentry with hin
      · obtain ⟨other, hother, hsame⟩ := List.mem_map.mp hin
        exact join_injective (hnames other hother).plain hfile.plain hsame ▸ hother
      · exact absurd rfl hentry
  · refine ⟨fun listed hlisted => ?_, fun _ name hfile => if_neg fun hin => ?_⟩
    · rw [dropInListing, if_neg transientDropIns_ne] at hlisted
      cases hlisted
    · obtain ⟨other, hmember, hsame⟩ := List.mem_map.mp hin
      have hsecond := join_second hfile.plain transientDropIns_second
      rw [← hsame, join_second (hnames other hmember).plain archDropIns_second] at hsecond
      cases hsecond

theorem lasperOverrideFile_isFileName : IsFileName lasperOverrideFile :=
  ⟨by decide, by decide, by decide, by decide⟩

theorem legacyOverrideFile_isFileName : IsFileName legacyOverrideFile :=
  ⟨by decide, by decide, by decide, by decide⟩

theorem dropInContent_byteLen : dropInContent.byteLen ≤ 1000 := by decide

section Present

variable {names : List Text} {name : Text}

theorem dropInDisk_reads (h : name ∈ names) : Reads (dropInDisk names) (Path.join archDropIns name) dropInContent := by
  refine ⟨0, _, _, openFile_file (dropInDisk_entry h) rfl, rfl, ?_, Disk.decodeUtf8_encodeUtf8 _⟩
  exact (Text.utf8ByteSize_ofList dropInContent).trans_le (dropInContent_byteLen.trans (by decide))

theorem dropInDisk_text (h : name ∈ names) :
    dropInText (dropInDisk names) (Path.join archDropIns name) = dropInContent := by
  have hnode : (dropInDisk names).node 0 = .file ⟨1, 2, 0, 0, 0o100644, 3, 0, 3, 0⟩ (Disk.encodeUtf8 dropInContent) :=
    rfl
  simp only [dropInText, Disk.readToString, Disk.maxSymlinks, Disk.follow, dropInDisk_entry h, hnode,
    Disk.decodeUtf8_encodeUtf8]

theorem dropInDisk_override (h : lasperOverrideFile ∈ names) :
    HasLasperOverride standardUnitRoots (dropInDisk names) "arch" := by
  refine ⟨archMachine, MachineName.new_text archMachine, ?_⟩
  have hentry : (dropInDisk names).entry (serviceOverridePath standardUnitRoots archMachine) = some 0 :=
    dropInDisk_entry h
  rw [openFile_file hentry rfl]
  exact nofun

theorem dropInDisk_legacy (h : legacyOverrideFile ∈ names) :
    HasLegacyDropIn standardUnitRoots (dropInDisk names) "arch" :=
  ⟨archMachine, MachineName.new_text archMachine, .inl ⟨0, _, _, dropInDisk_entry h, rfl⟩⟩

theorem dropInDisk_notLegacy (hnames : ∀ name ∈ names, IsFileName name) (h : legacyOverrideFile ∉ names) :
    ¬ HasLegacyDropIn standardUnitRoots (dropInDisk names) "arch" := by
  rintro ⟨machine, hmachine, hfile⟩
  cases archMachine_unique hmachine
  obtain ⟨hpersistent, htransient⟩ := dropInListing_lists hnames _ hmachine
  rcases hfile with ⟨inode, _, _, hentry, -⟩ | ⟨inode, _, _, hentry, -⟩
  · have hin := hpersistent.names names (if_pos rfl) legacyOverrideFile
    exact h (hin.mpr ⟨legacyOverrideFile_isFileName, hentry ▸ Option.some_ne_none _⟩)
  · rw [htransient.missing (if_neg transientDropIns_ne) _ legacyOverrideFile_isFileName] at hentry
    cases hentry

theorem dropInDisk_listed :
    ∃ listed ⊆ names, listed.length ≤ names.length ∧
      unitDropIns (dropInListing names) standardUnitRoots (dropInDisk names) archMachine =
        listed.map (Path.join archDropIns) := by
  refine ⟨names.filter (inspected (dropInDisk names) archDropIns), List.filter_subset_self _,
    List.length_filter_le _ _, ?_⟩
  have hfirst : dropInListing names (dropInDisk names) (serviceOverrideDir standardUnitRoots archMachine) = .ok names :=
    if_pos rfl
  have hsecond : dropInListing names (dropInDisk names)
      (transientServiceOverrideDir standardUnitRoots archMachine) = .error .notFound := if_neg transientDropIns_ne
  simp only [unitDropIns, listedDropIns, listedNames, hfirst, hsecond, dropInPaths]
  exact List.append_nil _

/-- No call fails, and no file is too long. -/
theorem dropInDisk_inspectable (hfew : names.length ≤ maxInspectionDropIns) :
    ∀ machine, MachineName.new "arch" = .ok machine →
      Inspectable (dropInListing names) standardUnitRoots (dropInDisk names) (fun _ => none) machine := by
  intro machine hmachine
  cases archMachine_unique hmachine
  obtain ⟨listed, hsub, hlength, hpaths⟩ := @dropInDisk_listed names
  refine ⟨⟨fun error h => ?_, fun error h => ?_, ?_, ?_⟩, fun _ _ => rfl⟩
  · simp [dropInListing, archDropIns] at h
  · rw [dropInListing, if_neg transientDropIns_ne] at h
    exact (Except.error.inj h).symm
  · rw [hpaths]
    rintro path hpath
    obtain ⟨name, hname, rfl⟩ := List.mem_map.mp hpath
    exact ⟨_, dropInDisk_reads (hsub hname)⟩
  · have hsame : (listed.map fun name => (dropInText (dropInDisk names) (Path.join archDropIns name)).byteLen) =
        listed.map fun _ => dropInContent.byteLen :=
      List.map_congr_left fun name hname => by rw [dropInDisk_text (hsub hname)]
    have hfiles := hlength.trans hfew
    have hbytes := Nat.mul_le_mul hfiles dropInContent_byteLen
    rw [hpaths, DropInReadBudget.spent, List.map_map, Function.comp_def, hsame, List.map_const',
      List.sum_replicate_nat, List.length_map]
    exact ⟨(Nat.zero_add _).trans_le hfiles, (Nat.zero_add _).trans_le (hbytes.trans (by decide))⟩

end Present

/-- With the current file alone the clone is not requested. -/
theorem clone_misses_override :
    (sourceHasOverride (dropInListing [lasperOverrideFile]) standardUnitRoots "arch"
      (dropInScene [lasperOverrideFile])).result = .ok false ∧
    HasLasperOverride standardUnitRoots (dropInDisk [lasperOverrideFile]) "arch" ∧
    ¬ CarriesOverride (fun _ => none) (dropInListing [lasperOverrideFile]) standardUnitRoots "arch" archMachine
      (dropInScene [lasperOverrideFile]) := by
  have hnames : ∀ name ∈ [lasperOverrideFile], IsFileName name :=
    List.forall_mem_singleton.mpr lasperOverrideFile_isFileName
  have hlists := dropInListing_lists hnames
  obtain ⟨requested, hresult⟩ := (sourceHasOverride_returns_iff hlists (fun _ => none) _).mpr
    (dropInDisk_inspectable (by decide))
  have hrequested : (sourceHasOverride (dropInListing [lasperOverrideFile]) standardUnitRoots "arch"
      (dropInScene [lasperOverrideFile])).result = .ok false := by
    have hlegacy := (sourceHasOverride_legacy hlists (aloneScene_calm _ _ _) hresult).1
    cases requested with
    | true => exact absurd (hlegacy.mp rfl) (dropInDisk_notLegacy hnames (by decide))
    | false => exact hresult
  have hthere := @dropInDisk_override [lasperOverrideFile] (List.mem_singleton_self _)
  refine ⟨hrequested, hthere, fun h => ?_⟩
  have hasked := h.requested_iff.mpr hthere
  rw [hrequested] at hasked
  cases hasked

theorem clone_requested_beside_legacy :
    CarriesOverride (fun _ => none) (dropInListing [legacyOverrideFile, lasperOverrideFile]) standardUnitRoots
      "arch" ⟨"copy", by decide⟩ (dropInScene [legacyOverrideFile, lasperOverrideFile]) := by
  have hnames : ∀ name ∈ [legacyOverrideFile, lasperOverrideFile], IsFileName name :=
    List.forall_mem_cons.mpr ⟨legacyOverrideFile_isFileName,
      List.forall_mem_singleton.mpr lasperOverrideFile_isFileName⟩
  refine (clone_requested_iff _ _ standardUnitRoots "arch" _ _ _ _ (dropInListing_lists hnames)).mpr ⟨?_, ?_⟩
  · exact iff_of_true (dropInDisk_legacy List.mem_cons_self)
      (dropInDisk_override (List.mem_cons_of_mem _ (List.mem_singleton_self _)))
  · exact dropInDisk_inspectable (by decide)

end Example

end Lasper.Overrides
