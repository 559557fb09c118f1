import Lasper.Overrides.Ownership

/-! The removal of Lasper's drop-ins deletes the files proven to be Lasper's and
their locks, and nothing else. -/

namespace Lasper.Overrides

open Lib Traced Config
open Provisioning (ResourceApplyStatus)

section Names

/-- The text after the last separator. -/
def lastName (path : Path) : Text := (path.reverse.takeWhile (· ≠ '/')).reverse

theorem lastName_separated (base : Path) {name : Text} (h : '/' ∉ name) :
    lastName (base ++ '/' :: name) = name := by
  have hpass : ∀ c ∈ name.reverse, decide (c ≠ '/') = true := by
    intro c hc
    refine decide_eq_true fun heq => h ?_
    rw [← heq]
    exact List.mem_reverse.mp hc
  simp only [lastName, List.reverse_append, List.reverse_cons, List.append_assoc, List.singleton_append]
  rw [List.takeWhile_append_of_pos hpass]
  simp

theorem lastName_plain {name : Text} (h : '/' ∉ name) : lastName name = name := by
  have hpass : ∀ c ∈ name.reverse, decide (c ≠ '/') = true := by
    intro c hc
    refine decide_eq_true fun heq => h ?_
    rw [← heq]
    exact List.mem_reverse.mp hc
  rw [lastName, List.takeWhile_eq_self_iff.mpr hpass, List.reverse_reverse]

theorem isAbsolute_plain {name : Text} (h : '/' ∉ name) : Path.isAbsolute name = false := by
  cases name with
  | nil => rfl
  | cons c rest =>
    have hc : c ≠ '/' := fun heq => h (heq ▸ List.mem_cons_self)
    simp [Path.isAbsolute, hc]

theorem lastName_join (dir : Path) {name : Text} (h : '/' ∉ name) : lastName (Path.join dir name) = name := by
  simp only [Path.join, isAbsolute_plain h, Bool.false_eq_true, if_false]
  split_ifs with hdir
  · obtain rfl | hlast := hdir
    · exact lastName_plain h
    · obtain ⟨base, rfl⟩ := List.getLast?_eq_some_iff.mp hlast
      rw [List.append_assoc]
      exact lastName_separated base h
  · exact lastName_separated dir h

variable {persistentDir transientDir : Path}

theorem ownedDropIns_name {file : DropIn} (h : file ∈ ownedDropIns persistentDir transientDir) :
    file.name = lasperOverrideFile ∨ file.name = lasperNvidiaOverrideFile := by
  simp only [ownedDropIns, List.mem_cons, List.not_mem_nil, or_false] at h
  obtain rfl | rfl | rfl := h
  · exact .inl rfl
  · exact .inr rfl
  · exact .inr rfl

theorem legacyDropIns_name {file : DropIn} (h : file ∈ legacyDropIns persistentDir transientDir) :
    file.name = legacyOverrideFile ∨ file.name = legacyNvidiaOverrideFile := by
  simp only [legacyDropIns, List.mem_cons, List.not_mem_nil, or_false] at h
  obtain rfl | rfl | rfl := h
  · exact .inl rfl
  · exact .inr rfl
  · exact .inr rfl

/-- No drop-in has the name of a lock. -/
theorem path_ne_lock {file owned : DropIn}
    (hfile : file ∈ ownedDropIns persistentDir transientDir ++ legacyDropIns persistentDir transientDir)
    (howned : owned ∈ ownedDropIns persistentDir transientDir) : file.path ≠ owned.lock := by
  have hname : file.name ∈ [lasperOverrideFile, lasperNvidiaOverrideFile, legacyOverrideFile,
      legacyNvidiaOverrideFile] := by
    rcases List.mem_append.mp hfile with h | h
    · rcases ownedDropIns_name h with h | h <;> simp [h]
    · rcases legacyDropIns_name h with h | h <;> simp [h]
  have hplain : '/' ∉ file.name := by
    have hall : ∀ name ∈ [lasperOverrideFile, lasperNvidiaOverrideFile, legacyOverrideFile,
        legacyNvidiaOverrideFile], '/' ∉ name := by decide
    exact hall _ hname
  have hhidden : ∀ name ∈ [lasperOverrideFile, lasperNvidiaOverrideFile, legacyOverrideFile,
      legacyNvidiaOverrideFile], name.head? ≠ some '.' := by decide
  have hlock : '/' ∉ '.' :: owned.name ++ ".lock".toList := by
    rcases ownedDropIns_name howned with h | h
    · rw [h]
      decide
    · rw [h]
      decide
  intro heq
  have hlast := congrArg lastName heq
  rw [DropIn.path, DropIn.lock, lastName_join _ hplain, lastName_join _ hlock] at hlast
  exact hhidden _ hname (by rw [hlast]; rfl)

end Names

section Steps

variable {load : Text → Option IniSections} {disk : Disk} {s : Scene} {path : Path} {uid : ℕ}

/-- At most the one name has been taken away. -/
def Removed (path : Path) (disk : Disk) (s : Scene) : Prop := Calm disk s ∨ Calm (unlink path disk) s

theorem removeFile_calm (h : Calm disk s) :
    Ensures (fun _ => True) (removeFile path) (fun _ => Removed path disk) (fun _ => Removed path disk) s := by
  have hcall : Ensures (fun _ => True) (systemCall (removable path)) (fun _ => Calm disk)
      (fun _ => Removed path disk) s :=
    (systemCall_calm _ h).mono (fun _ _ ht => ht.2) fun _ _ ht => .inl ht.2
  refine ensures_bind hcall fun _ t ht => ?_
  refine ensures_update trivial (.inr ⟨⟨ht.quiet, ht.honest⟩, ?_⟩)
  rw [← ht.disk_eq]
  rfl

theorem removeOptionalFile_calm (h : Calm disk s) :
    Ensures (fun _ => True) (removeOptionalFile path) (fun _ => Removed path disk)
      (fun _ => Removed path disk) s := by
  refine ensures_bind (ensures_caught (R := fun _ => Removed path disk) (removeFile_calm h)) fun removed t ht => ?_
  match removed with
  | .ok () => exact ensures_pure ht
  | .error .notFound => exact ensures_pure ht
  | .error (.other text) => exact ensures_fail ht

theorem removeEmptyDir_calm (h : Calm disk s) :
    Ensures (fun _ => True) (removeEmptyDir path) (fun _ => Calm disk) (fun _ => Calm disk) s := by
  refine ensures_bind (caught_calm _ h) ?_
  rintro removed t ⟨-, ht⟩
  match removed with
  | .ok () => exact ensures_pure ht
  | .error .notFound => exact ensures_pure ht
  | .error (.other text) =>
    show Ensures _ (if text = directoryNotEmpty then _ else _) _ _ t
    split_ifs
    · exact ensures_pure ht
    · exact ensures_fail ht

theorem acquireStableLock_calm (lock : Path) (h : Calm disk s) :
    Ensures (fun _ => True) (acquireStableLock lock) (fun _ => Calm disk) (fun _ => Calm disk) s := by
  refine ensures_bind (caught_calm _ h) ?_
  rintro opened t ⟨-, ht⟩
  match opened with
  | .error .notFound => exact ensures_pure ht
  | .error (.other text) => exact ensures_fail ht
  | .ok _ =>
    refine ensures_bind (callAt_calm _ _ ht) ?_
    rintro current u ⟨-, hu⟩
    cases current with
    | file metadata bytes => exact ensures_pure hu
    | symlink target => exact ensures_fail hu
    | special => exact ensures_fail hu

theorem removeLockIfTargetAbsent_calm (target lock : Path) (h : Calm disk s) :
    Ensures (fun _ => True) (removeLockIfTargetAbsent target lock) (fun _ => Removed lock disk)
      (fun _ => Removed lock disk) s := by
  have hlock : Ensures (fun _ => True) (acquireStableLock lock) (fun _ => Calm disk)
      (fun _ => Removed lock disk) s :=
    (acquireStableLock_calm lock h).mono (fun _ _ ht => ht) fun _ _ ht => .inl ht
  refine ensures_bind hlock fun locked t ht => ?_
  cases locked with
  | false => exact ensures_pure (.inl ht)
  | true =>
    refine ensures_bind (caught_calm _ ht) ?_
    rintro metadata u ⟨-, hu⟩
    match metadata with
    | .ok _ => exact ensures_pure (.inl hu)
    | .error (.other text) => exact ensures_fail (.inl hu)
    | .error .notFound =>
      refine ensures_bind (ensures_caught (R := fun _ => Removed lock disk) (removeFile_calm hu))
        fun removed v hv => ?_
      refine ensures_bind (ensures_ofExcept (Q := fun _ => Removed lock disk) (fun _ _ => hv) fun _ _ => hv)
        fun _ w hw => ?_
      exact ensures_pure hw

theorem probeLegacyOverrideAt_calm (h : Calm disk s) :
    Ensures (fun _ => True) (probeLegacyOverrideAt path)
      (fun evidence t => (disk.entry path ≠ none → evidence = .ambiguousLegacy) ∧ Calm disk t)
      (fun _ => Calm disk) s := by
  refine ensures_bind (caught_calm _ h) ?_
  rintro metadata t ⟨hanswer, ht⟩
  match metadata with
  | .ok _ => exact ensures_pure ⟨fun _ => rfl, ht⟩
  | .error (.other text) => exact ensures_fail ht
  | .error .notFound =>
    have habsent := symlinkMetadata_notFound hanswer.notFound
    exact ensures_pure ⟨fun hpresent => absurd habsent hpresent, ht⟩

end Steps

section Removal

variable (load : Text → Option IniSections) (disk : Disk) (uid : ℕ) (files : List DropIn)

/-- Every name but those of the locks is as it was, or names a drop-in that was
Lasper's and is gone. -/
def Spared (disk' : Disk) : Prop :=
  ∀ path, (∀ file ∈ files, path ≠ file.lock) →
    Untouched disk disk' path ∨
      ((∃ file ∈ files, path = file.path) ∧ OwnedAt load disk uid path ∧ disk'.entry path = none)

variable {load disk uid files} {disk' : Disk} {s : Scene} {file : DropIn}

theorem Spared.start : Spared load disk uid files disk := fun path _ => .inl (Untouched.refl disk path)

theorem OwnedAt.untouched {path : Path} (h : Untouched disk disk' path) :
    OwnedAt load disk' uid path ↔ OwnedAt load disk uid path := by
  constructor
  · rintro ⟨inode, metadata, bytes, text, hentry, hnode, hrest⟩
    rw [h.1] at hentry
    rw [h.2 inode hentry] at hnode
    exact ⟨inode, metadata, bytes, text, hentry, hnode, hrest⟩
  · rintro ⟨inode, metadata, bytes, text, hentry, hnode, hrest⟩
    rw [← h.2 inode hentry] at hnode
    rw [← h.1] at hentry
    exact ⟨inode, metadata, bytes, text, hentry, hnode, hrest⟩

theorem Untouched.unlink {path other : Path} (h : Untouched disk disk' path) (hne : path ≠ other) :
    Untouched disk (unlink other disk') path :=
  ⟨(Function.update_of_ne hne _ _).trans h.1, h.2⟩

theorem Spared.unlink_lock (h : Spared load disk uid files disk') (hfile : file ∈ files) :
    Spared load disk uid files (unlink file.lock disk') := by
  intro path hpath
  have hne := hpath file hfile
  obtain hsame | ⟨howned, hat, hgone⟩ := h path hpath
  · exact .inl (hsame.unlink hne)
  · exact .inr ⟨howned, hat, (Function.update_of_ne hne _ _).trans hgone⟩

/-- A drop-in that is found owned on the way was owned from the start. -/
theorem Spared.owned (h : Spared load disk uid files disk') (hclear : ∀ other ∈ files, file.path ≠ other.lock)
    (howned : OwnedAt load disk' uid file.path) : OwnedAt load disk uid file.path := by
  obtain hsame | ⟨-, hat, -⟩ := h file.path hclear
  · exact (OwnedAt.untouched hsame).mp howned
  · exact hat

theorem Spared.unlink_path (h : Spared load disk uid files disk') (hfile : file ∈ files)
    (hclear : ∀ other ∈ files, file.path ≠ other.lock) (howned : OwnedAt load disk' uid file.path) :
    Spared load disk uid files (unlink file.path disk') := by
  intro path hpath
  by_cases hp : path = file.path
  · subst hp
    exact .inr ⟨⟨file, hfile, rfl⟩, h.owned hclear howned, Function.update_self _ _ _⟩
  · obtain hsame | ⟨hin, hat, hgone⟩ := h path hpath
    · exact .inl (hsame.unlink hp)
    · exact .inr ⟨hin, hat, (Function.update_of_ne hp _ _).trans hgone⟩

theorem Spared.foreign {path : Path} (h : Spared load disk uid files disk')
    (hclear : ∀ other ∈ files, path ≠ other.lock) (hforeign : Foreign load disk uid path) :
    Untouched disk disk' path ∧ Foreign load disk' uid path := by
  obtain hsame | ⟨-, hat, -⟩ := h path hclear
  · refine ⟨hsame, by rw [hsame.1]; exact hforeign.1, ?_⟩
    rw [OwnedAt.untouched hsame]
    exact hforeign.2
  · exact absurd hat hforeign.2

/-- The removal goes on with nothing lost but what was Lasper's. -/
structure Progress (load : Text → Option IniSections) (disk : Disk) (uid : ℕ) (files : List DropIn) (s : Scene) :
    Prop extends Alone s where
  spared : Spared load disk uid files s.disk

theorem Progress.calm (h : Progress load disk uid files s) : Calm s.disk s := ⟨h.toAlone, rfl⟩

theorem Progress.of_calm (h : Spared load disk uid files disk') (hs : Calm disk' s) :
    Progress load disk uid files s :=
  ⟨hs.toAlone, hs.disk_eq ▸ h⟩

theorem Progress.of_removed {path : Path} (h : Spared load disk uid files disk')
    (hunlink : Spared load disk uid files (unlink path disk')) (hs : Removed path disk' s) :
    Progress load disk uid files s := by
  obtain hs | hs := hs
  · exact .of_calm h hs
  · exact .of_calm hunlink hs

theorem clearOverride_progress {evidence : ArtifactOwnership} (hfile : file ∈ files)
    (hclear : ∀ other ∈ files, file.path ≠ other.lock) (hs : Progress load disk uid files s)
    (hattests : Attests load s.disk uid file.path evidence) :
    Ensures (fun _ => True) (clearOverride file evidence) (fun _ => Progress load disk uid files)
      (fun _ => Progress load disk uid files) s := by
  have hlock : ∀ disk' t, Spared load disk uid files disk' → Removed file.lock disk' t →
      Progress load disk uid files t := fun _ _ h ht => .of_removed h (h.unlink_lock hfile) ht
  cases evidence with
  | ambiguousLegacy => exact ensures_pure hs
  | notPresent =>
    refine ensures_bind ((removeLockIfTargetAbsent_calm file.path file.lock hs.calm).mono
      (fun _ t ht => hlock _ t hs.spared ht) fun _ t ht => hlock _ t hs.spared ht) fun _ t ht => ?_
    exact ensures_pure ht
  | provenOwned =>
    have hgone := hs.spared.unlink_path hfile hclear hattests
    refine ensures_bind ((removeOptionalFile_calm hs.calm).mono
      (fun _ t ht => Progress.of_removed hs.spared hgone ht)
      fun _ t ht => Progress.of_removed hs.spared hgone ht) fun _ t ht => ?_
    exact (removeOptionalFile_calm ht.calm).mono (fun _ u hu => hlock _ u ht.spared hu)
      fun _ u hu => hlock _ u ht.spared hu

/-- What the evidence must say of a file that is not proven to be Lasper's. -/
def Reports (load : Text → Option IniSections) (disk : Disk) (uid : ℕ) (file : DropIn)
    (evidence : ArtifactOwnership) : Prop :=
  Foreign load disk uid file.path → evidence = .ambiguousLegacy

theorem Attests.ambiguous {path : Path} {evidence : ArtifactOwnership}
    (h : Attests load disk uid path evidence) (hforeign : Foreign load disk uid path) :
    evidence = .ambiguousLegacy := by
  cases evidence with
  | ambiguousLegacy => rfl
  | provenOwned => exact absurd h hforeign.2
  | notPresent => exact absurd h hforeign.1

theorem removeOwnedOverride_progress (hfile : file ∈ files)
    (hclear : ∀ other ∈ files, file.path ≠ other.lock) (hs : Progress load disk uid files s) :
    Ensures (fun _ => True) (removeOwnedOverride load uid file)
      (fun evidence t => Reports load disk uid file evidence ∧ Progress load disk uid files t)
      (fun _ => Progress load disk uid files) s := by
  have hprobe : Ensures (fun _ => True) (probeOwnedOverrideAt load file.path uid)
      (fun evidence t => Attests load s.disk uid file.path evidence ∧ Calm s.disk t)
      (fun _ => Progress load disk uid files) s :=
    (probeOwnedOverrideAt_calm hs.calm).mono (fun _ _ ht => ht) fun _ _ ht => .of_calm hs.spared ht
  refine ensures_bind hprobe ?_
  rintro evidence t ⟨hattests, ht⟩
  have hreports : Reports load disk uid file evidence := by
    intro hforeign
    exact hattests.ambiguous (hs.spared.foreign hclear hforeign).2
  have hprogress : Progress load disk uid files t := .of_calm hs.spared ht
  rw [← ht.disk_eq] at hattests
  refine ensures_bind (clearOverride_progress hfile hclear hprogress hattests) fun _ u hu => ?_
  exact ensures_pure ⟨hreports, hu⟩

/-- Each of the visits goes on with the removal and reports what it found. -/
def Gathers (load : Text → Option IniSections) (disk : Disk) (uid : ℕ) (files : List DropIn)
    (f : DropIn → Host ArtifactOwnership) (visited : List DropIn) : Prop :=
  ∀ file ∈ visited, ∀ t, Progress load disk uid files t → Ensures (fun _ => True) (f file)
    (fun evidence u => Reports load disk uid file evidence ∧ Progress load disk uid files u)
    (fun _ => Progress load disk uid files) t

theorem collect_progress {f : DropIn → Host ArtifactOwnership} {visited : List DropIn}
    (hf : Gathers load disk uid files f visited) (hs : Progress load disk uid files s) :
    Ensures (fun _ => True) (collect f visited)
      (fun evidence t => List.Forall₂ (Reports load disk uid) visited evidence ∧ Progress load disk uid files t)
      (fun _ => Progress load disk uid files) s := by
  induction visited generalizing s with
  | nil => exact ensures_pure ⟨.nil, hs⟩
  | cons file rest ih =>
    refine ensures_bind (hf file List.mem_cons_self s hs) ?_
    rintro evidence t ⟨hreports, ht⟩
    refine ensures_bind (ih (fun other ho => hf other (List.mem_cons_of_mem _ ho)) ht) ?_
    rintro others u ⟨hothers, hu⟩
    exact ensures_pure ⟨.cons hreports hothers, hu⟩

theorem removeEmptyDir_progress (dir : Path) (hs : Progress load disk uid files s) :
    Ensures (fun _ => True) (removeEmptyDir dir) (fun _ => Progress load disk uid files)
      (fun _ => Progress load disk uid files) s :=
  (removeEmptyDir_calm hs.calm).mono (fun _ _ ht => .of_calm hs.spared ht) fun _ _ ht => .of_calm hs.spared ht

variable {persistentDir transientDir : Path}

theorem removeOwnedOverride_gathers :
    Gathers load disk uid (ownedDropIns persistentDir transientDir) (removeOwnedOverride load uid)
      (ownedDropIns persistentDir transientDir) := by
  intro file hfile t ht
  refine removeOwnedOverride_progress hfile ?_ ht
  exact fun other hother => path_ne_lock (List.mem_append_left _ hfile) hother

theorem probeLegacyOverrideAt_gathers :
    Gathers load disk uid (ownedDropIns persistentDir transientDir)
      (fun file => probeLegacyOverrideAt file.path) (legacyDropIns persistentDir transientDir) := by
  intro file hfile t ht
  refine (probeLegacyOverrideAt_calm ht.calm).mono ?_ fun _ _ hu => .of_calm ht.spared hu
  rintro evidence u ⟨hevidence, hu⟩
  refine ⟨fun hforeign => hevidence ?_, .of_calm ht.spared hu⟩
  have hclear : ∀ other ∈ ownedDropIns persistentDir transientDir, file.path ≠ other.lock :=
    fun other hother => path_ne_lock (List.mem_append_right _ hfile) hother
  exact (ht.spared.foreign hclear hforeign).2.1

theorem removeOwnedLasperOverrides_progress (h : Calm disk s) :
    Ensures (fun _ => True) (removeOwnedLasperOverridesAtWithUid load persistentDir transientDir uid)
      (fun evidence t =>
        List.Forall₂ (Reports load disk uid)
          (ownedDropIns persistentDir transientDir ++ legacyDropIns persistentDir transientDir) evidence ∧
        Progress load disk uid (ownedDropIns persistentDir transientDir) t)
      (fun _ => Progress load disk uid (ownedDropIns persistentDir transientDir)) s := by
  refine ensures_bind (collect_progress removeOwnedOverride_gathers (.of_calm .start h)) ?_
  rintro owned t ⟨hreports, ht⟩
  refine ensures_bind (collect_progress probeLegacyOverrideAt_gathers ht) ?_
  rintro legacy u ⟨hlegacyReports, hu⟩
  refine ensures_bind (removeEmptyDir_progress _ hu) fun _ v hv => ?_
  refine ensures_bind (removeEmptyDir_progress _ hv) fun _ w hw => ?_
  exact ensures_pure ⟨List.rel_append hreports hlegacyReports, hw⟩

end Removal

section Faultless

variable {load : Text → Option IniSections} {disk : Disk} {s : Scene} {path : Path} {uid : ℕ}

/-- Besides, no system call fails of itself. -/
structure Sound (disk : Disk) (s : Scene) : Prop extends Calm disk s where
  faultless : ∀ n, s.faults n = none

theorem Sound.tick (h : Sound disk s) : Sound disk s.tick := ⟨h.toCalm.tick, h.faultless⟩

theorem Sound.answer {α : Type} (h : Sound disk s) (call : Disk → Except IoError α) :
    Scene.answer call s = call disk := by
  rw [Scene.answer, h.faultless, ← h.disk_eq]

theorem caught_sound {α ε : Type} {E : ε → Scene → Prop} (call : Disk → Except IoError α) (h : Sound disk s) :
    Ensures (fun _ => True) (caught (systemCall call)) (fun answer t => answer = call disk ∧ Sound disk t) E s := by
  apply ensures_caught
  apply (systemCall_run call s).mono
  · rintro a t ⟨ha, rfl⟩
    exact ⟨ha.symm.trans (h.tick.answer call), h.tick⟩
  · rintro e t ⟨he, rfl⟩
    exact ⟨he.symm.trans (h.tick.answer call), h.tick⟩

theorem callAt_sound {α : Type} (names : List Component) (call : Disk → Except IoError α) {a : α}
    {E : NspawnError → Scene → Prop} (hcall : call disk = .ok a) (h : Sound disk s) :
    Ensures (fun _ => True) (callAt names call) (fun b t => b = a ∧ Sound disk t) E s := by
  refine ensures_bind (caught_sound call h) ?_
  rintro answer t ⟨rfl, ht⟩
  rw [hcall]
  exact ensures_pure ⟨rfl, ht⟩

/-- The file passes every check that is made before its text is decoded. -/
def Undecodable (disk : Disk) (path : Path) : Prop :=
  ∃ inode metadata bytes error, disk.entry path = some inode ∧ disk.node inode = .file metadata bytes ∧
    Disk.decodeUtf8 bytes = .error error

theorem readOverrideContent_sound {inode : ℕ} {metadata : FileMetadata} {bytes : ByteArray}
    (hentry : disk.entry path = some inode) (hnode : disk.node inode = .file metadata bytes)
    (hsize : bytes.size ≤ maxOverrideContentBytes) (h : Sound disk s) :
    Ensures (fun _ => True) (readOverrideContent path) (fun _ _ => True)
      (fun _ _ => Undecodable disk path) s := by
  have hsmall : ¬ maxOverrideContentBytes < bytes.size := by omega
  refine ensures_bind (callAt_sound _ _ (openFile_file hentry hnode) h) ?_
  rintro opened t ⟨hopened, ht⟩
  subst opened
  refine ensures_bind (callAt_sound _ _ rfl ht) ?_
  rintro node u ⟨hread, hu⟩
  subst node
  have hcheck : checkOverrideFile path (disk.node inode) = .ok () := by
    rw [hnode, checkOverrideFile, if_neg hsmall]
  rw [hcheck, ofExcept_ok_bind]
  have htake : takeOverride inode disk = .ok bytes := by
    rw [takeOverride, hnode]
    exact congrArg Except.ok (extract_all (by omega))
  refine ensures_bind (callAt_sound _ _ htake hu) ?_
  rintro taken v ⟨htaken, hv⟩
  subst taken
  rw [checkTaken, if_neg hsmall, ofExcept_ok_bind]
  apply ensures_ofExcept
  · exact fun _ _ => trivial
  · intro e he
    cases hd : Disk.decodeUtf8 bytes with
    | ok text => rw [hd] at he; cases he
    | error error => exact ⟨inode, metadata, bytes, error, hentry, hnode, hd⟩

theorem probeOwnedOverrideAt_sound (h : Sound disk s) :
    Ensures (fun _ => True) (probeOwnedOverrideAt load path uid) (fun _ _ => True)
      (fun _ _ => Undecodable disk path) s := by
  refine ensures_bind (caught_sound _ h) ?_
  rintro answer t ⟨rfl, ht⟩
  cases hentry : disk.entry path with
  | none =>
    rw [Disk.symlinkMetadata, hentry]
    exact ensures_pure trivial
  | some inode =>
    rw [Disk.symlinkMetadata, hentry]
    show Ensures _ (if suspicious uid (disk.node inode) = true then _ else _) _ _ t
    by_cases hsuspicious : suspicious uid (disk.node inode) = true
    · rw [if_pos hsuspicious]
      exact ensures_pure trivial
    · rw [if_neg hsuspicious]
      cases hnode : disk.node inode with
      | symlink target => rw [hnode] at hsuspicious; exact absurd rfl hsuspicious
      | special => rw [hnode] at hsuspicious; exact absurd rfl hsuspicious
      | file metadata bytes =>
        have hsize : bytes.size ≤ maxOverrideContentBytes := by
          by_contra hlarge
          exact hsuspicious (by simp [suspicious, hnode, not_le.mp hlarge])
        exact ensures_bind (readOverrideContent_sound hentry hnode hsize ht) fun _ _ _ => ensures_pure trivial

theorem applyNewOverrideAtWithUid_sound {content : Text} (hforeign : Foreign load disk uid path)
    (h : Sound disk s) :
    Ensures (fun _ => True) (applyNewOverrideAtWithUid load path content uid) (fun _ _ => True)
      (fun _ _ => Undecodable disk path) s := by
  have hprobe : Ensures (fun _ => True) (probeOwnedOverrideAt load path uid)
      (fun evidence _ => Attests load disk uid path evidence) (fun _ _ => Undecodable disk path) s :=
    ((probeOwnedOverrideAt_calm h.toCalm).and (probeOwnedOverrideAt_sound h)).mono
      (fun _ _ ht => ht.1.1) fun _ _ ht => ht.2
  refine ensures_bind hprobe fun ownership t hattests => ?_
  have hambiguous : ownership = .ambiguousLegacy := hattests.ambiguous hforeign
  rw [if_pos hambiguous]
  exact ensures_pure trivial

end Faultless

section Preservation

/-- The disk is left to this program; the calls whose failure is given fail. -/
def aloneScene (disk : Disk) (failures : ℕ → Option String) (stamps : ℕ → FileMetadata) : Scene :=
  ⟨disk, fun _ disk => disk, fun n => (failures n).map .other, stamps, 0, none⟩

variable (load : Text → Option IniSections) (disk : Disk) (failures : ℕ → Option String)
  (stamps : ℕ → FileMetadata) (uid : ℕ)

theorem aloneScene_calm : Calm disk (aloneScene disk failures stamps) where
  quiet _ _ := rfl
  honest n h := by
    obtain ⟨text, -, htext⟩ := Option.map_eq_some_iff.mp h
    cases htext
  disk_eq := rfl

variable {load disk uid} in
theorem Applied.untouched {path : Path} {content : Text} {disk' : Disk} {status : ResourceApplyStatus}
    (h : Applied load disk uid path content disk' status) (other : Path) :
    Untouched disk disk' other ∨ other = path ∧ (disk.entry path = none ∨ OwnedAt load disk uid path) := by
  have hwritten : ∀ metadata, (disk.entry path = none ∨ OwnedAt load disk uid path) →
      Untouched disk (disk.persist path metadata (Disk.encodeUtf8 content)) other ∨
        other = path ∧ (disk.entry path = none ∨ OwnedAt load disk uid path) := by
    intro metadata hpath
    by_cases hother : other = path
    · exact .inr ⟨hother, hpath⟩
    · exact .inl (persist_untouched hother metadata _)
  cases status with
  | created =>
    obtain ⟨habsent, metadata, rfl⟩ := h
    exact hwritten metadata (.inl habsent)
  | replacedOwned =>
    obtain ⟨howned, metadata, rfl⟩ := h
    exact hwritten metadata (.inr howned)
  | unchanged => exact .inl (h.1 ▸ Untouched.refl disk other)
  | conflictUnknownOwner => exact .inl (h.1 ▸ Untouched.refl disk other)

variable {load disk failures stamps uid}

theorem applyNewOverrideAtWithUid_untouched (path : Path) (content : Text) (other : Path) :
    Untouched disk (applyNewOverrideAtWithUid load path content uid (aloneScene disk failures stamps)).state.disk
      other ∨ other = path ∧ (disk.entry path = none ∨ OwnedAt load disk uid path) := by
  have happly : Ensures (fun _ => True) (applyNewOverrideAtWithUid load path content uid)
      (fun status t => Applied load disk uid path content t.disk status) (fun _ t => t.disk = disk)
      (aloneScene disk failures stamps) := applyNewOverrideAtWithUid_calm (aloneScene_calm ..)
  cases hresult : (applyNewOverrideAtWithUid load path content uid (aloneScene disk failures stamps)).result with
  | ok status => exact (happly.returned status hresult).untouched other
  | error error =>
    rw [happly.failed error hresult]
    exact .inl (Untouched.refl disk other)

theorem applyNewOverrideAtWithUid_foreign {path : Path} (content : Text) (hforeign : Foreign load disk uid path) :
    let outcome := applyNewOverrideAtWithUid load path content uid (aloneScene disk failures stamps)
    outcome.result = .ok .conflictUnknownOwner ∨
      (∃ error, outcome.result = .error error) ∧ ((∃ n, failures n ≠ none) ∨ Undecodable disk path) := by
  have hcalm := aloneScene_calm disk failures stamps
  have happly : Ensures (fun _ => True) (applyNewOverrideAtWithUid load path content uid)
      (fun status t => Applied load disk uid path content t.disk status) (fun _ t => t.disk = disk)
      (aloneScene disk failures stamps) := applyNewOverrideAtWithUid_calm hcalm
  intro outcome
  cases hresult : outcome.result with
  | ok status =>
    have happlied := happly.returned status hresult
    cases status with
    | created => exact absurd happlied.1 hforeign.1
    | replacedOwned => exact absurd happlied.1 hforeign.2
    | unchanged => exact absurd happlied.2.1 hforeign.2
    | conflictUnknownOwner => exact .inl rfl
  | error error =>
    refine .inr ⟨⟨error, rfl⟩, ?_⟩
    by_cases hfailures : ∃ n, failures n ≠ none
    · exact .inl hfailures
    · have hsound : Sound disk (aloneScene disk failures stamps) := by
        refine ⟨hcalm, fun n => ?_⟩
        have hn : failures n = none := by
          by_contra hn
          exact hfailures ⟨n, hn⟩
        simp [aloneScene, hn]
      exact .inr ((applyNewOverrideAtWithUid_sound hforeign hsound).failed error hresult)

variable (load disk failures stamps uid)

/-- Applying an override, and removing the overrides, touches a drop-in only if
it was absent or proven to be Lasper's. A file of any other kind is as it was,
and is reported as such unless the operation failed. -/
theorem unowned_dropIns_preserved :
    (∀ path content,
      let outcome := applyNewOverrideAtWithUid load path content uid (aloneScene disk failures stamps)
      (∀ other, Untouched disk outcome.state.disk other ∨
        other = path ∧ (disk.entry path = none ∨ OwnedAt load disk uid path)) ∧
      (Foreign load disk uid path → Untouched disk outcome.state.disk path ∧
        (outcome.result = .ok .conflictUnknownOwner ∨
          (∃ error, outcome.result = .error error) ∧ ((∃ n, failures n ≠ none) ∨ Undecodable disk path)))) ∧
    (∀ persistentDir transientDir,
      let outcome := removeOwnedLasperOverridesAtWithUid load persistentDir transientDir uid
        (aloneScene disk failures stamps)
      let owned := ownedDropIns persistentDir transientDir
      let visited := owned ++ legacyDropIns persistentDir transientDir
      (∀ path, (∀ file ∈ owned, path ≠ file.lock) → Untouched disk outcome.state.disk path ∨
        (∃ file ∈ owned, path = file.path) ∧ OwnedAt load disk uid path) ∧
      (∀ file ∈ visited, Foreign load disk uid file.path → Untouched disk outcome.state.disk file.path) ∧
      ∀ evidence, outcome.result = .ok evidence → List.Forall₂
        (fun file found => Foreign load disk uid file.path → found = ArtifactOwnership.ambiguousLegacy)
        visited evidence) := by
  constructor
  · intro path content
    refine ⟨applyNewOverrideAtWithUid_untouched path content, fun hforeign => ⟨?_, ?_⟩⟩
    · obtain hsame | ⟨-, habsent | howned⟩ := applyNewOverrideAtWithUid_untouched path content path
      · exact hsame
      · exact absurd habsent hforeign.1
      · exact absurd howned hforeign.2
    · exact applyNewOverrideAtWithUid_foreign content hforeign
  · intro persistentDir transientDir outcome owned visited
    have hremove : Ensures (fun _ => True)
        (removeOwnedLasperOverridesAtWithUid load persistentDir transientDir uid)
        (fun evidence t => List.Forall₂ (Reports load disk uid) visited evidence ∧
          Progress load disk uid owned t)
        (fun _ => Progress load disk uid owned) (aloneScene disk failures stamps) :=
      removeOwnedLasperOverrides_progress (aloneScene_calm ..)
    have hspared : Spared load disk uid owned outcome.state.disk := by
      cases hresult : outcome.result with
      | ok evidence => exact (hremove.returned evidence hresult).2.spared
      | error error => exact (hremove.failed error hresult).spared
    refine ⟨fun path hpath => ?_, fun file hfile hforeign => ?_, fun evidence hevidence => ?_⟩
    · obtain hsame | ⟨hin, hat, -⟩ := hspared path hpath
      · exact .inl hsame
      · exact .inr ⟨hin, hat⟩
    · exact (hspared.foreign (fun other hother => path_ne_lock hfile hother) hforeign).1
    · exact (hremove.returned evidence hevidence).1

end Preservation

end Lasper.Overrides
