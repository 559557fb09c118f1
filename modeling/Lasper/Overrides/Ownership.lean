import Lasper.Overrides.DropIns

/-! A drop-in is replaced or deleted only when the file at its name is proven to
be Lasper's. Any other file stays as it is, and the result says that it does. -/

namespace Lasper.Overrides

open Lib Traced Config
open Provisioning (ResourceApplyStatus)

section Alone

/-- Nobody else writes, and a name that is there is never reported missing. -/
structure Alone (s : Scene) : Prop where
  quiet : ∀ n disk, s.others n disk = disk
  honest : ∀ n, s.faults n ≠ some .notFound

/-- The disk has not changed. -/
structure Calm (disk : Disk) (s : Scene) : Prop extends Alone s where
  disk_eq : s.disk = disk

/-- A call answers what the disk says, or fails for another reason. -/
def Answers {α : Type} (truth answer : Except IoError α) : Prop :=
  answer = truth ∨ ∃ text, answer = .error (.other text)

variable {α : Type} {disk : Disk} {s : Scene} {path : Path}

theorem Answers.notFound {truth : Except IoError α} (h : Answers truth (.error .notFound)) :
    truth = .error .notFound := by
  obtain h | ⟨text, h⟩ := h
  · exact h.symm
  · cases h

theorem Answers.ok {truth : Except IoError α} {a : α} (h : Answers truth (.ok a)) : truth = .ok a := by
  obtain h | ⟨text, h⟩ := h
  · exact h.symm
  · cases h

theorem Calm.tick (h : Calm disk s) : Calm disk s.tick where
  quiet := h.quiet
  honest := h.honest
  disk_eq := (h.quiet _ _).trans h.disk_eq

theorem Calm.hold (h : Calm disk s) (lock : List Component) : Calm disk (s.hold lock) := ⟨⟨h.quiet, h.honest⟩, h.disk_eq⟩

theorem Calm.release (h : Calm disk s) : Calm disk s.release := ⟨⟨h.quiet, h.honest⟩, h.disk_eq⟩

/-- A call lets the others act, and then answers. -/
theorem systemCall_run (call : Disk → Except IoError α) (s : Scene) :
    Ensures (fun _ => True) (systemCall call) (fun a t => Scene.answer call t = .ok a ∧ t = s.tick)
      (fun e t => Scene.answer call t = .error e ∧ t = s.tick) s := by
  refine ensures_bind (ensures_update (R := fun _ t => t = s.tick) trivial rfl) ?_
  rintro _ t rfl
  have hread : Ensures (fun _ => True) (Traced.read (Scene.answer call) : Traced Scene IoError _)
      (fun answer t => Scene.answer call t = answer ∧ t = s.tick)
      (fun e t => Scene.answer call t = .error e ∧ t = s.tick) s.tick :=
    ensures_read ⟨rfl, rfl⟩
  refine ensures_bind hread ?_
  rintro answer t ⟨hanswer, rfl⟩
  exact ensures_ofExcept (fun a ha => ⟨hanswer.trans ha, rfl⟩) fun e he => ⟨hanswer.trans he, rfl⟩

theorem answer_calm (call : Disk → Except IoError α) (h : Calm disk s) :
    Answers (call disk) (Scene.answer call s) := by
  unfold Scene.answer
  cases hf : s.faults s.clock with
  | none => exact .inl (by rw [h.disk_eq])
  | some error =>
    cases error with
    | notFound => exact absurd hf (h.honest _)
    | other text => exact .inr ⟨text, rfl⟩

theorem systemCall_calm (call : Disk → Except IoError α) (h : Calm disk s) :
    Ensures (fun _ => True) (systemCall call) (fun a t => Answers (call disk) (.ok a) ∧ Calm disk t)
      (fun e t => Answers (call disk) (.error e) ∧ Calm disk t) s := by
  apply (systemCall_run call s).mono
  · rintro a t ⟨ha, rfl⟩
    exact ⟨ha ▸ answer_calm call h.tick, h.tick⟩
  · rintro e t ⟨he, rfl⟩
    exact ⟨he ▸ answer_calm call h.tick, h.tick⟩

theorem caught_calm {ε : Type} {E : ε → Scene → Prop} (call : Disk → Except IoError α) (h : Calm disk s) :
    Ensures (fun _ => True) (caught (systemCall call))
      (fun answer t => Answers (call disk) answer ∧ Calm disk t) E s :=
  ensures_caught (systemCall_calm call h)

theorem callAt_calm (names : List Component) (call : Disk → Except IoError α) (h : Calm disk s) :
    Ensures (fun _ => True) (callAt names call) (fun a t => call disk = .ok a ∧ Calm disk t)
      (fun _ t => Calm disk t) s := by
  refine ensures_bind (caught_calm call h) ?_
  rintro answer t ⟨hanswer, ht⟩
  cases answer with
  | ok a => exact ensures_pure ⟨hanswer.ok, ht⟩
  | error error => exact ensures_fail ht

end Alone

section Reading

variable {disk : Disk} {s : Scene} {path : Path}

/-- Opening the name reaches a regular file of bounded size with this text. -/
def Reads (disk : Disk) (path : Path) (text : Text) : Prop :=
  ∃ inode metadata bytes, openFile disk Disk.maxSymlinks path = .ok inode ∧
    disk.node inode = .file metadata bytes ∧ bytes.size ≤ maxOverrideContentBytes ∧
    Disk.decodeUtf8 bytes = .ok text

theorem extract_all {bytes : ByteArray} {n : ℕ} (h : bytes.size ≤ n) : bytes.extract 0 n = bytes := by
  apply ByteArray.ext
  rw [ByteArray.data_extract]
  exact Array.extract_eq_self_of_le h

theorem checkOverrideFile_ok {node : Node} (h : checkOverrideFile path node = .ok ()) :
    ∃ metadata bytes, node = .file metadata bytes ∧ bytes.size ≤ maxOverrideContentBytes := by
  cases node with
  | file metadata bytes =>
    simp only [checkOverrideFile] at h
    split_ifs at h with hsize
    exact ⟨metadata, bytes, rfl, by omega⟩
  | symlink target => cases h
  | special => cases h

theorem readOverrideContent_calm (h : Calm disk s) :
    Ensures (fun _ => True) (readOverrideContent path) (fun text t => Reads disk path text ∧ Calm disk t)
      (fun _ t => Calm disk t) s := by
  refine ensures_bind (callAt_calm _ _ h) ?_
  rintro inode t ⟨hopen, ht⟩
  refine ensures_bind (callAt_calm _ _ ht) ?_
  rintro node u ⟨hnode, hu⟩
  cases hnode
  have hcheck : Ensures (fun _ => True) (ofExcept (checkOverrideFile path (disk.node inode)) : Host Unit)
      (fun _ v => checkOverrideFile path (disk.node inode) = .ok () ∧ Calm disk v) (fun _ v => Calm disk v) u :=
    ensures_ofExcept (fun _ ha => ⟨ha, hu⟩) fun _ _ => hu
  refine ensures_bind hcheck ?_
  rintro _ v ⟨hfile, hv⟩
  obtain ⟨metadata, bytes, hnode, hsize⟩ := checkOverrideFile_ok hfile
  refine ensures_bind (callAt_calm _ _ hv) ?_
  rintro taken w ⟨htaken, hw⟩
  have hall : taken = bytes := by
    simp only [takeOverride, hnode, Except.ok.injEq] at htaken
    rw [← htaken]
    exact extract_all (by omega)
  subst hall
  refine ensures_bind (ensures_ofExcept (Q := fun _ => Calm disk) (fun _ _ => hw) fun _ _ => hw) ?_
  intro _ x hx
  apply ensures_ofExcept
  · intro text htext
    refine ⟨⟨inode, metadata, taken, hopen, hnode, hsize, ?_⟩, hx⟩
    cases hd : Disk.decodeUtf8 taken with
    | ok other => rw [hd] at htext; cases htext; rfl
    | error error => rw [hd] at htext; cases htext
  · exact fun _ _ => hx

end Reading

section Evidence

variable (load : Text → Option IniSections)

/-- A regular file of bounded size with the expected owner and mode, whose text
is recognized. -/
def OwnedAt (disk : Disk) (uid : ℕ) (path : Path) : Prop :=
  ∃ inode metadata bytes text, disk.entry path = some inode ∧ disk.node inode = .file metadata bytes ∧
    bytes.size ≤ maxOverrideContentBytes ∧ metadata.uid = uid ∧ metadata.mode % 0o10000 = 0o644 ∧
    Disk.decodeUtf8 bytes = .ok text ∧ isOwnedOverrideContent load text = true

/-- There is something at the name, and it is not proven to be Lasper's. -/
def Foreign (disk : Disk) (uid : ℕ) (path : Path) : Prop :=
  disk.entry path ≠ none ∧ ¬ OwnedAt load disk uid path

/-- What the evidence found at a name says about it. -/
def Attests (disk : Disk) (uid : ℕ) (path : Path) : ArtifactOwnership → Prop
  | .provenOwned => OwnedAt load disk uid path
  | .ambiguousLegacy => Foreign load disk uid path
  | .notPresent => disk.entry path = none

variable {load} {disk : Disk} {s : Scene} {path : Path} {uid : ℕ}

theorem symlinkMetadata_ok {node : Node} (h : disk.symlinkMetadata path = .ok node) :
    ∃ inode, disk.entry path = some inode ∧ disk.node inode = node := by
  unfold Disk.symlinkMetadata at h
  split at h
  · cases h
  · rename_i inode hentry
    exact ⟨inode, hentry, Except.ok.inj h⟩

theorem symlinkMetadata_notFound (h : disk.symlinkMetadata path = .error .notFound) :
    disk.entry path = none := by
  unfold Disk.symlinkMetadata at h
  split at h
  · assumption
  · cases h

theorem openFile_file {inode : ℕ} {metadata : FileMetadata} {bytes : ByteArray}
    (hentry : disk.entry path = some inode) (hnode : disk.node inode = .file metadata bytes) :
    openFile disk Disk.maxSymlinks path = .ok inode := by
  simp only [Disk.maxSymlinks, openFile, hentry, hnode]

/-- The file whose metadata passed is the one that is read. -/
theorem Reads.unique {inode : ℕ} {metadata : FileMetadata} {bytes : ByteArray} {text : Text}
    (h : Reads disk path text) (hentry : disk.entry path = some inode)
    (hnode : disk.node inode = .file metadata bytes) : Disk.decodeUtf8 bytes = .ok text := by
  obtain ⟨other, metadata', bytes', hopen, hother, _, htext⟩ := h
  rw [openFile_file hentry hnode] at hopen
  cases hopen
  rw [hnode] at hother
  cases hother
  exact htext

theorem suspicious_foreign {inode : ℕ} (hentry : disk.entry path = some inode)
    (h : suspicious uid (disk.node inode) = true) : Foreign load disk uid path := by
  refine ⟨by rw [hentry]; exact Option.some_ne_none _, ?_⟩
  rintro ⟨inode', metadata, bytes, text, hentry', hnode, hsize, huid, hmode, -, -⟩
  rw [hentry] at hentry'
  cases hentry'
  have hsize' : ¬ maxOverrideContentBytes < bytes.size := by omega
  simp [suspicious, hnode, hsize', huid, hmode] at h

theorem probeOwnedOverrideAt_calm (h : Calm disk s) :
    Ensures (fun _ => True) (probeOwnedOverrideAt load path uid)
      (fun evidence t => Attests load disk uid path evidence ∧ Calm disk t) (fun _ t => Calm disk t) s := by
  refine ensures_bind (caught_calm _ h) ?_
  rintro answer t ⟨hanswer, ht⟩
  match answer with
  | .error .notFound => exact ensures_pure ⟨symlinkMetadata_notFound hanswer.notFound, ht⟩
  | .error (.other text) => exact ensures_fail ht
  | .ok node =>
    obtain ⟨inode, hentry, rfl⟩ := symlinkMetadata_ok hanswer.ok
    show Ensures _ (if suspicious uid (disk.node inode) = true then _ else _) _ _ t
    by_cases hsuspicious : suspicious uid (disk.node inode) = true
    · rw [if_pos hsuspicious]
      exact ensures_pure ⟨suspicious_foreign hentry hsuspicious, ht⟩
    · rw [if_neg hsuspicious]
      refine ensures_bind (readOverrideContent_calm ht) ?_
      rintro text u ⟨hreads, hu⟩
      refine ensures_pure ⟨?_, hu⟩
      cases hnode : disk.node inode with
      | symlink target => rw [hnode] at hsuspicious; exact absurd rfl hsuspicious
      | special => rw [hnode] at hsuspicious; exact absurd rfl hsuspicious
      | file metadata bytes =>
        have htext := hreads.unique hentry hnode
        have hclean : ¬ maxOverrideContentBytes < bytes.size ∧ metadata.uid = uid ∧
            metadata.mode % 0o10000 = 0o644 := by
          simpa [suspicious, hnode, and_assoc] using hsuspicious
        obtain ⟨hsize, huid, hmode⟩ := hclean
        by_cases howned : isOwnedOverrideContent load text = true
        · rw [if_pos howned]
          exact ⟨inode, metadata, bytes, text, hentry, hnode, by omega, huid, hmode, htext, howned⟩
        · rw [if_neg howned]
          refine ⟨by rw [hentry]; exact Option.some_ne_none _, ?_⟩
          rintro ⟨inode', metadata', bytes', text', hentry', hnode', -, -, -, htext', howned'⟩
          rw [hentry] at hentry'
          cases hentry'
          rw [hnode] at hnode'
          cases hnode'
          rw [htext] at htext'
          cases htext'
          exact howned howned'

end Evidence

section Application

variable {load : Text → Option IniSections} {disk : Disk} {s : Scene} {path : Path} {uid : ℕ} {content : Text}

/-- The name, and the file that it names, are as they were. -/
def Untouched (disk disk' : Disk) (path : Path) : Prop :=
  disk'.entry path = disk.entry path ∧
    ∀ inode, disk.entry path = some inode → disk'.node inode = disk.node inode

theorem Untouched.refl (disk : Disk) (path : Path) : Untouched disk disk path := ⟨rfl, fun _ _ => rfl⟩

theorem persist_untouched {other : Path} (h : other ≠ path) (metadata : FileMetadata) (bytes : ByteArray) :
    Untouched disk (disk.persist path metadata bytes) other := by
  refine ⟨Function.update_of_ne h _ _, fun inode hentry => ?_⟩
  have hlt := disk.entry_lt other inode hentry
  exact Function.update_of_ne (by omega) _ _

/-- What became of the name when an override was applied to it. -/
def Applied (load : Text → Option IniSections) (disk : Disk) (uid : ℕ) (path : Path) (content : Text)
    (disk' : Disk) : ResourceApplyStatus → Prop
  | .created => disk.entry path = none ∧
    ∃ metadata, disk' = disk.persist path metadata (Disk.encodeUtf8 content)
  | .replacedOwned => OwnedAt load disk uid path ∧
    ∃ metadata, disk' = disk.persist path metadata (Disk.encodeUtf8 content)
  | .unchanged => disk' = disk ∧ OwnedAt load disk uid path ∧ disk.readToString path = .ok content
  | .conflictUnknownOwner => disk' = disk ∧ Foreign load disk uid path

theorem persistAtomic_calm (mode : ℕ) (h : Calm disk s) :
    Ensures (fun _ => True) (persistAtomic path content mode)
      (fun _ t => ∃ metadata, t.disk = disk.persist path metadata (Disk.encodeUtf8 content))
      (fun _ t => t.disk = disk) s := by
  have hcall : ∀ (names : List Component) (u : Scene), Calm disk u →
      Ensures (fun _ => True) (callAt names fun _ => .ok ()) (fun _ => Calm disk) (fun _ t => t.disk = disk) u :=
    fun names u hu => (callAt_calm names _ hu).mono (fun _ _ ht => ht.2) fun _ _ ht => ht.disk_eq
  refine ensures_bind (hcall _ s h) fun _ t ht => ?_
  refine ensures_bind (hcall _ t ht) fun _ u hu => ?_
  refine ensures_update trivial ⟨{ u.stamps u.clock with mode }, ?_⟩
  rw [← hu.disk_eq]
  rfl

theorem existingMode_calm (h : Calm disk s) :
    Ensures (fun _ => True) (existingMode path) (fun _ => Calm disk) (fun _ t => t.disk = disk) s := by
  refine ensures_bind (caught_calm _ h) ?_
  rintro node t ⟨-, ht⟩
  exact ensures_ofExcept (fun _ _ => ht) fun _ _ => ht.disk_eq

theorem writeWithMode_calm (mode : ℕ) (h : Calm disk s) :
    Ensures (fun _ => True) (writeWithMode path mode (some content))
      (fun _ t => ∃ metadata, t.disk = disk.persist path metadata (Disk.encodeUtf8 content))
      (fun _ t => t.disk = disk) s :=
  ensures_bind (existingMode_calm h) fun _ _ ht => persistAtomic_calm mode ht

theorem existingContent_calm (h : Calm disk s) :
    Ensures (fun _ => True) (existingContent path)
      (fun existing t => existingOf path (disk.readToString path) = .ok existing ∧ Calm disk t)
      (fun _ t => t.disk = disk) s := by
  refine ensures_bind (caught_calm _ h) ?_
  rintro answer t ⟨hanswer, ht⟩
  apply ensures_ofExcept
  · intro existing hexisting
    obtain rfl | ⟨text, rfl⟩ := hanswer
    · exact ⟨hexisting, ht⟩
    · cases hexisting
  · exact fun _ _ => ht.disk_eq

theorem readToString_absent (h : disk.entry path = none) : disk.readToString path = .error .notFound := by
  simp only [Disk.readToString, Disk.maxSymlinks, Disk.follow, h]

/-- The text of an owned file is the one that was recognized. -/
theorem OwnedAt.readToString (h : OwnedAt load disk uid path) :
    ∃ text, disk.readToString path = .ok text ∧ isOwnedOverrideContent load text = true := by
  obtain ⟨inode, metadata, bytes, text, hentry, hnode, -, -, -, htext, howned⟩ := h
  refine ⟨text, ?_, howned⟩
  simp only [Disk.readToString, Disk.maxSymlinks, Disk.follow, hentry, hnode, htext]

/-- What is decided under the lock agrees with what was found before. -/
theorem decideOverride_attested (content : Text) {ownership : ArtifactOwnership} {existing : Option Text}
    (hattests : Attests load disk uid path ownership) (hclear : ownership ≠ .ambiguousLegacy)
    (hexisting : existingOf path (disk.readToString path) = .ok existing) :
    (ownership = .notPresent ∧ decideOverride load ownership content existing = (some content, .created)) ∨
    (ownership = .provenOwned ∧ disk.readToString path = .ok content ∧
      decideOverride load ownership content existing = (none, .unchanged)) ∨
    (ownership = .provenOwned ∧
      decideOverride load ownership content existing = (some content, .replacedOwned)) := by
  cases ownership with
  | ambiguousLegacy => exact absurd rfl hclear
  | notPresent =>
    rw [readToString_absent hattests] at hexisting
    cases hexisting
    exact .inl ⟨rfl, rfl⟩
  | provenOwned =>
    obtain ⟨text, htext, howned⟩ := OwnedAt.readToString hattests
    rw [htext] at hexisting
    cases hexisting
    by_cases hsame : text = content
    · exact .inr (.inl ⟨rfl, hsame ▸ htext, by simp [decideOverride, hsame]⟩)
    · exact .inr (.inr ⟨rfl, by simp [decideOverride, hsame, howned]⟩)

theorem lockedOverride_calm {ownership : ArtifactOwnership} (hattests : Attests load disk uid path ownership)
    (hclear : ownership ≠ .ambiguousLegacy) (h : Calm disk s) :
    Ensures (fun _ => True)
      (do
        let existing ← existingContent path
        let (newContent, result) ← ofExcept (.ok (decideOverride load ownership content existing))
        writeWithMode path 0o644 newContent
        return result)
      (fun status t => Applied load disk uid path content t.disk status) (fun _ t => t.disk = disk) s := by
  refine ensures_bind (existingContent_calm h) ?_
  rintro existing t ⟨hexisting, ht⟩
  rw [ofExcept_ok_bind]
  obtain ⟨rfl, hdecided⟩ | ⟨rfl, hsame, hdecided⟩ | ⟨rfl, hdecided⟩ :=
    decideOverride_attested content hattests hclear hexisting
  · rw [hdecided]
    exact ensures_bind (writeWithMode_calm _ ht) fun _ u hu => ensures_pure ⟨hattests, hu⟩
  · rw [hdecided]
    exact ensures_bind (Q := fun _ => Calm disk) (ensures_pure ht) fun _ u hu =>
      ensures_pure ⟨hu.disk_eq, hattests, hsame⟩
  · rw [hdecided]
    exact ensures_bind (writeWithMode_calm _ ht) fun _ u hu => ensures_pure ⟨hattests, hu⟩

theorem underLock_calm {α : Type} {lock : List Component} {body : Host α} {Q : α → Disk → Prop}
    (hbody : ∀ t, Calm disk t → Ensures (fun _ => True) body (fun a u => Q a u.disk) (fun _ u => u.disk = disk) t)
    (h : Calm disk s) :
    Ensures (fun _ => True) (underLock lock body) (fun a t => Q a t.disk) (fun _ t => t.disk = disk) s := by
  refine ensures_bind ((callAt_calm lock _ h).mono (fun _ _ ht => ht.2) fun _ _ ht => ht.disk_eq) fun _ t ht => ?_
  refine ensures_bind (ensures_update (R := fun _ => Calm disk) trivial (ht.hold lock)) fun _ u hu => ?_
  have hattempt := ensures_attempt (E := fun (_ : NspawnError) (v : Scene) => v.disk = disk)
    (R := fun result v => match result with
      | .ok a => Q a v.disk
      | .error _ => v.disk = disk) (hbody u hu)
  refine ensures_bind hattempt fun result v hv => ?_
  refine ensures_bind (Q := fun _ w => match result with
    | .ok a => Q a w.disk
    | .error _ => w.disk = disk) (ensures_update trivial hv) fun _ w hw => ?_
  apply ensures_ofExcept
  · intro a ha
    subst ha
    exact hw
  · intro e he
    subst he
    exact hw

theorem createParent_calm (h : Calm disk s) :
    Ensures (fun _ => True) (createParent path) (fun _ => Calm disk) (fun _ t => t.disk = disk) s := by
  unfold createParent
  split
  · exact (callAt_calm _ _ h).mono (fun _ _ ht => ht.2) fun _ _ ht => ht.disk_eq
  · exact ensures_pure h

theorem applyNewOverrideAtWithUid_calm (h : Calm disk s) :
    Ensures (fun _ => True) (applyNewOverrideAtWithUid load path content uid)
      (fun status t => Applied load disk uid path content t.disk status) (fun _ t => t.disk = disk) s := by
  have hprobe : Ensures (fun _ => True) (probeOwnedOverrideAt load path uid)
      (fun evidence t => Attests load disk uid path evidence ∧ Calm disk t) (fun _ t => t.disk = disk) s :=
    (probeOwnedOverrideAt_calm h).mono (fun _ _ ht => ht) fun _ _ ht => ht.disk_eq
  refine ensures_bind hprobe ?_
  rintro ownership t ⟨hattests, ht⟩
  show Ensures _ (if ownership = .ambiguousLegacy then _ else _) _ _ t
  by_cases hambiguous : ownership = .ambiguousLegacy
  · subst hambiguous
    exact ensures_pure ⟨ht.disk_eq, hattests⟩
  · rw [if_neg hambiguous]
    refine ensures_bind (createParent_calm ht) fun _ u hu => ?_
    exact underLock_calm (Q := fun status disk' => Applied load disk uid path content disk' status)
      (fun v hv => lockedOverride_calm hattests hambiguous hv) hu

end Application

end Lasper.Overrides
