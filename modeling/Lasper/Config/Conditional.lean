import Lasper.Config.Apply

/-! A draft replaces the administrator's file only as it was inspected under the
lock, at the revision it was made for. Otherwise the disk is what the other
writers made of it. -/

namespace Lasper.Config

open Lib Traced

/-- Only the others have changed the disk since. -/
def Undisturbed (s u : Scene) : Prop := ∃ n, u.release = (s.elapse n).release

section Undisturbed

variable {ε α : Type} {s u : Scene}

theorem Undisturbed.refl (s : Scene) : Undisturbed s s := ⟨0, rfl⟩

theorem Undisturbed.tick (h : Undisturbed s u) : Undisturbed s u.tick := by
  obtain ⟨n, hn⟩ := h
  have hcommutes : ∀ v : Scene, v.tick.release = v.release.tick := fun _ => rfl
  exact ⟨n + 1, by rw [hcommutes, hn, ← hcommutes, Scene.elapse]⟩

theorem systemCall_undisturbed (call : Disk → Except IoError α) :
    Preserves (Undisturbed s) (systemCall call) :=
  preserves_bind (preserves_update fun _ => Undisturbed.tick) fun _ =>
    preserves_bind preserves_read fun _ => preserves_ofExcept

theorem readOpened_undisturbed (sha256 : List UInt8 → String) (path : Path) (inode : ℕ) :
    Preserves (Undisturbed s) (readOpened sha256 path inode) := by
  refine preserves_bind (systemCall_undisturbed _) fun _ => ?_
  refine preserves_bind preserves_ofExcept fun _ => ?_
  refine preserves_bind preserves_ofExcept fun _ => ?_
  refine preserves_bind (systemCall_undisturbed _) fun _ => ?_
  refine preserves_bind preserves_ofExcept fun _ => ?_
  refine preserves_bind (systemCall_undisturbed _) fun _ => ?_
  refine preserves_bind (systemCall_undisturbed _) fun _ => ?_
  refine preserves_bind preserves_ofExcept fun _ => ?_
  exact preserves_bind preserves_ofExcept fun _ => preserves_pure

theorem readFile_undisturbed (sha256 : List UInt8 → String) (path : Path) :
    Preserves (Undisturbed s) (readFile sha256 path) := by
  refine preserves_bind (preserves_attempt (systemCall_undisturbed _)) fun opened => ?_
  split
  · exact preserves_bind (readOpened_undisturbed sha256 path _) fun _ => preserves_pure
  · exact preserves_pure
  · exact preserves_fail

theorem search_undisturbed (sha256 : List UInt8 → String) (writableName : Bool)
    (sources : List NspawnConfigSource) (found : Discovery) :
    Preserves (Undisturbed s) (search sha256 writableName found sources : Traced Scene ε Discovery) := by
  induction sources generalizing found with
  | nil => exact preserves_pure
  | cons source sources ih =>
    refine preserves_bind ?_ ih
    unfold consult
    split_ifs
    · exact preserves_pure
    · exact preserves_bind (preserves_caught (readFile_undisturbed sha256 _)) fun _ => preserves_pure

theorem inspectAt_undisturbed (sha256 : List UInt8 → String) (target : ConfigurationTarget)
    (sources : List NspawnConfigSource) :
    Preserves (Undisturbed s) (inspectAt sha256 target sources : Traced Scene ε ConfigurationSnapshot) :=
  preserves_bind (search_undisturbed sha256 _ sources _) fun _ => preserves_pure

theorem callAt_undisturbed (path : List Component) (call : Disk → Except IoError α) :
    Preserves (Undisturbed s) (callAt path call) :=
  preserves_bind (preserves_caught (systemCall_undisturbed call)) fun _ => preserves_ofExcept

theorem createParent_undisturbed (path : Path) : Preserves (Undisturbed s) (createParent path) := by
  unfold createParent
  split
  · exact callAt_undisturbed _ _
  · exact preserves_pure

theorem existingContent_undisturbed (path : Path) : Preserves (Undisturbed s) (existingContent path) :=
  preserves_bind (preserves_caught (systemCall_undisturbed _)) fun _ => preserves_ofExcept

theorem existingMode_undisturbed (path : Path) : Preserves (Undisturbed s) (existingMode path) :=
  preserves_bind (preserves_caught (systemCall_undisturbed _)) fun _ => preserves_ofExcept

end Undisturbed

section Administrator

variable {ε : Type} {sha256 : List UInt8 → String}

/-- The selected document was read from one of the sources. -/
def Discovery.FromSources (sources : List NspawnConfigSource) (found : Discovery) : Prop :=
  ∀ document, found.selected = some document →
    ∃ source ∈ sources, document.path = source.path ∧ document.origin = source.kind.origin

theorem Discovery.offer_selected (found : Discovery) (writableName : Bool) (source : NspawnConfigSource)
    (revision : String) (fileExists : Bool) :
    (found.offer writableName source revision fileExists).selected = found.selected := by
  unfold Discovery.offer
  split_ifs <;> rfl

theorem Discovery.FromSources.take {sources : List NspawnConfigSource} {found : Discovery}
    (h : found.FromSources sources) (writableName : Bool) {source : NspawnConfigSource}
    (hs : source ∈ sources) (file : Except IoError (Option FileSnapshot)) :
    (found.take sha256 writableName source file).FromSources sources := by
  intro document hd
  match file with
  | .ok (some file) =>
    cases hd
    exact ⟨source, hs, rfl, rfl⟩
  | .ok none =>
    refine h document (Eq.trans ?_ hd)
    exact (Discovery.offer_selected found writableName source _ false).symm
  | .error error => exact h document hd

theorem search_fromSources (all : List NspawnConfigSource) (writableName : Bool)
    (sources : List NspawnConfigSource) (hsub : ∀ source ∈ sources, source ∈ all) (found : Discovery)
    (hf : found.FromSources all) (s : Scene) :
    Ensures (fun _ => True) (search sha256 writableName found sources : Traced Scene ε Discovery)
      (fun found _ => found.FromSources all) (fun _ _ => True) s := by
  induction sources generalizing found s with
  | nil => exact ensures_pure hf
  | cons source sources ih =>
    have hsource := hsub source List.mem_cons_self
    refine ensures_bind (Q := fun found _ => found.FromSources all) ?_ fun found t hfound =>
      ih (fun other ho => hsub other (List.mem_cons_of_mem _ ho)) found hfound t
    unfold consult
    split_ifs
    · exact ensures_pure hf
    · refine ensures_bind (Q := fun _ _ => True) ?_ fun file _ _ =>
        ensures_pure (hf.take writableName hsource file)
      exact ensures_caught (ensures_run.mono (fun _ _ _ => trivial) fun _ _ _ => trivial)

theorem inspectAt_document {target : ConfigurationTarget} {sources : List NspawnConfigSource} {s : Scene}
    {snapshot : ConfigurationSnapshot} {document : ConfigurationDocument}
    (h : (inspectAt sha256 target sources s : Outcome Scene ε _).result = .ok snapshot)
    (hd : snapshot.document = some document) :
    ∃ source ∈ sources, document.path = source.path ∧ document.origin = source.kind.origin := by
  have hensures : Ensures (fun _ => True)
      (inspectAt sha256 target sources : Traced Scene ε ConfigurationSnapshot)
      (fun snapshot _ => ∀ document, snapshot.document = some document →
        ∃ source ∈ sources, document.path = source.path ∧ document.origin = source.kind.origin)
      (fun _ _ => True) s := by
    refine ensures_bind (search_fromSources sources _ sources (fun _ hs => hs) .start nofun s) ?_
    intro found t hfound
    refine ensures_pure ?_
    intro document hdocument
    refine hfound document ?_
    unfold Discovery.snapshot at hdocument
    cases hselected : found.selected with
    | none => rw [hselected] at hdocument; cases hdocument
    | some other => rw [hselected] at hdocument; exact hdocument
  exact hensures.returned snapshot h document hd

def administratorPath (roots : Roots) (target : ConfigurationTarget) : Path :=
  Path.join roots.administrator (target.name.toList ++ ".nspawn".toList)

theorem administrator_source {roots : Roots} {target : ConfigurationTarget} {source : NspawnConfigSource}
    (hs : source ∈ sourcesForTarget roots target) (hk : source.kind.origin = .administrator) :
    source.path = administratorPath roots target := by
  cases target with
  | machine name =>
    simp only [sourcesForTarget, fromRoots, Bool.false_eq_true, if_false, List.append_nil, List.mem_cons,
      List.not_mem_nil, or_false] at hs
    obtain rfl | rfl := hs
    · rfl
    · cases hk
  | image name =>
    simp only [sourcesForTarget, fromRoots, if_true, List.cons_append, List.nil_append, List.mem_cons,
      List.not_mem_nil, or_false] at hs
    obtain rfl | rfl | rfl := hs
    · rfl
    · cases hk
    · cases hk

theorem inspectAt_writable_path {roots : Roots} {target : ConfigurationTarget} {s : Scene}
    {snapshot : ConfigurationSnapshot} {revision : ConfigurationRevision} {document : ConfigurationDocument}
    (h : (inspectAt sha256 target (sourcesForTarget roots target) s : Outcome Scene ε _).result = .ok snapshot)
    (hw : Writable snapshot target revision document) : document.path = administratorPath roots target := by
  obtain ⟨source, hs, hpath, horigin⟩ := inspectAt_document h hw.document_eq
  rw [hpath]
  exact administrator_source hs (horigin.symm.trans hw.administrator)

end Administrator

section Write

variable {sha256 : List UInt8 → String} {s u : Scene} {path : Path}

/-- A program that only looks ends as it ends, with the disk left to the others. -/
theorem ensures_observed {α : Type} {p : Host α} (h : Preserves (Undisturbed s) p) (hu : Undisturbed s u) :
    Ensures (fun _ => True) p (fun a t => ((p u).result = .ok a ∧ (p u).state = t) ∧ Undisturbed s t)
      (fun _ => Undisturbed s) u := by
  have hkept := (h u hu).weaken (fun _ _ => trivial) (fun _ _ h => h) fun _ _ h => h
  exact (ensures_run.and hkept).mono (fun _ _ h => h) fun _ _ h => h.2

/-- The disk as the others left it, with the content put in the place of a file. -/
def Replaced (s : Scene) (path : Path) (content : Text) (t : Scene) : Prop :=
  ∃ u metadata, Undisturbed s u ∧ t.disk = u.disk.persist path metadata (Disk.encodeUtf8 content)

theorem persistAtomic_spec (content : Text) (mode : ℕ) (hu : Undisturbed s u) :
    Ensures (fun _ => True) (persistAtomic path content mode) (fun _ => Replaced s path content)
      (fun _ => Undisturbed s) u := by
  refine ensures_bind (ensures_observed (callAt_undisturbed _ _) hu) fun _ v hv => ?_
  refine ensures_bind (ensures_observed (callAt_undisturbed _ _) hv.2) fun _ w hw => ?_
  exact ensures_update trivial ⟨w, _, hw.2, rfl⟩

theorem writeIfNew_spec (content : Option Text) (hu : Undisturbed s u) :
    Ensures (fun _ => True) (writeIfNew path content)
      (fun _ t => match content with
        | none => Undisturbed s t
        | some content => Replaced s path content t)
      (fun _ => Undisturbed s) u := by
  cases content with
  | none => exact ensures_pure hu
  | some content =>
    exact ensures_bind (ensures_observed (existingMode_undisturbed path) hu) fun mode v hv =>
      persistAtomic_spec content _ hv.2

/-- The file at `path` was replaced on the grounds that the code checks: under
its lock, it was read as `document` has it, and the inspection found `document`
writable at the draft's revision. -/
structure ConditionalWrite (sha256 : List UInt8 → String) (edit : ConfigurationEdit)
    (sources : List NspawnConfigSource) (s : Scene) (path : Path) (locked : Scene)
    (current : ConfigurationSnapshot) (document : ConfigurationDocument) (change : PreparedChange)
    (t : Scene) : Prop where
  since : Undisturbed s locked
  held : locked.holding = some (lockPathFor path)
  read : (existingContent path locked).result = .ok (some document.content)
  inspected : (inspectAt sha256 edit.target sources (existingContent path locked).state :
    Outcome Scene NspawnError ConfigurationSnapshot).result = .ok current
  writable : Writable current edit.target edit.baseRevision document
  prepared : prepare current edit = some (.ready change)
  replaced : Replaced s path change.after t

/-- What a report promises of the disk. -/
def Settles (sha256 : List UInt8 → String) (edit : ConfigurationEdit) (sources : List NspawnConfigSource)
    (s : Scene) (path : Path) : ConfigurationApplyReport → Scene → Prop
  | .applied written _, t => written = path ∧
    ∃ locked current document change, ConditionalWrite sha256 edit sources s path locked current document change t
  | _, t => Undisturbed s t

theorem decideWrite_ok {edit : ConfigurationEdit} {current : ConfigurationSnapshot} {existing content : Option Text}
    {report : ConfigurationApplyReport} (h : decideWrite edit path current existing = .ok (content, report)) :
    (content = none ∧ ∀ written activation, report ≠ .applied written activation) ∨
    ∃ change, prepare current edit = some (.ready change) ∧ current.document.map (·.content) = existing ∧
      content = some change.after ∧ report = .applied path .nextMachineStart := by
  unfold decideWrite at h
  split at h
  · cases h
  · rename_i change hready
    split_ifs at h with hsame
    · cases h
      exact .inl ⟨rfl, nofun⟩
    · cases h
      exact .inr ⟨change, hready, not_not.mp hsame, rfl, rfl⟩
  · rename_i other hnot hother
    cases other with
    | ready change => exact absurd rfl (hnot change)
    | unchanged path => cases h; exact .inl ⟨rfl, nofun⟩
    | blocked reason => cases h; exact .inl ⟨rfl, nofun⟩
    | conflict reason => cases h; exact .inl ⟨rfl, nofun⟩

theorem lockedSection_settles {edit : ConfigurationEdit} {sources : List NspawnConfigSource}
    (hu : Undisturbed s u) (held : u.holding = some (lockPathFor path)) :
    Ensures (fun _ => True) (lockedSection path (revalidate sha256 edit sources path))
      (Settles sha256 edit sources s path) (fun _ => Undisturbed s) u := by
  refine ensures_bind (ensures_observed (existingContent_undisturbed path) hu) ?_
  rintro existing v ⟨⟨hread, hv⟩, hundisturbed⟩
  subst hv
  refine ensures_bind (Q := fun decided t => Undisturbed s t ∧ ∃ current,
    (inspectAt sha256 edit.target sources (existingContent path u).state :
      Outcome Scene NspawnError ConfigurationSnapshot).result = .ok current ∧
    decideWrite edit path current existing = .ok decided) ?_ ?_
  · refine ensures_bind (ensures_observed (inspectAt_undisturbed sha256 _ _) hundisturbed) ?_
    rintro current w ⟨⟨hinspected, _⟩, hw⟩
    exact ensures_ofExcept (fun decided hd => ⟨hw, current, hinspected, hd⟩) fun _ _ => hw
  · rintro ⟨content, report⟩ w ⟨hw, current, hinspected, hdecided⟩
    refine ensures_bind (writeIfNew_spec content hw) fun _ t ht => ensures_pure ?_
    obtain ⟨rfl, hreport⟩ | ⟨change, hready, hcontent, rfl, rfl⟩ := decideWrite_ok hdecided
    · cases report with
      | applied written activation => exact absurd rfl (hreport written activation)
      | _ => exact ht
    · obtain ⟨document, _, hctx, _⟩ := prepare_ready hready
      have hwritable := writeContext_ok hctx
      rw [hwritable.document_eq] at hcontent
      refine ⟨rfl, u, current, document, change, hu, held, ?_, hinspected, hwritable, hready, ht⟩
      rw [hread, ← hcontent]
      rfl

theorem Undisturbed.hold (h : Undisturbed s u) (lock : List Component) : Undisturbed s (u.hold lock) := h

theorem Settles.release {edit : ConfigurationEdit} {sources : List NspawnConfigSource}
    {report : ConfigurationApplyReport} (h : Settles sha256 edit sources s path report u) :
    Settles sha256 edit sources s path report u.release := by
  cases report with
  | applied written activation =>
    obtain ⟨hpath, locked, current, document, change, hwrite⟩ := h
    exact ⟨hpath, locked, current, document, change, { hwrite with }⟩
  | _ => exact h

theorem applyLocked_settles {edit : ConfigurationEdit} {sources : List NspawnConfigSource} :
    Ensures (fun _ => True) (applyLocked path (revalidate sha256 edit sources path))
      (Settles sha256 edit sources s path) (fun _ => Undisturbed s) s := by
  refine ensures_bind (ensures_observed (createParent_undisturbed path) (.refl s)) fun _ v hv => ?_
  refine ensures_bind (ensures_observed (callAt_undisturbed _ _) hv.2) fun _ w hw => ?_
  refine ensures_bind (ensures_update (R := fun _ t => Undisturbed s t ∧
    t.holding = some (lockPathFor path)) trivial ⟨hw.2.hold _, rfl⟩) fun _ u hu => ?_
  refine ensures_bind (Q := fun result t => match result with
    | .ok report => Settles sha256 edit sources s path report t
    | .error _ => Undisturbed s t) (ensures_attempt (lockedSection_settles hu.1 hu.2)) fun result t ht => ?_
  cases result with
  | ok report =>
    exact ensures_bind (ensures_update (R := fun _ => Settles sha256 edit sources s path report) trivial
      ht.release) fun _ _ h => ensures_pure h
  | error error =>
    exact ensures_bind (ensures_update (R := fun _ => Undisturbed s) trivial ht) fun _ _ h => ensures_fail h

theorem applyWithSources_settles {roots : Roots} {edit : ConfigurationEdit} {initial : ConfigurationSnapshot}
    {earlier : Scene} (h : (inspectAt sha256 edit.target (sourcesForTarget roots edit.target) earlier :
      Outcome Scene NspawnError ConfigurationSnapshot).result = .ok initial) :
    Ensures (fun _ => True) (applyWithSources sha256 edit initial (sourcesForTarget roots edit.target))
      (Settles sha256 edit (sourcesForTarget roots edit.target) s (administratorPath roots edit.target))
      (fun _ => Undisturbed s) s := by
  unfold applyWithSources
  split
  · exact ensures_fail (.refl s)
  · rename_i change hready
    obtain ⟨document, _, hctx, _, _, hpath⟩ := prepare_ready hready
    have hadministrator := inspectAt_writable_path h (writeContext_ok hctx)
    rw [hpath, hadministrator]
    exact applyLocked_settles
  · rename_i other _ _
    refine ensures_ofExcept (fun report hreport => ?_) fun _ _ => .refl s
    cases other with
    | ready change => cases hreport
    | _ => cases hreport; exact .refl s

end Write

/-- A draft checked at any earlier time is applied only if, under the lock of the
administrator's file, the inspection still has the draft's revision and finds
that file writable with the bytes just read; what is written is the patch of
these bytes. Any other outcome leaves the disk to the others. -/
theorem apply_conditional (sha256 : List UInt8 → String) (roots : Roots) (edit : ConfigurationEdit)
    (initial : ConfigurationSnapshot) (earlier s : Scene)
    (h : (inspectAt sha256 edit.target (sourcesForTarget roots edit.target) earlier :
      Outcome Scene NspawnError ConfigurationSnapshot).result = .ok initial) :
    let run := applyWithSources sha256 edit initial (sourcesForTarget roots edit.target) s
    (∀ path activation, run.result = .ok (.applied path activation) →
      path = administratorPath roots edit.target ∧ ∃ locked current document change,
        ConditionalWrite sha256 edit (sourcesForTarget roots edit.target) s path locked current document
          change run.state ∧
        document.path = path ∧ run.state.disk.readToString path = .ok change.after) ∧
    ((∀ path activation, run.result ≠ .ok (.applied path activation)) → Undisturbed s run.state) := by
  intro run
  have hsettles := applyWithSources_settles (s := s) h
  refine ⟨fun path activation hrun => ?_, fun hnot => ?_⟩
  · obtain ⟨rfl, locked, current, document, change, hwrite⟩ := hsettles.returned _ hrun
    refine ⟨rfl, locked, current, document, change, hwrite, ?_, ?_⟩
    · exact inspectAt_writable_path hwrite.inspected hwrite.writable
    · obtain ⟨u, metadata, _, hdisk⟩ := hwrite.replaced
      rw [show run.state.disk = _ from hdisk]
      exact u.disk.readToString_persist _ metadata change.after
  · cases hresult : run.result with
    | error error => exact hsettles.failed error hresult
    | ok report =>
      have hreport := hsettles.returned report hresult
      cases report with
      | applied path activation => exact absurd hresult (hnot path activation)
      | _ => exact hreport

section Example

private def standardRoots : Roots :=
  ⟨"/etc/systemd/nspawn".toList, "/run/systemd/nspawn".toList, "/var/lib/machines".toList⟩

def archPath : Path := "/etc/systemd/nspawn/arch.nspawn".toList

/-- The administrator's file for one machine, and nothing else. -/
def archDisk : Disk where
  entry path := if path = archPath then some 0 else none
  node _ := .file ⟨1, 2, 0, 0, 0o100644, 3, 0, 3, 0⟩
    (Disk.encodeUtf8 "[Files]\nBind=/tmp/.X11-unix/X0\n".toList)
  created := 1
  entry_lt := by
    intro path inode h
    split_ifs at h
    cases h
    decide

def archScene : Scene :=
  ⟨archDisk, fun _ disk => disk, fun _ => none, fun _ => ⟨1, 3, 0, 0, 0, 4, 0, 4, 0⟩, 0, none⟩

def archEdit : ConfigurationEdit :=
  ⟨.machine "arch", ⟨"digest", some "digest", some "digest"⟩, [.change 2 .remove], []⟩

def appliedText (outcome : Outcome Scene NspawnError ConfigurationApplyReport) : Option Text :=
  match outcome.result with
  | .ok (.applied path _) => (outcome.state.disk.readToString path).toOption
  | _ => none

/-- Inspect, then apply. -/
def inspectThenApply (s : Scene) : Option Text :=
  match (inspectAt (fun _ => "digest") archEdit.target (sourcesForTarget standardRoots archEdit.target) s :
    Outcome Scene NspawnError ConfigurationSnapshot).result with
  | .ok initial => appliedText
    (applyWithSources (fun _ => "digest") archEdit initial (sourcesForTarget standardRoots archEdit.target) s)
  | .error _ => none

theorem applied_of_appliedText {outcome : Outcome Scene NspawnError ConfigurationApplyReport} {text : Text}
    (h : appliedText outcome = some text) :
    ∃ path activation, outcome.result = .ok (.applied path activation) := by
  unfold appliedText at h
  split at h
  · rename_i path activation hresult
    exact ⟨path, activation, hresult⟩
  · cases h

theorem apply_conditional_removes : ∃ initial locked current document change t,
    ConditionalWrite (fun _ => "digest") archEdit (sourcesForTarget standardRoots archEdit.target) archScene
      archPath locked current document change t ∧
    t = (applyWithSources (fun _ => "digest") archEdit initial
      (sourcesForTarget standardRoots archEdit.target) archScene).state := by
  have hready : (inspectThenApply archScene).isSome = true := by decide +kernel
  unfold inspectThenApply at hready
  split at hready
  · rename_i initial hinitial
    obtain ⟨text, htext⟩ := Option.isSome_iff_exists.mp hready
    obtain ⟨path, activation, hresult⟩ := applied_of_appliedText htext
    obtain ⟨hpath, locked, current, document, change, hwrite, _⟩ :=
      (apply_conditional _ standardRoots archEdit initial archScene archScene hinitial).1 path activation hresult
    have harch : administratorPath standardRoots archEdit.target = archPath := by decide
    rw [hpath, harch] at hwrite
    exact ⟨initial, locked, current, document, change, _, hwrite, rfl⟩
  · cases hready

end Example

end Lasper.Config
