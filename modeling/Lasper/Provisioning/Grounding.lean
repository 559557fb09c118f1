import Lasper.Provisioning.Rollback

/-! What the ledger owns inside or over a tree stands on a tree it owns too:
storage is recorded before anything is put into it, and a deployer that returns
has recorded the image it made. -/

namespace Lasper.Provisioning

open Lib Traced

/-- The deployment owns the tree that everything else is in. -/
def Founded (t : MachineName) (report : ApplyReport) : Prop :=
  report.ledger.owns (.localStorage t) = true ∨ report.ledger.owns (.externalImage t) = true

/-- What is owned and cannot be removed on its own goes with an owned tree. -/
structure Grounded (t : MachineName) (report : ApplyReport) : Prop where
  target : report.target = t
  ground : ∀ r, report.ledger.owns r = true → ApplyReport.isRemovable r = false →
    r ∈ rootfsDependents t ∧ Founded t report

structure Rooted (t : MachineName) (report : ApplyReport) : Prop extends Grounded t report where
  founded : Founded t report

section Reports

variable {t : MachineName} {report report' : ApplyReport} {r : DeploymentResource} {d : ResourceDisposition}

theorem Grounded.new (t : MachineName) : Grounded t (.new t) where
  target := rfl
  ground r hr := by
    obtain ⟨x, hx, -⟩ := ResourceLedger.owns_iff.mp hr
    cases hx

/-- Only ownership and the target matter. -/
theorem Founded.congr (h : Founded t report) (ho : ∀ r, report'.ledger.owns r = report.ledger.owns r) :
    Founded t report' := by
  unfold Founded
  rw [ho, ho]
  exact h

theorem Grounded.congr (h : Grounded t report) (ht : report'.target = report.target)
    (ho : ∀ r, report'.ledger.owns r = report.ledger.owns r) : Grounded t report' where
  target := ht.trans h.target
  ground r hr hn := by
    rw [ho] at hr
    obtain ⟨hd, hf⟩ := h.ground r hr hn
    exact ⟨hd, hf.congr ho⟩

theorem Rooted.congr (h : Rooted t report) (ht : report'.target = report.target)
    (ho : ∀ r, report'.ledger.owns r = report.ledger.owns r) : Rooted t report' :=
  ⟨h.toGrounded.congr ht ho, h.founded.congr ho⟩

/-- Ownership of a tree is not given up by recording something. -/
theorem Founded.record (h : Founded t report) (hr : r.isStorage = true → d.isOwned = true) :
    Founded t (report.recordTyped r d) := by
  have hkeep : ∀ x : DeploymentResource, x.isStorage = true → report.ledger.owns x = true →
      (report.ledger.record r d).owns x = true := by
    intro x hx ho
    by_cases he : r = x
    · subst he
      exact ResourceLedger.owns_iff.mpr ⟨d, ResourceLedger.disposition_record_self, hr hx⟩
    · exact ResourceLedger.owns_record ho he
  exact h.imp (hkeep _ rfl) (hkeep _ rfl)

theorem owns_of_record {ledger : ResourceLedger} {x : DeploymentResource}
    (h : (ledger.record r d).owns x = true) : x = r ∨ ledger.owns x = true := by
  by_cases he : x = r
  · exact .inl he
  · obtain ⟨y, hy, ho⟩ := ResourceLedger.owns_iff.mp h
    rw [ResourceLedger.disposition_record_ne he] at hy
    exact .inr (ResourceLedger.owns_iff.mpr ⟨y, hy, ho⟩)

/-- Recording a resource that can be removed on its own. -/
theorem Grounded.record (h : Grounded t report) (hr : ApplyReport.isRemovable r = true)
    (hs : r.isStorage = true → d.isOwned = true) : Grounded t (report.recordTyped r d) where
  target := h.target
  ground x hx hn := by
    rcases owns_of_record hx with rfl | ho
    · rw [hr] at hn
      cases hn
    · obtain ⟨hd, hf⟩ := h.ground x ho hn
      exact ⟨hd, hf.record hs⟩

theorem Rooted.record (h : Rooted t report) (hr : ApplyReport.isRemovable r = true ∨ r ∈ rootfsDependents t)
    (hs : r.isStorage = true → d.isOwned = true) : Rooted t (report.recordTyped r d) where
  target := h.target
  ground x hx hn := by
    have hf : Founded t (report.recordTyped r d) := h.founded.record hs
    rcases owns_of_record hx with rfl | ho
    · rcases hr with hr | hr
      · rw [hr] at hn
        cases hn
      · exact ⟨hr, hf⟩
    · exact ⟨(h.ground x ho hn).1, hf⟩
  founded := h.founded.record hs

/-- Recording the tree itself. -/
theorem Grounded.found (h : Grounded t report) (hr : r = .localStorage t ∨ r = .externalImage t) :
    Rooted t (report.recordTyped r .created) := by
  have hself : (report.ledger.record r .created).owns r = true :=
    ResourceLedger.owns_iff.mpr ⟨.created, ResourceLedger.disposition_record_self, rfl⟩
  have hrem : ApplyReport.isRemovable r = true := by
    rcases hr with rfl | rfl <;> rfl
  refine ⟨h.record hrem fun _ => rfl, ?_⟩
  rcases hr with rfl | rfl
  · exact .inl hself
  · exact .inr hself

/-- Taking something out of the ledger that is not the tree. -/
theorem Grounded.removeDependent (h : Grounded t report) (hr : r ∈ rootfsDependents t) :
    Grounded t (report.removeTyped r) where
  target := h.target
  ground x hx hn := by
    have hd := drops_removeTyped report r
    obtain ⟨y, hy, ho⟩ := ResourceLedger.owns_iff.mp hx
    have hne : x ∉ [r] := ((hd.mem x).mp (ResourceLedger.mem_of_disposition hy)).2
    rw [hd.disposition x hne] at hy
    obtain ⟨hdep, hf⟩ := h.ground x (ResourceLedger.owns_iff.mpr ⟨y, hy, ho⟩) hn
    have hkeep : ∀ z : DeploymentResource, z.isStorage = true → report.ledger.owns z = true →
        (report.removeTyped r).ledger.owns z = true := by
      intro z hz hown
      obtain ⟨a, ha, hao⟩ := ResourceLedger.owns_iff.mp hown
      have hzr : z ∉ [r] := by
        rw [List.mem_singleton]
        rintro rfl
        rcases mem_rootfsDependents hr with hm | ⟨hm, -⟩
        · cases z <;> simp [DeploymentResource.isStorage, DeploymentResource.isMount] at hz hm
        · cases z <;> simp [DeploymentResource.isStorage, DeploymentResource.isRootfs] at hz hm
      rw [← hd.disposition z hzr] at ha
      exact ResourceLedger.owns_iff.mpr ⟨a, ha, hao⟩
    exact ⟨hdep, hf.imp (hkeep _ rfl) (hkeep _ rfl)⟩

/-- Taking over what was intended changes nothing that is owned. -/
theorem owns_captured (rs : List DeploymentResource) (report : ApplyReport) (r : DeploymentResource) :
    (rs.foldl captureResource report).ledger.owns r = report.ledger.owns r := by
  have hc := captures_foldl rs report
  have hiff : (rs.foldl captureResource report).ledger.owns r = true ↔ report.ledger.owns r = true := by
    constructor
    · intro ho
      obtain ⟨x, hx, hown⟩ := ResourceLedger.owns_iff.mp ho
      by_cases hr : r ∈ report.ledger.resources
      · rw [hc.known r hr] at hx
        exact ResourceLedger.owns_iff.mpr ⟨x, hx, hown⟩
      · obtain ⟨new, hnew, hsub⟩ := hc.grown
        have hmem := ResourceLedger.mem_of_disposition hx
        rw [hnew] at hmem
        have hin : r ∈ new := (List.mem_append.mp hmem).resolve_left hr
        rw [hc.unknown r (hsub r hin) hr] at hx
        cases hx
        cases hown
    · intro ho
      obtain ⟨x, hx, hown⟩ := ResourceLedger.owns_iff.mp ho
      rw [← hc.known r (ResourceLedger.mem_of_disposition hx)] at hx
      exact ResourceLedger.owns_iff.mpr ⟨x, hx, hown⟩
  exact Bool.eq_iff_iff.mpr hiff

end Reports

section Neutral

variable {P : ApplyReport → Prop} {α : Type} (env : Environment)

/-- A property of the report alone. -/
abbrev OnReport (P : ApplyReport → Prop) (w : World) : Prop := P w.report

theorem ask_neutral (answer : ℕ → α) : Preserves (OnReport P) (ask answer) :=
  fun _ hw => ask_spec hw hw

theorem askResult_neutral (answer : ℕ → Except NspawnError α) : Preserves (OnReport P) (askResult answer) :=
  fun _ hw => askResult_spec hw (fun _ => hw) fun _ => hw

theorem checkDeploymentCancellation_neutral : Preserves (OnReport P) (checkDeploymentCancellation env) :=
  preserves_bind (ask_neutral _) fun _ => preserves_onlyIf preserves_fail

theorem transition_neutral (state : DeploymentManifestState) : Preserves (OnReport P) (transition env state) := by
  refine preserves_bind preserves_read fun session => ?_
  cases session with
  | none => exact preserves_pure
  | some session =>
    refine preserves_bind preserves_read fun ledger => preserves_bind (ask_neutral _) fun port => ?_
    cases session.transition port state ledger with
    | ok session' => exact preserves_update fun _ hw => hw
    | error error => exact preserves_fail

theorem effect_neutral (resources : List DeploymentResource) (answer : ℕ → Except NspawnError α) :
    Preserves (OnReport P) (effect resources answer) :=
  preserves_bind (preserves_update fun _ hw => hw) fun _ => askResult_neutral _

theorem applyFile_neutral (resource : DeploymentResource) : Preserves (OnReport P) (applyFile env resource) :=
  preserves_bind (effect_neutral _ _) fun _ =>
    preserves_bind (preserves_onlyIf (preserves_update fun _ hw => hw)) fun _ => preserves_pure

theorem editReport_kept {f : ApplyReport → ApplyReport} (h : ∀ report, P report → P (f report)) :
    Preserves (OnReport P) (editReport f) :=
  preserves_update fun w hw => h w.report hw

theorem inspectDeploymentSidecars_neutral : Preserves (OnReport P) (inspectDeploymentSidecars env) := by
  refine preserves_bind (askResult_neutral _) fun config => ?_
  cases config with
  | none => exact preserves_pure
  | some config => exact preserves_fail

theorem sourceHasOverride_neutral (sourceName : String) : Preserves (OnReport P) (sourceHasOverride env sourceName) := by
  unfold sourceHasOverride
  split
  · exact askResult_neutral _
  · exact preserves_pure

end Neutral

section Stages

variable {t : MachineName} {w : World} {α : Type} (env : Environment)

/-- A file of the host is no tree. -/
def AppliedResource.isFile : AppliedResource → Bool
  | localStorage | externalImage => false
  | nvidiaState | nspawnConfig | systemdOverride => true

theorem recordApply_report {P : ApplyReport → Prop} (resource : AppliedResource) (status : ResourceApplyStatus)
    (h : ∀ report, P report → P (report.recordApply resource status).1) :
    Preserves (OnReport P) (recordApply resource status) :=
  preserves_bind preserves_read fun _ =>
    preserves_bind (preserves_update fun w hw => h w.report hw) fun _ => preserves_ofExcept

theorem Rooted.applied {report : ApplyReport} (h : Rooted t report) {resource : AppliedResource}
    (hf : resource.isFile = true) (status : ResourceApplyStatus) :
    Rooted t (report.recordApply resource status).1 := by
  obtain ⟨htar, hled, -, -⟩ := report.recordApply_spec resource status
  have hrem : ApplyReport.isRemovable (resource.on report.target) = true := by cases resource <;> rfl
  have hstorage : (resource.on report.target).isStorage = true → status.disposition.isOwned = true := by
    intro hs
    cases resource <;> cases hf <;> cases hs
  have hrec := h.record (r := resource.on report.target) (.inl hrem) hstorage
  refine hrec.congr htar fun r => ?_
  rw [hled]
  rfl

theorem recordApply_rooted {resource : AppliedResource} (hf : resource.isFile = true)
    (status : ResourceApplyStatus) : Preserves (OnReport (Rooted t)) (recordApply resource status) :=
  recordApply_report resource status fun _ h => h.applied hf status

theorem recordTyped_rooted {r : DeploymentResource} (hr : r ∈ rootfsDependents t) (d : ResourceDisposition) :
    Preserves (OnReport (Rooted t)) (recordTyped r d) := by
  refine editReport_kept fun report h => h.record (.inr hr) fun hs => ?_
  exfalso
  revert hs
  simp only [rootfsDependents, List.mem_cons, List.not_mem_nil, or_false] at hr
  rcases hr with rfl | rfl | rfl | rfl | rfl | rfl <;> simp [DeploymentResource.isStorage]

theorem applyStage_rooted (stage : DeploymentStage) {r : DeploymentResource} (hr : r ∈ rootfsDependents t)
    (d : ResourceDisposition) (answer : ℕ → Except NspawnError α) :
    Preserves (OnReport (Rooted t)) (applyStage env stage r d answer) :=
  preserves_bind (transition_neutral env _) fun _ => preserves_bind (effect_neutral _ _) fun _ =>
    preserves_bind (recordTyped_rooted hr d) fun _ => preserves_bind (transition_neutral env _) fun _ =>
      preserves_pure

theorem applyFileStage_rooted (stage : DeploymentStage) {resource : AppliedResource} (hf : resource.isFile = true) :
    Preserves (OnReport (Rooted t)) (applyFileStage env t stage resource) :=
  preserves_bind (transition_neutral env _) fun _ => preserves_bind (applyFile_neutral env _) fun status =>
    preserves_bind (recordApply_rooted hf status) fun _ => transition_neutral env _

theorem noteRawMount_rooted (mounted : Option RootfsTarget) :
    Preserves (OnReport (Rooted t)) (noteRawMount t mounted) := by
  cases mounted with
  | some raw =>
    exact preserves_bind (preserves_update fun _ hw => hw) fun _ => recordTyped_rooted (by simp [rootfsDependents]) _
  | none => exact preserves_update fun _ hw => hw

theorem mountedRootfs_rooted (rootfs : RootfsTarget) :
    Preserves (OnReport (Rooted t)) (mountedRootfs env t rootfs) := by
  refine preserves_bind (askResult_neutral _) fun found => ?_
  split
  · refine preserves_bind (transition_neutral env _) fun _ => preserves_bind (effect_neutral _ _) fun mounted => ?_
    exact preserves_bind (noteRawMount_rooted mounted) fun _ => preserves_bind (transition_neutral env _) fun _ =>
      preserves_bind (checkDeploymentCancellation_neutral env) fun _ => preserves_pure
  · exact preserves_pure

theorem changeAccounts_neutral {P : ApplyReport → Prop} : Preserves (OnReport P) (changeAccounts env t) :=
  preserves_bind (effect_neutral _ _) fun _ => checkDeploymentCancellation_neutral env

theorem createUser_neutral {P : ApplyReport → Prop} (user : CreateUser) :
    Preserves (OnReport P) (createUser env t user) := by
  refine preserves_bind preserves_read fun taken => ?_
  cases taken with
  | error error => exact preserves_fail
  | ok found => exact preserves_bind (preserves_update fun _ hw => hw) fun _ => changeAccounts_neutral env

theorem configureAccounts_neutral {P : ApplyReport → Prop} (cfg : MachineProvisioningConfig) (changes : Bool) :
    Preserves (OnReport P) (configureAccounts env t cfg changes) := by
  refine preserves_bind (preserves_onlyIf (transition_neutral env _)) fun _ => preserves_bind ?_ fun _ =>
    preserves_forEach fun user => createUser_neutral env user
  exact preserves_bind preserves_read fun _ => preserves_bind (preserves_update fun _ hw => hw) fun _ =>
    preserves_onlyIf (changeAccounts_neutral env)

theorem resolveWayland_neutral {P : ApplyReport → Prop} (cfg : MachineProvisioningConfig) (supports : Bool)
    (intent : WaylandGrantIntent) : Preserves (OnReport P) (resolveWayland env cfg supports intent) := by
  unfold resolveWayland
  split
  · exact preserves_fail
  · split
    · exact preserves_fail
    · exact preserves_bind (askResult_neutral _) fun _ => preserves_bind (askResult_neutral _) fun _ =>
        checkDeploymentCancellation_neutral env

theorem applyAccounts_rooted (cfg : MachineProvisioningConfig) (intents : List WaylandGrantIntent)
    (supports : Bool) : Preserves (OnReport (Rooted t)) (applyAccounts env t cfg intents supports) := by
  refine preserves_bind preserves_read fun changes => ?_
  refine preserves_bind (preserves_onlyIf (configureAccounts_neutral env cfg changes)) fun _ => ?_
  refine preserves_bind (preserves_forEach fun intent => resolveWayland_neutral env cfg supports intent) fun _ => ?_
  exact preserves_onlyIf (preserves_bind (recordTyped_rooted (by simp [rootfsDependents]) _) fun _ =>
    transition_neutral env _)

theorem configureNvidia_rooted (supports : Bool) : Preserves (OnReport (Rooted t)) (configureNvidia env t supports) := by
  refine preserves_bind (preserves_mapFailure (askResult_neutral _)) fun _ => ?_
  refine preserves_bind (checkDeploymentCancellation_neutral env) fun _ => ?_
  refine preserves_bind (applyFileStage_rooted env _ rfl) fun _ => ?_
  refine preserves_bind (checkDeploymentCancellation_neutral env) fun _ => ?_
  refine preserves_bind (preserves_onlyIf (applyStage_rooted env _ (by simp [rootfsDependents]) _ _)) fun _ => ?_
  exact checkDeploymentCancellation_neutral env

theorem commitRuntime_rooted (cfg : MachineProvisioningConfig) :
    Preserves (OnReport (Rooted t)) (commitRuntime env t cfg) := by
  refine preserves_bind (applyFileStage_rooted env _ rfl) fun _ => ?_
  refine preserves_bind (checkDeploymentCancellation_neutral env) fun _ => preserves_onlyIf ?_
  exact preserves_bind (applyFileStage_rooted env _ rfl) fun _ => preserves_bind (askResult_neutral _) fun _ =>
    checkDeploymentCancellation_neutral env

theorem postConfigure_rooted (name : String) (cfg : MachineProvisioningConfig) (intents : List WaylandGrantIntent)
    (rootfs : String) : Preserves (OnReport (Rooted t)) (postConfigure env name t cfg intents rootfs) := by
  refine preserves_bind preserves_ofExcept fun provisioned => ?_
  refine preserves_bind (mountedRootfs_rooted env provisioned) fun _ => ?_
  refine preserves_bind (askResult_neutral _) fun hasOsLayout => preserves_bind ?_ fun supports => ?_
  · unfold supportsNspawnCommands
    split
    · exact askResult_neutral _
    · exact preserves_pure
  refine preserves_bind (preserves_onlyIf ?_) fun _ => ?_
  · exact preserves_bind (applyStage_rooted env _ (by simp [rootfsDependents]) _ _) fun _ =>
      checkDeploymentCancellation_neutral env
  refine preserves_bind (applyAccounts_rooted env cfg intents supports) fun _ => ?_
  refine preserves_bind (preserves_onlyIf (configureNvidia_rooted env supports)) fun _ => ?_
  refine preserves_bind (commitRuntime_rooted env cfg) fun _ => ?_
  refine preserves_bind (preserves_onlyIf ?_) fun _ => checkDeploymentCancellation_neutral env
  exact preserves_onlyIf (preserves_bind (applyStage_rooted env _ (by simp [rootfsDependents]) _ _) fun _ =>
    checkDeploymentCancellation_neutral env)

/-- From grounded to rooted, and grounded wherever it stops. -/
abbrev Roots (t : MachineName) (p : Engine α) (w : World) : Prop :=
  Ensures (OnReport (Grounded t)) p (fun _ => OnReport (Rooted t)) (fun _ => OnReport (Grounded t)) w

theorem roots_of_preserves {p : Engine α} (h : Preserves (OnReport (Rooted t)) p) (hw : OnReport (Rooted t) w) :
    Roots t p w :=
  (h w hw).weaken (fun _ hu => hu.toGrounded) (fun _ _ hu => hu) fun _ _ hu => hu.toGrounded

theorem recordTree_roots {r : DeploymentResource} (hr : r = .localStorage t ∨ r = .externalImage t)
    (hw : OnReport (Grounded t) w) : Roots t (recordTyped r .created) w :=
  ensures_update (hw.found hr).toGrounded (hw.found hr)

theorem recordCreatedImage_roots (hw : OnReport (Grounded t) w) : Roots t (recordCreated .externalImage) w := by
  have himage : Rooted t (w.report.recordCreated .externalImage) := by
    refine hw.found (.inr ?_)
    rw [← hw.target]
    rfl
  exact ensures_update himage.toGrounded himage

theorem prepareStorage_roots (hw : OnReport (Grounded t) w) : Roots t (prepareStorage env t) w := by
  refine ensures_bind (Q := fun _ => OnReport (Rooted t)) ?_ fun _ u hu =>
    roots_of_preserves (checkDeploymentCancellation_neutral env) hu
  refine ensures_bind (transition_neutral env _ w hw) fun _ u hu => ?_
  refine ensures_bind (effect_neutral _ _ u hu) fun _ v hv => ?_
  refine ensures_bind (recordTree_roots (.inl rfl) hv) fun _ x hx => ?_
  exact ensures_bind (roots_of_preserves (transition_neutral env _) hx) fun _ y hy => ensures_pure hy

theorem mountStorage_rooted : Preserves (OnReport (Rooted t)) (mountStorage env t) := by
  refine preserves_bind (transition_neutral env _) fun _ => ?_
  refine preserves_bind (preserves_update fun _ hw => hw) fun _ => preserves_bind (effect_neutral _ _) fun _ => ?_
  exact preserves_bind (recordTyped_rooted (by simp [rootfsDependents]) _) fun _ =>
    preserves_bind (transition_neutral env _) fun _ => preserves_pure

theorem deployBootstrap_neutral {P : ApplyReport → Prop} (name label rootfs : String) :
    Preserves (OnReport P) (deployBootstrap env name t label rootfs) := by
  refine preserves_bind (askResult_neutral _) fun _ => preserves_bind preserves_ofExcept fun _ => ?_
  exact preserves_bind (effect_neutral _ _) fun _ => preserves_onlyIf preserves_fail

theorem deployTar_neutral {P : ApplyReport → Prop} (name rootfs : String) :
    Preserves (OnReport P) (deployTar env name t rootfs) := by
  refine preserves_bind (checkDeploymentCancellation_neutral env) fun _ => ?_
  refine preserves_bind (askResult_neutral _) fun _ => ?_
  refine preserves_bind (checkDeploymentCancellation_neutral env) fun _ => ?_
  refine preserves_bind preserves_ofExcept fun _ => preserves_bind (effect_neutral _ _) fun _ => ?_
  exact checkDeploymentCancellation_neutral env

theorem deployRaw_roots (name : String) (hw : OnReport (Grounded t) w) : Roots t (deployRaw env name t) w := by
  refine ensures_bind (checkDeploymentCancellation_neutral env w hw) fun _ u hu => ?_
  refine ensures_bind (askResult_neutral _ u hu) fun _ u hu => ?_
  refine ensures_bind (checkDeploymentCancellation_neutral env u hu) fun _ u hu => ?_
  refine ensures_bind (preserves_ofExcept u hu) fun _ u hu => ?_
  refine ensures_bind (effect_neutral _ _ u hu) fun _ u hu => ?_
  exact ensures_bind (recordCreatedImage_roots hu) fun _ u hu =>
    roots_of_preserves (checkDeploymentCancellation_neutral env) hu

/-- A reason against removing the image is not about the ledger. -/
theorem blockImage_rooted (reason : String) :
    Preserves (OnReport (Rooted t)) (update fun w : World =>
      { w.setReport (w.report.blockExternalImageRemoval reason) with settingsForeign := true } : Engine Unit) :=
  preserves_update fun _ hw => hw.congr rfl fun _ => rfl

theorem verifySystemdClonedConfig_rooted (sourceBefore : Option NspawnConfig) :
    Preserves (OnReport (Rooted t)) (verifySystemdClonedConfig env sourceBefore) := by
  refine preserves_bind (askResult_neutral _) fun destination => ?_
  cases sourceBefore with
  | some source =>
    cases destination with
    | some destination =>
      dsimp only
      split
      · exact preserves_pure
      · exact preserves_bind (blockImage_rooted _) fun _ => preserves_fail
    | none => exact preserves_fail
  | none =>
    cases destination with
    | none => exact preserves_pure
    | some destination =>
      refine preserves_bind (askResult_neutral _) fun sourceAfter => ?_
      split
      · exact preserves_pure
      · exact preserves_bind (blockImage_rooted _) fun _ => preserves_fail

theorem cloneOverride_rooted : Preserves (OnReport (Rooted t)) (cloneOverride env t) :=
  preserves_bind (applyFile_neutral env _) fun status => preserves_bind (recordApply_rooted rfl status) fun _ =>
    checkDeploymentCancellation_neutral env

theorem deployClone_roots (sourceName : String) (hw : OnReport (Grounded t) w) :
    Roots t (deployClone env t sourceName) w := by
  refine ensures_bind (checkDeploymentCancellation_neutral env w hw) fun _ u hu => ?_
  refine ensures_bind (askResult_neutral _ u hu) fun sourceConfig u hu => ?_
  refine ensures_bind (sourceHasOverride_neutral env sourceName u hu) fun hasOverride u hu => ?_
  refine ensures_bind (checkDeploymentCancellation_neutral env u hu) fun _ u hu => ?_
  refine ensures_bind (ask_neutral _ u hu) fun copies u hu => ?_
  refine ensures_bind (effect_neutral _ _ u hu) fun _ u hu => ?_
  refine ensures_bind (recordCreatedImage_roots hu) fun _ u hu => roots_of_preserves ?_ hu
  refine preserves_bind (checkDeploymentCancellation_neutral env) fun _ => ?_
  refine preserves_bind (verifySystemdClonedConfig_rooted env sourceConfig) fun _ => ?_
  refine preserves_bind (checkDeploymentCancellation_neutral env) fun _ => ?_
  refine preserves_bind (preserves_onlyIf (cloneOverride_rooted env)) fun _ => ?_
  exact preserves_bind (preserves_mapFailure (askResult_neutral _)) fun _ => checkDeploymentCancellation_neutral env

theorem deployOci_roots (name : String) (hw : OnReport (Grounded t) w) : Roots t (deployOci env name t) w := by
  refine ensures_bind (askResult_neutral _ w hw) fun _ u hu => ?_
  refine ensures_bind (checkDeploymentCancellation_neutral env u hu) fun _ u hu => ?_
  refine ensures_bind (askResult_neutral _ u hu) fun _ u hu => ?_
  refine ensures_bind (checkDeploymentCancellation_neutral env u hu) fun _ u hu => ?_
  refine ensures_bind (askResult_neutral _ u hu) fun _ u hu => ?_
  refine ensures_bind (preserves_ofExcept u hu) fun _ u hu => ?_
  refine ensures_bind (effect_neutral _ _ u hu) fun success u hu => ?_
  refine ensures_bind (preserves_onlyIf preserves_fail u hu) fun _ u hu => ?_
  refine ensures_bind (recordCreatedImage_roots hu) fun _ u hu => roots_of_preserves ?_ hu
  refine preserves_bind (checkDeploymentCancellation_neutral env) fun _ => ?_
  refine preserves_bind (preserves_mapFailure (applyFile_neutral env _)) fun status => ?_
  exact preserves_bind (recordApply_rooted rfl status) fun _ => checkDeploymentCancellation_neutral env

/-- A deployer that returns owns the tree, either the one that was prepared or
the image it made. -/
theorem deploy_roots (name rootfs : String) (deployer : Deployer) (hw : OnReport (Grounded t) w)
    (hlocal : deployer.isExternalStorageManaged = false → OnReport (Rooted t) w) :
    Roots t (deployer.deploy env name t rootfs) w := by
  cases deployer with
  | bootstrap label => exact roots_of_preserves (deployBootstrap_neutral env name label rootfs) (hlocal rfl)
  | image raw =>
    cases raw with
    | false => exact roots_of_preserves (deployTar_neutral env name rootfs) (hlocal rfl)
    | true => exact deployRaw_roots env name hw
  | clone sourceName => exact deployClone_roots env sourceName hw
  | oci reference => exact deployOci_roots env name hw

theorem prepareRootfs_roots (name : String) (deployer : Deployer) (hw : OnReport (Grounded t) w) :
    Ensures (OnReport (Grounded t)) (prepareRootfs env name t deployer)
      (fun _ u => OnReport (Grounded t) u ∧ (deployer.isExternalStorageManaged = false → OnReport (Rooted t) u))
      (fun _ => OnReport (Grounded t)) w := by
  unfold prepareRootfs
  split
  · rename_i hexternal
    refine ensures_pure ⟨hw, fun hlocal => ?_⟩
    rw [hexternal] at hlocal
    cases hlocal
  · refine ensures_bind (prepareStorage_roots env hw) fun _ u hu => ?_
    have hmount : Roots t (mountStorage env t) u := roots_of_preserves (mountStorage_rooted env) hu
    exact hmount.post fun _ v hv => ⟨hv.toGrounded, fun _ => hv⟩

theorem runStages_roots (name : String) (deployer : Deployer) (cfg : MachineProvisioningConfig)
    (intents : List WaylandGrantIntent) (hw : OnReport (Grounded t) w) :
    Roots t (runStages env name t deployer cfg intents) w := by
  refine ensures_bind (checkDeploymentCancellation_neutral env w hw) fun _ u hu => ?_
  refine ensures_bind (inspectDeploymentSidecars_neutral env u hu) fun _ u hu => ?_
  refine ensures_bind (checkDeploymentCancellation_neutral env u hu) fun _ u hu => ?_
  refine ensures_bind (prepareRootfs_roots env name deployer hu) ?_
  rintro rootfs u ⟨hu, hlocal⟩
  refine ensures_bind (Q := fun _ => OnReport (Rooted t)) ?_ fun _ v hv => roots_of_preserves ?_ hv
  · -- the transition between leaves the report as it is
    have hboth : Preserves (OnReport fun report => Grounded t report ∧
        (deployer.isExternalStorageManaged = false → Rooted t report))
        (persistApplying env .sourceDeployment (deployer.sourceStageResources t)) := transition_neutral env _
    refine ensures_bind ((hboth u ⟨hu, hlocal⟩).weaken (fun _ h => h.1) (fun _ _ h => h) fun _ _ h => h.1) ?_
    rintro _ v ⟨hv, hvlocal⟩
    refine ensures_bind (deploy_roots env name rootfs deployer hv hvlocal) fun _ x hx => roots_of_preserves ?_ hx
    exact preserves_bind (transition_neutral env _) fun _ => checkDeploymentCancellation_neutral env
  · split
    · exact postConfigure_rooted env name cfg intents rootfs
    · exact checkDeploymentCancellation_neutral env

end Stages

end Lasper.Provisioning
