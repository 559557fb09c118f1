import Lasper.Provisioning.Invariant

/-! One specification per step of the engine, and from them that every stage
keeps the deployment accounted for: whatever it has touched is in the ledger or
in the transition being applied, also when the stage stops half way. -/

namespace Lasper.Provisioning

open Lib Traced

section Primitives

variable {d : Deployer} {t : MachineName} {k k' : ℕ} {rs extra : List DeploymentResource} {w : World}
variable {r : DeploymentResource} {α : Type}

theorem ask_spec {I : World → Prop} {answer : ℕ → α} {Q : α → World → Prop}
    {E : NspawnError → World → Prop} (hI : I { w with calls := w.calls + 1 })
    (hQ : Q (answer w.calls) { w with calls := w.calls + 1 }) : Ensures I (ask answer) Q E w := by
  refine ensures_bind (Q := fun n v => n = w.calls ∧ v = w) (ensures_read ⟨rfl, rfl⟩) ?_
  rintro n v ⟨rfl, rfl⟩
  refine ensures_bind (Q := fun _ u => u = { v with calls := v.calls + 1 })
    (ensures_update hI rfl) ?_
  rintro _ u rfl
  exact ensures_pure hQ

theorem askResult_spec {I : World → Prop} {answer : ℕ → Except NspawnError α} {Q : α → World → Prop}
    {E : NspawnError → World → Prop} (hI : I { w with calls := w.calls + 1 })
    (hQ : ∀ a, Q a { w with calls := w.calls + 1 }) (hE : ∀ e, E e { w with calls := w.calls + 1 }) :
    Ensures I (askResult answer) Q E w := by
  refine ensures_bind (Q := fun _ u => u = { w with calls := w.calls + 1 }) (ask_spec hI rfl) ?_
  rintro x u rfl
  exact ensures_ofExcept (fun a _ => hQ a) (fun e _ => hE e)

theorem At.asked (h : At d t k rs extra w) (answer : ℕ → α) :
    Keeps d t (ask answer) (fun _ => At d t k rs extra) w :=
  ask_spec (h.calls _).underway.safe (h.calls _)

theorem At.answered (h : At d t k rs extra w) (answer : ℕ → Except NspawnError α) :
    Keeps d t (askResult answer) (fun _ => At d t k rs extra) w :=
  askResult_spec (h.calls _).underway.safe (fun _ => h.calls _) fun _ => (h.calls _).underway

theorem At.checked (h : At d t k rs extra w) (env : Environment) :
    Keeps d t (checkDeploymentCancellation env) (fun _ => At d t k rs extra) w := by
  refine ensures_bind (h.asked env.cancelled) ?_
  rintro cancelled u hu
  exact ensures_onlyIf (fun _ => ensures_fail hu.underway) fun _ => hu

/-- A failing computation that touches nothing. -/
theorem At.validated (h : At d t k rs extra w) (x : Except NspawnError α) :
    Keeps d t (ofExcept x) (fun _ => At d t k rs extra) w :=
  ensures_ofExcept (fun _ _ => h) fun _ _ => h.underway

theorem At.replaceSession {session : DeploymentStateSession} {rs' : List DeploymentResource}
    (h : At d t k rs [] w) (hst : session.stored = some session.manifest)
    (hi : session.manifest.intended = rs')
    (hl : session.manifest.committedLedger = w.report.ledger) (ha : Announces t k rs') :
    At d t k rs' [] { w with session := some session } := by
  have hu := h.underway
  have hclean : ∀ x ∈ w.outstanding, Accounted d t w.report.ledger.resources x := by
    intro x hx
    simpa using h.owing x hx
  have hint : ({ w with session := some session } : World).intended = rs' := hi
  have hrec : ∀ x, x ∈ w.report.ledger.resources →
      x ∈ ({ w with session := some session } : World).recoveryResources := by
    intro x hx
    exact (World.mem_recoveryResources rfl hst).mpr (Or.inl (by rw [hl]; exact hx))
  refine ⟨⟨⟨session, rfl, hst⟩, hu.target, hu.ours, ?_, ?_, ?_, hu.kept, hu.history, hu.idle, ?_,
    hu.storage, hu.settings, hu.base, hu.image, hu.imageFirst, ?_, ?_⟩, hint, h.below, h.based, h.owing⟩
  · rw [hint]
    intro x hx
    rcases List.mem_append.mp hx with hx | hx
    exacts [hu.known x (List.mem_append_left _ hx), ha.ours x hx]
  · intro x hx
    exact (hclean x hx).mono hrec
  · intro x hx
    exact (hclean x hx).mono fun y hy => List.mem_append_left _ hy
  · intro hx
    have hm : .rawConfigurationMount t ∈ w.report.ledger.resources :=
      (hclean _ hx).mem (by rintro ⟨⟩)
    rcases hu.raw hx with hraw | ⟨-, hn⟩
    · exact Or.inl hraw
    · exact absurd hm hn
  · rw [hint]
    intro hx hn
    have hlt := h.below _ hn
    have hle := ha.due hx
    exact absurd hlt (by show ¬8 < k; omega)
  · rw [hint]
    exact ha.order

/-- The resources a manifest state names as being applied. -/
def DeploymentManifestState.intended : DeploymentManifestState → List DeploymentResource
  | .applying _ intendedResources => intendedResources
  | .prepared | .committed _ | .cleanupPending => []

theorem DeploymentCrashManifest.intended_eq {m : DeploymentCrashManifest}
    {state : DeploymentManifestState} (h : m.state = state) : m.intended = state.intended := by
  subst h
  rfl

/-- Replacing the manifest asks the port once; what the port refuses changes nothing. -/
theorem transition_spec {I : World → Prop} {env : Environment} {state : DeploymentManifestState}
    {Q : Unit → World → Prop} {E : NspawnError → World → Prop} {session : DeploymentStateSession}
    (hs : w.session = some session) (hI : I { w with calls := w.calls + 1 })
    (hE : ∀ e, E e { w with calls := w.calls + 1 })
    (hok : ∀ session', session'.stored = some session'.manifest →
      session'.manifest.intended = state.intended →
      session'.manifest.committedLedger = w.report.ledger →
      I { w with calls := w.calls + 1, session := some session' } ∧
        Q () { w with calls := w.calls + 1, session := some session' }) :
    Ensures I (transition env state) Q E w := by
  refine ensures_bind (Q := fun x v => x = some session ∧ v = w) (ensures_read ⟨hs, rfl⟩) ?_
  rintro x v ⟨rfl, rfl⟩
  refine ensures_bind (Q := fun l u => l = v.report.ledger ∧ u = v) (ensures_read ⟨rfl, rfl⟩) ?_
  rintro l u ⟨rfl, rfl⟩
  refine ensures_bind (Q := fun _ v => v = { u with calls := u.calls + 1 }) (ask_spec hI rfl) ?_
  rintro port v rfl
  cases hp : session.transition port state u.report.ledger with
  | ok session' =>
    obtain ⟨hst, hstate, hl⟩ := DeploymentStateSession.transition_ok hp
    obtain ⟨hi', hq⟩ := hok session' hst (DeploymentCrashManifest.intended_eq hstate) hl
    exact ensures_update hi' hq
  | error e => exact ensures_fail (hE _)

theorem At.transitioned (h : At d t k rs [] w) (env : Environment) (state : DeploymentManifestState)
    (ha : Announces t k state.intended) :
    Keeps d t (transition env state) (fun _ => At d t k state.intended []) w := by
  obtain ⟨session, hs, -⟩ := h.underway.live
  refine transition_spec hs (h.calls _).underway.safe (fun _ => (h.calls _).underway) ?_
  intro session' hst hi hl
  have hat := (h.calls (w.calls + 1)).replaceSession hst hi hl ha
  exact ⟨hat.underway.safe, hat⟩

theorem At.applying (h : At d t k rs [] w) (env : Environment) (stage : DeploymentStage)
    {rs' : List DeploymentResource} (ha : Announces t k rs') :
    Keeps d t (persistApplying env stage rs') (fun _ => At d t k rs' []) w :=
  h.transitioned env (.applying stage rs') ha

theorem At.committed (h : At d t k rs [] w) (env : Environment) (stage : DeploymentStage) :
    Keeps d t (persistCommitted env stage) (fun _ => At d t k [] []) w :=
  h.transitioned env (.committed stage) (Announces.nothing t k)

theorem At.effected {rs' : List DeploymentResource}
    (hs : At d t k rs (extra ++ rs') (w.start rs')) (answer : ℕ → Except NspawnError α) :
    Keeps d t (effect rs' answer) (fun _ => At d t k rs (extra ++ rs')) w := by
  refine ensures_bind (Q := fun _ u => u = w.start rs') (ensures_update hs.underway.safe rfl) ?_
  rintro _ u rfl
  exact hs.answered answer

/-- The start of an effect on one resource of a stage still to come. -/
theorem At.startFresh (h : At d t k rs extra w) (hi : r ∈ rs) (ht : r.target = t) (hk : k ≤ r.rank)
    (hst : r = .storageMount t → w.storageMountAttempted = true)
    (hb : r.isRootfs = true → d.baseRank ≤ k) : At d t k rs (extra ++ [r]) (w.start [r]) := by
  refine h.start ?_ ?_ ?_ ?_ ?_ ?_
  · intro x hx
    rw [List.mem_singleton.mp hx]
    exact hi
  · intro x hx
    rw [List.mem_singleton.mp hx]
    exact ht
  · intro x hx
    rw [List.mem_singleton.mp hx, ResourceLedger.disposition_eq_none.mpr (h.fresh hk)]
    rintro ⟨⟩
  · intro hx
    rw [← List.mem_singleton.mp hx] at hk
    exact hk
  · intro hx
    exact hst (List.mem_singleton.mp hx).symm
  · intro x hx hroot
    rw [List.mem_singleton.mp hx] at hroot
    exact hb hroot

theorem At.recordedTyped {disposition : ResourceDisposition} (h : At d t k rs extra w)
    (hr : Recordable d t k rs r disposition w) :
    Keeps d t (recordTyped r disposition)
      (fun _ => At d t (r.rank + 1) rs (extra.filter (· ≠ r))) w := by
  have hat : At d t (r.rank + 1) rs (extra.filter (· ≠ r))
      (w.setReport (w.report.recordTyped r disposition)) :=
    h.record hr rfl h.underway.target rfl h.underway.settings
  exact ensures_update hat.underway.safe hat

/-- A stage with one resource of its own. -/
theorem At.staged {disposition : ResourceDisposition} (h : At d t k rs [] w) (env : Environment)
    (stage : DeploymentStage) (answer : ℕ → Except NspawnError α)
    (ht : r.target = t) (hk : k ≤ r.rank) (hd : disposition ≠ .preExisting)
    (hr : r.isMount = false) (hi : r ≠ .externalImage t)
    (hb : r.isRootfs = true → d.baseRank ≤ k)
    (hbase : d.baseRank ≤ r.rank + 1 → d.baseRank ≤ k ∨ r = d.base t ∧ disposition.isOwned = true) :
    Keeps d t (applyStage env stage r disposition answer) (fun _ => At d t (r.rank + 1) [] []) w := by
  have hne : ∀ x, x.isMount = true → r ≠ x := by
    rintro x hx rfl
    rw [hr] at hx
    cases hx
  refine ensures_bind (h.applying env stage (Announces.single ht hi)) ?_
  rintro _ v hv
  refine ensures_bind (At.effected (hv.startFresh (List.mem_singleton.mpr rfl) ht hk
    (fun he => absurd he (hne _ rfl)) hb) answer) ?_
  rintro a u hu
  have hrec : Recordable d t k [r] r disposition u :=
    { fresh := hk
      ours := ht
      untouched := fun he => absurd he hd
      raw := fun he => absurd he (hne _ rfl)
      created := fun he => absurd he hi
      image := fun _ hx => absurd (List.mem_singleton.mp hx).symm hi
      base := hbase }
  refine ensures_bind (hu.recordedTyped hrec) ?_
  rintro _ v hv
  have hv' : At d t (r.rank + 1) [r] [] v := hv.weaken fun x hx => by
    simp at hx
  refine ensures_bind (hv'.committed env stage) ?_
  rintro _ u hu
  exact ensures_pure hu

/-- After a file store answered, its resource is outstanding only if it was written. -/
theorem At.applied (h : At d t k rs extra w) (env : Environment) (hi : r ∈ rs) (ht : r.target = t)
    (hk : k ≤ r.rank) (hm : r.isMount = false) (hb : r.isRootfs = false) :
    Keeps d t (applyFile env r) (fun status u => At d t k rs (extra ++ [r]) u ∧
      (status = .unchanged ∨ status = .conflictUnknownOwner → r ∉ u.outstanding)) w := by
  have hstart : At d t k rs (extra ++ [r]) (w.start [r]) := by
    refine h.startFresh hi ht hk ?_ ?_
    · rintro rfl
      cases hm
    · intro hroot
      rw [hb] at hroot
      cases hroot
  refine ensures_bind (At.effected hstart env.apply) ?_
  rintro status v hv
  have hset := hv.settle [r]
  have hgone : r ∉ (v.settle [r]).outstanding := by
    rw [World.mem_settle]
    rintro ⟨-, hn⟩
    exact hn (List.mem_singleton.mpr rfl)
  have hstop : Keeps d t (update (World.settle [r]) : Engine Unit)
      (fun _ u => At d t k rs (extra ++ [r]) u ∧ r ∉ u.outstanding) v :=
    ensures_update hset.underway.safe ⟨hset, hgone⟩
  refine ensures_bind (Q := fun _ u => At d t k rs (extra ++ [r]) u ∧
    (status = .unchanged ∨ status = .conflictUnknownOwner → r ∉ u.outstanding)) ?_ ?_
  · refine ensures_onlyIf (fun _ => hstop.post fun _ u hu => ⟨hu.1, fun _ => hu.2⟩) ?_
    intro hn
    refine ⟨hv, fun hs => ?_⟩
    rcases hs with rfl | rfl <;> cases hn
  · rintro _ u hu
    exact ensures_pure hu

/-- The disposition under which a store's answer is recorded. -/
def ResourceApplyStatus.disposition : ResourceApplyStatus → ResourceDisposition
  | created => .created
  | unchanged | conflictUnknownOwner => .preExisting
  | replacedOwned => .adopted

theorem ApplyReport.recordApply_spec (report : ApplyReport) (resource : AppliedResource)
    (status : ResourceApplyStatus) :
    (report.recordApply resource status).1.target = report.target ∧
      (report.recordApply resource status).1.ledger =
        report.ledger.record (resource.on report.target) status.disposition ∧
      (resource = .nspawnConfig → status ≠ .created →
        (report.recordApply resource status).1.externalImageBlockers ≠ []) ∧
      (report.externalImageBlockers ≠ [] →
        (report.recordApply resource status).1.externalImageBlockers ≠ []) := by
  by_cases hr : resource = .nspawnConfig
  · subst hr
    cases status <;> refine ⟨rfl, rfl, ?_, ?_⟩ <;>
      simp [ApplyReport.recordApply, ApplyReport.blockExternalImageRemoval, ApplyReport.recordCreated,
        ApplyReport.recordTyped]
  · cases status <;>
      simp [ApplyReport.recordApply, hr, ApplyReport.recordCreated, ApplyReport.recordTyped,
        ApplyReport.typed, ResourceApplyStatus.disposition]

theorem At.recordedApply {resource : AppliedResource} {status : ResourceApplyStatus}
    (h : At d t k rs extra w)
    (hr : Recordable d t k rs (resource.on t) status.disposition w) :
    Keeps d t (recordApply resource status)
      (fun _ => At d t ((resource.on t).rank + 1) rs (extra.filter (· ≠ resource.on t))) w := by
  obtain ⟨htar, hled, hforeign, hblock⟩ := w.report.recordApply_spec resource status
  rw [h.underway.target] at htar hled
  refine ensures_bind (Q := fun _ u => u = w) (ensures_read rfl) ?_
  rintro result u rfl
  have hat : At d t ((resource.on t).rank + 1) rs (extra.filter (· ≠ resource.on t))
      { u.setReport (u.report.recordApply resource status).1 with
        settingsForeign := u.settingsForeign || (resource = .nspawnConfig && status ≠ .created) } := by
    refine h.record hr rfl htar hled ?_
    intro hf
    rcases (Bool.or_eq_true _ _).mp hf with hf | hf
    · exact hblock (h.underway.settings hf)
    · rw [Bool.and_eq_true, decide_eq_true_eq, decide_eq_true_eq] at hf
      exact hforeign hf.1 hf.2
  refine ensures_bind (Q := fun _ => At d t ((resource.on t).rank + 1) rs
    (extra.filter (· ≠ resource.on t))) (ensures_update hat.underway.safe hat) ?_
  rintro _ v hv
  exact hv.validated result

/-- A file of the deployment can be recorded in its stage. -/
theorem At.fileRecordable (resource : AppliedResource) (status : ResourceApplyStatus)
    (hk : k ≤ (resource.on t).rank) (hs : resource ≠ .localStorage) (he : resource ≠ .externalImage)
    (hb : d.baseRank ≤ k)
    (himg : resource = .nspawnConfig → .externalImage t ∈ rs →
      .externalImage t ∈ w.report.ledger.resources)
    (hw : status = .unchanged ∨ status = .conflictUnknownOwner → resource.on t ∉ w.outstanding) :
    Recordable d t k rs (resource.on t) status.disposition w where
  fresh := hk
  ours := by cases resource <;> rfl
  untouched hd := by
    refine hw ?_
    cases status with
    | created | replacedOwned => cases hd
    | unchanged => exact Or.inl rfl
    | conflictUnknownOwner => exact Or.inr rfl
  raw hr := by cases resource <;> cases hr
  created hr := by
    cases resource with
    | externalImage => exact absurd rfl he
    | localStorage | nvidiaState | nspawnConfig | systemdOverride => cases hr
  image hr := by
    refine himg ?_
    cases resource with
    | nspawnConfig => rfl
    | localStorage | externalImage | nvidiaState | systemdOverride => cases hr
  base _ := Or.inl hb

theorem At.fileStaged {resource : AppliedResource} (h : At d t k rs [] w) (env : Environment)
    (stage : DeploymentStage) (hk : k ≤ (resource.on t).rank) (hs : resource ≠ .localStorage)
    (he : resource ≠ .externalImage) (hb : d.baseRank ≤ k) :
    Keeps d t (applyFileStage env t stage resource)
      (fun _ => At d t ((resource.on t).rank + 1) [] []) w := by
  have hne : .externalImage t ∉ [resource.on t] := by
    rw [List.mem_singleton]
    cases resource with
    | externalImage => exact absurd rfl he
    | localStorage | nvidiaState | nspawnConfig | systemdOverride => rintro ⟨⟩
  refine ensures_bind (h.applying env stage (Announces.single (by cases resource <;> rfl)
    fun hx => hne (by rw [hx]; exact List.mem_singleton.mpr rfl))) ?_
  rintro _ v hv
  refine ensures_bind (hv.applied env (List.mem_singleton.mpr rfl) (by cases resource <;> rfl) hk
    (by cases resource <;> rfl) (by cases resource <;> rfl)) ?_
  rintro status u ⟨hu, hw⟩
  refine ensures_bind (hu.recordedApply (At.fileRecordable resource status hk hs he hb
    (fun _ hx => absurd hx hne) hw)) ?_
  rintro _ v hv
  exact (hv.weaken (by simp)).committed env stage

/-- What the ledger already accounts for is not owed. -/
theorem At.absorb {extra' : List DeploymentResource} (h : At d t k rs extra w)
    (he : ∀ x ∈ extra, Accounted d t (w.report.ledger.resources ++ extra') x) :
    At d t k rs extra' w :=
  { h with
    owing := fun r hr => by
      rcases h.owing r hr with hm | ⟨hc, rfl, hm⟩
      · rcases List.mem_append.mp hm with hm | hm
        exacts [Or.inl (List.mem_append_left _ hm), he r hm]
      · rcases List.mem_append.mp hm with hm | hm
        · exact Or.inr ⟨hc, rfl, List.mem_append_left _ hm⟩
        · exact Or.inr ⟨hc, rfl, (he _ hm).mem (by rintro ⟨⟩)⟩ }

theorem At.owned (h : At d t k rs extra w) (hb : d.baseRank ≤ k) :
    d.base t ∈ w.report.ledger.resources :=
  ResourceLedger.owns_mem (h.based hb)

/-- Settings that are not the deployment's own block the removal of the image. -/
theorem Underway.foreignSettings (h : Underway d t w) (reason : String) :
    Underway d t { w.setReport (w.report.blockExternalImageRemoval reason) with
      settingsForeign := true } where
  live := h.live
  target := h.target
  ours := h.ours
  known := h.known
  covered := h.covered
  pending := h.pending
  kept := h.kept
  history := (World.setReport_known h.history rfl).trans h.history
  idle := h.idle
  raw := h.raw
  storage := h.storage
  settings _ := List.append_ne_nil_of_right_ne_nil _ (List.cons_ne_nil _ _)
  base := h.base
  image := h.image
  imageFirst := h.imageFirst
  imageDue := h.imageDue
  intendedFirst := h.intendedFirst

end Primitives

section Sources

variable {d : Deployer} {t : MachineName} {w : World}

theorem base_local (h : d.isExternalStorageManaged = false) : d.base t = .localStorage t := by
  simp [Deployer.base, h]

theorem base_external (h : d.isExternalStorageManaged = true) : d.base t = .externalImage t := by
  simp [Deployer.base, h]

theorem baseRank_local (h : d.isExternalStorageManaged = false) : d.baseRank = 1 := by
  simp [Deployer.baseRank, h]

theorem baseRank_external (h : d.isExternalStorageManaged = true) : d.baseRank = 3 := by
  simp [Deployer.baseRank, h]

theorem prepareStorage_keeps {env : Environment} (hd : d.isExternalStorageManaged = false)
    (h : At d t 0 [] [] w) : Keeps d t (prepareStorage env t) (fun _ => At d t 1 [] []) w := by
  refine ensures_bind (h.staged env .storagePreparation env.perform rfl (Nat.le_refl 0)
    (by rintro ⟨⟩) rfl (by rintro ⟨⟩) (by rintro ⟨⟩) ?_) ?_
  · rw [base_local hd]
    exact fun _ => Or.inr ⟨rfl, rfl⟩
  · rintro _ v hv
    exact hv.checked env

theorem mountStorage_keeps {env : Environment} (hd : d.isExternalStorageManaged = false)
    (h : At d t 1 [] [] w) : Keeps d t (mountStorage env t) (fun _ => At d t 2 [] []) w := by
  have hb : d.baseRank = 1 := baseRank_local hd
  refine ensures_bind (h.applying env .storagePreparation (Announces.single rfl (by rintro ⟨⟩))) ?_
  rintro _ v hv
  refine ensures_bind (Q := fun _ u => At d t 1 [.storageMount t] [] u ∧
    u.storageMountAttempted = true) (ensures_update hv.attempted.underway.safe ⟨hv.attempted, rfl⟩) ?_
  rintro _ u ⟨hu, hatt⟩
  refine ensures_bind (At.effected (hu.startFresh (List.mem_singleton.mpr rfl) rfl (Nat.le_refl 1)
    (fun _ => hatt) (by rintro ⟨⟩)) env.mount) ?_
  rintro rootfs v hv
  refine ensures_bind (hv.recordedTyped ⟨Nat.le_refl 1, rfl, by rintro ⟨⟩, by rintro ⟨⟩,
    by rintro ⟨⟩, by rintro ⟨⟩, fun _ => Or.inl (by omega)⟩) ?_
  rintro _ u hu
  refine ensures_bind ((hu.weaken (by simp)).committed env .storagePreparation) ?_
  rintro _ v hv
  exact ensures_pure hv

theorem prepareRootfs_keeps {env : Environment} {name : String} (h : At d t 0 [] [] w) :
    Keeps d t (prepareRootfs env name t d) (fun _ => At d t 2 [] []) w := by
  unfold prepareRootfs
  cases hd : d.isExternalStorageManaged with
  | true =>
    rw [if_pos rfl]
    have hb := baseRank_external hd
    exact ensures_pure (h.mono (by omega) (by omega))
  | false =>
    rw [if_neg (by simp)]
    refine ensures_bind (prepareStorage_keeps hd h) ?_
    rintro _ v hv
    exact mountStorage_keeps hd hv

/-- Writing into the storage of the deployment owes nothing new. -/
theorem At.fillStorage {k : ℕ} {rs : List DeploymentResource} {α : Type}
    (hd : d.isExternalStorageManaged = false) (h : At d t k rs [] w) (hk : 1 ≤ k)
    (hi : .localStorage t ∈ rs) (answer : ℕ → Except NspawnError α) :
    Keeps d t (effect [.localStorage t] answer) (fun _ => At d t k rs []) w := by
  have hb : d.baseRank ≤ k := by rw [baseRank_local hd]; exact hk
  have hown := h.based hb
  rw [base_local hd] at hown
  have hstart : At d t k rs ([] ++ [.localStorage t]) (w.start [.localStorage t]) := by
    refine h.start ?_ ?_ ?_ (by simp) (by simp) ?_
    · intro x hx
      rw [List.mem_singleton.mp hx]
      exact hi
    · intro x hx
      rw [List.mem_singleton.mp hx]
      rfl
    · intro x hx
      rw [List.mem_singleton.mp hx]
      obtain ⟨disposition, hdis, ho⟩ := ResourceLedger.owns_iff.mp hown
      rw [hdis]
      rintro ⟨⟩
      cases ho
    · intro x hx hroot
      rw [List.mem_singleton.mp hx] at hroot
      cases hroot
  refine (At.effected hstart answer).post ?_
  intro a v hv
  refine hv.absorb ?_
  intro x hx
  have hown' := hv.owned hb
  rw [base_local hd] at hown'
  rw [List.nil_append, List.mem_singleton] at hx
  rw [hx]
  exact Or.inl (List.mem_append_left _ hown')

theorem deployBootstrap_keeps {env : Environment} {name label rootfs : String}
    (hd : d.isExternalStorageManaged = false) (h : At d t 2 [.localStorage t] [] w) :
    Keeps d t (deployBootstrap env name t label rootfs)
      (fun _ => At d t 2 [.localStorage t] []) w := by
  refine ensures_bind (h.answered env.perform) ?_
  rintro _ v hv
  refine ensures_bind (hv.validated _) ?_
  rintro _ u hu
  refine ensures_bind (hu.fillStorage hd (by omega) (List.mem_singleton.mpr rfl) env.probe) ?_
  rintro success v hv
  exact ensures_onlyIf (fun _ => ensures_fail hv.underway) fun _ => hv

theorem deployTar_keeps {env : Environment} {name rootfs : String}
    (hd : d.isExternalStorageManaged = false) (h : At d t 2 [.localStorage t] [] w) :
    Keeps d t (deployTar env name t rootfs) (fun _ => At d t 2 [.localStorage t] []) w := by
  refine ensures_bind (h.checked env) ?_
  rintro _ v hv
  refine ensures_bind (hv.answered env.perform) ?_
  rintro _ u hu
  refine ensures_bind (hu.checked env) ?_
  rintro _ v hv
  refine ensures_bind (hv.validated _) ?_
  rintro _ u hu
  refine ensures_bind (hu.fillStorage hd (by omega) (List.mem_singleton.mpr rfl) env.perform) ?_
  rintro _ v hv
  exact hv.checked env

/-- The provider confirmed the image: it is recorded as created. -/
theorem At.imageCreated {rs extra : List DeploymentResource} (hd : d.isExternalStorageManaged = true)
    (h : At d t 2 rs extra w) :
    Keeps d t (recordCreated .externalImage)
      (fun _ => At d t 3 rs (extra.filter (· ≠ .externalImage t))) w := by
  have hrec : Recordable d t 2 rs (.externalImage t) .created w :=
    ⟨Nat.le_refl 2, rfl, by rintro ⟨⟩, by rintro ⟨⟩, fun _ => rfl, by rintro ⟨⟩,
      fun _ => Or.inr ⟨(base_external hd).symm, rfl⟩⟩
  have he : recordCreated .externalImage =
      editReport fun report => report.recordTyped (report.typed .externalImage) .created := rfl
  have hat : At d t 3 rs (extra.filter (· ≠ .externalImage t))
      (w.setReport (w.report.recordTyped (w.report.typed .externalImage) .created)) := by
    refine h.record hrec rfl h.underway.target ?_ h.underway.settings
    show w.report.ledger.record (w.report.typed .externalImage) .created = _
    rw [ApplyReport.typed, h.underway.target]
    rfl
  rw [he]
  exact ensures_update hat.underway.safe hat

theorem deployRaw_keeps {env : Environment} {name : String} (hd : d.isExternalStorageManaged = true)
    (h : At d t 2 [.externalImage t] [] w) :
    Keeps d t (deployRaw env name t) (fun _ => At d t 3 [.externalImage t] []) w := by
  refine ensures_bind (h.checked env) ?_
  rintro _ v hv
  refine ensures_bind (hv.answered env.perform) ?_
  rintro _ u hu
  refine ensures_bind (hu.checked env) ?_
  rintro _ v hv
  refine ensures_bind (hv.validated _) ?_
  rintro _ u hu
  refine ensures_bind (At.effected (hu.startFresh (List.mem_singleton.mpr rfl) rfl (Nat.le_refl 2)
    (by rintro ⟨⟩) (by rintro ⟨⟩)) env.perform) ?_
  rintro _ v hv
  refine ensures_bind (hv.imageCreated hd) ?_
  rintro _ u hu
  exact (hu.weaken (by simp)).checked env

theorem verifySystemdClonedConfig_keeps {k : ℕ} {rs extra : List DeploymentResource}
    {env : Environment} {sourceBefore : Option NspawnConfig} (h : At d t k rs extra w) :
    Keeps d t (verifySystemdClonedConfig env sourceBefore) (fun _ => At d t k rs extra) w := by
  -- the two refusals that leave a reason against removing the image
  have hforeign : ∀ {v : World} (reason : String) (e : NspawnError), At d t k rs extra v →
      Keeps d t (do
        update fun w => { w.setReport (w.report.blockExternalImageRemoval reason) with
          settingsForeign := true }
        fail e : Engine Unit) (fun _ => At d t k rs extra) v := by
    intro v reason e hv
    have hu := hv.underway.foreignSettings reason
    refine ensures_bind (Q := fun _ => Underway d t) (ensures_update hu.safe hu) ?_
    rintro _ u hu
    exact ensures_fail hu
  refine ensures_bind (h.answered env.inspect) ?_
  rintro destination v hv
  cases sourceBefore with
  | none =>
    cases destination with
    | none => exact ensures_pure hv
    | some found =>
      refine ensures_bind (hv.answered env.inspect) ?_
      rintro sourceAfter u hu
      dsimp only
      split
      · exact ensures_pure hu
      · exact hforeign _ _ hu
  | some source =>
    cases destination with
    | none => exact ensures_fail hv.underway
    | some found =>
      dsimp only
      split
      · exact ensures_pure hv
      · exact hforeign _ _ hv

theorem sourceHasOverride_keeps {k : ℕ} {rs extra : List DeploymentResource} {env : Environment}
    {sourceName : String} (h : At d t k rs extra w) :
    Keeps d t (sourceHasOverride env sourceName) (fun _ => At d t k rs extra) w := by
  unfold sourceHasOverride
  split
  · exact h.answered env.probe
  · exact ensures_pure h

theorem cloneOverride_keeps {k : ℕ} {rs : List DeploymentResource} {env : Environment}
    (h : At d t k rs [] w) (hi : .systemdOverride t ∈ rs) (hk : k ≤ 9) (hb : d.baseRank ≤ k) :
    Keeps d t (cloneOverride env t) (fun _ => At d t 10 rs []) w := by
  refine ensures_bind (h.applied env hi rfl hk rfl rfl) ?_
  rintro status v ⟨hv, hw⟩
  have hrec : Recordable d t k rs (.systemdOverride t) status.disposition v :=
    At.fileRecordable .systemdOverride status hk (by rintro ⟨⟩) (by rintro ⟨⟩) hb (by rintro ⟨⟩) hw
  refine ensures_bind (hv.recordedApply hrec) ?_
  rintro _ u hu
  exact (hu.weaken (by simp [AppliedResource.on])).checked env

/-- The clone's settings file needs no ledger entry once the image has one. -/
theorem At.absorbSettings {k : ℕ} {rs extra : List DeploymentResource} (hc : d.isClone = true)
    (h : At d t k rs extra w) (hb : d.baseRank ≤ k) (hd : d.isExternalStorageManaged = true)
    (he : ∀ x ∈ extra, x = .nspawnConfig t) : At d t k rs [] w := by
  refine h.absorb ?_
  intro x hx
  have hown := h.owned hb
  rw [base_external hd] at hown
  exact Or.inr ⟨hc, he x hx, List.mem_append_left _ hown⟩

theorem deployClone_keeps {env : Environment} {sourceName : String} (hc : d.isClone = true)
    (hd : d.isExternalStorageManaged = true)
    (h : At d t 2 [.externalImage t, .nspawnConfig t, .systemdOverride t] [] w) :
    Keeps d t (deployClone env t sourceName)
      (fun _ => At d t 10 [.externalImage t, .nspawnConfig t, .systemdOverride t] []) w := by
  have hb : d.baseRank = 3 := baseRank_external hd
  refine ensures_bind (h.checked env) ?_
  rintro _ v hv
  refine ensures_bind (hv.answered env.inspect) ?_
  rintro sourceConfig u hu
  refine ensures_bind (sourceHasOverride_keeps hu) ?_
  rintro hasOverride v hv
  refine ensures_bind (hv.checked env) ?_
  rintro _ u hu
  refine ensures_bind (hu.asked env.copiesSettings) ?_
  rintro copies v hv
  have hfrom : ∀ x ∈ (DeploymentResource.externalImage t :: if copies then [.nspawnConfig t] else []),
      x = .externalImage t ∨ x = .nspawnConfig t := by
    intro x hx
    cases copies with
    | false => exact Or.inl (by simpa using hx)
    | true => simpa using hx
  have hstart : At d t 2 [.externalImage t, .nspawnConfig t, .systemdOverride t]
      ([] ++ .externalImage t :: if copies then [.nspawnConfig t] else [])
      (v.start (.externalImage t :: if copies then [.nspawnConfig t] else [])) := hv.start
    (by intro x hx; rcases hfrom x hx with rfl | rfl <;> simp)
    (by intro x hx; rcases hfrom x hx with rfl | rfl <;> rfl)
    (by
      intro x hx
      have hfresh : x ∉ v.report.ledger.resources := by
        refine hv.fresh ?_
        rcases hfrom x hx with rfl | rfl
        · exact Nat.le_refl 2
        · show 2 ≤ 8
          omega
      rw [ResourceLedger.disposition_eq_none.mpr hfresh]
      rintro ⟨⟩)
    (by intro hx; rcases hfrom _ hx with hx | hx <;> cases hx)
    (by intro hx; rcases hfrom _ hx with hx | hx <;> cases hx)
    (by intro x hx hroot; rcases hfrom x hx with rfl | rfl <;> cases hroot)
  refine ensures_bind (At.effected hstart env.perform) ?_
  rintro _ u hu
  refine ensures_bind (hu.imageCreated hd) ?_
  rintro _ v hv
  have hv' := hv.absorbSettings hc (by omega) hd (by
    intro x hx
    rw [List.nil_append, List.mem_filter] at hx
    rcases hfrom x hx.1 with rfl | hx'
    · simp at hx
    · exact hx')
  refine ensures_bind (hv'.checked env) ?_
  rintro _ u hu
  refine ensures_bind (verifySystemdClonedConfig_keeps hu) ?_
  rintro _ v hv
  refine ensures_bind (hv.checked env) ?_
  rintro _ u hu
  refine ensures_bind (ensures_onlyIf
    (fun _ => cloneOverride_keeps hu (by simp) (by omega) (by omega))
    (fun _ => hu.mono (by omega) (by omega))) ?_
  rintro _ v hv
  refine ensures_bind (ensures_mapFailure (hv.answered env.perform)) ?_
  rintro _ u hu
  exact hu.checked env

theorem deployOci_keeps {env : Environment} {name : String} (hd : d.isExternalStorageManaged = true)
    (h : At d t 2 [.externalImage t, .nspawnConfig t] [] w) :
    Keeps d t (deployOci env name t)
      (fun _ => At d t 9 [.externalImage t, .nspawnConfig t] []) w := by
  have hb : d.baseRank = 3 := baseRank_external hd
  refine ensures_bind (h.answered env.perform) ?_
  rintro _ v hv
  refine ensures_bind (hv.checked env) ?_
  rintro _ u hu
  refine ensures_bind (hu.answered env.perform) ?_
  rintro _ v hv
  refine ensures_bind (hv.checked env) ?_
  rintro _ u hu
  refine ensures_bind (hu.answered env.perform) ?_
  rintro _ v hv
  refine ensures_bind (hv.validated _) ?_
  rintro _ u hu
  have hstart : At d t 2 [.externalImage t, .nspawnConfig t] ([] ++ [.externalImage t])
      (u.start [.externalImage t]) :=
    hu.startFresh (by simp) rfl (Nat.le_refl 2) (by rintro ⟨⟩) (by rintro ⟨⟩)
  refine ensures_bind (At.effected hstart env.probe) ?_
  rintro success v hv
  refine ensures_bind (Q := fun _ => At d t 2 [.externalImage t, .nspawnConfig t]
    ([] ++ [.externalImage t])) (ensures_onlyIf (fun _ => ensures_fail hv.underway) fun _ => hv) ?_
  rintro _ u hu
  refine ensures_bind (hu.imageCreated hd) ?_
  rintro _ v hv
  have hv' : At d t 3 [.externalImage t, .nspawnConfig t] [] v := hv.weaken (by simp)
  refine ensures_bind (hv'.checked env) ?_
  rintro _ u hu
  refine ensures_bind (ensures_mapFailure (hu.applied env (by simp) rfl (by show 3 ≤ 8; omega) rfl rfl)) ?_
  rintro status v ⟨hv, hw⟩
  have hown := hv.owned (by omega)
  rw [base_external hd] at hown
  have hrec : Recordable d t 3 [.externalImage t, .nspawnConfig t] (.nspawnConfig t)
      status.disposition v :=
    At.fileRecordable .nspawnConfig status (by show 3 ≤ 8; omega) (by rintro ⟨⟩) (by rintro ⟨⟩)
      (by omega) (fun _ _ => hown) hw
  refine ensures_bind (hv.recordedApply hrec) ?_
  rintro _ u hu
  exact (hu.weaken (by simp [AppliedResource.on])).checked env

theorem sourceStageResources_announced (d : Deployer) (t : MachineName) :
    Announces t 2 (d.sourceStageResources t) where
  ours := by
    rcases d with _ | (_ | _) | _ | _ <;> simp [Deployer.sourceStageResources,
      Deployer.isExternalStorageManaged, DeploymentResource.target]
  due _ := by omega
  order := by
    have hoci : ImageFirst t ([.externalImage t] ++ [.nspawnConfig t]) :=
      (ImageFirst.single _).snoc (by rintro ⟨⟩)
    rcases d with _ | raw | _ | _
    · exact ImageFirst.single _
    · cases raw <;> exact ImageFirst.single _
    · exact hoci.snoc (by rintro ⟨⟩)
    · exact hoci

/-- The source stage: afterwards the root file system exists and is owned. -/
theorem deploySource_keeps {env : Environment} {name rootfs : String} (h : At d t 2 [] [] w) :
    Keeps d t (deploySource env name t d rootfs)
      (fun _ u => ∃ k, At d t k [] [] u ∧ (d.requiresPostConfig = true → k = 3)) w := by
  have hfinish : ∀ {k : ℕ} {rs : List DeploymentResource} {v : World}, At d t k rs [] v →
      (d.requiresPostConfig = true → k = 3) →
      Keeps d t (do persistCommitted env .sourceDeployment; checkDeploymentCancellation env)
        (fun _ u => ∃ k, At d t k [] [] u ∧ (d.requiresPostConfig = true → k = 3)) v := by
    intro k rs v hv hk
    refine ensures_bind (hv.committed env .sourceDeployment) ?_
    rintro _ u hu
    exact (hu.checked env).post fun _ x hx => ⟨k, hx, hk⟩
  unfold deploySource
  refine ensures_bind (h.applying env .sourceDeployment (sourceStageResources_announced d t)) ?_
  rintro _ v hv
  cases d with
  | bootstrap label =>
    refine ensures_bind (deployBootstrap_keeps rfl hv) ?_
    rintro _ u hu
    exact hfinish (hu.mono (by omega) (by intro; show 1 ≤ 2; omega)) fun _ => rfl
  | image raw =>
    cases raw with
    | false =>
      refine ensures_bind (deployTar_keeps rfl hv) ?_
      rintro _ u hu
      exact hfinish (hu.mono (by omega) (by intro; show 1 ≤ 2; omega)) fun _ => rfl
    | true =>
      refine ensures_bind (deployRaw_keeps rfl hv) ?_
      rintro _ u hu
      exact hfinish hu fun _ => rfl
  | clone sourceName =>
    refine ensures_bind (deployClone_keeps rfl rfl hv) ?_
    rintro _ u hu
    exact hfinish hu (by rintro ⟨⟩)
  | oci reference =>
    refine ensures_bind (deployOci_keeps rfl hv) ?_
    rintro _ u hu
    exact hfinish hu (by rintro ⟨⟩)

end Sources

section PostConfiguration

variable {d : Deployer} {t : MachineName} {k : ℕ} {rs extra : List DeploymentResource} {w : World}
variable {env : Environment}

theorem baseRank_le (d : Deployer) : d.baseRank ≤ 3 := by
  unfold Deployer.baseRank
  split <;> omega

/-- What is not outstanding is not owed. -/
theorem At.unowed (h : At d t k rs extra w)
    (he : ∀ x ∈ extra, x ∉ w.outstanding ∧ x ≠ .externalImage t) : At d t k rs [] w :=
  { h with
    owing := fun r hr => by
      rcases h.owing r hr with hm | ⟨hc, rfl, hm⟩
      · rcases List.mem_append.mp hm with hm | hm
        exacts [Or.inl (List.mem_append_left _ hm), absurd hr (he r hm).1]
      · rcases List.mem_append.mp hm with hm | hm
        exacts [Or.inr ⟨hc, rfl, List.mem_append_left _ hm⟩, absurd rfl (he _ hm).2] }

theorem noteRawMount_keeps {mounted : Option RootfsTarget}
    (h : At d t 3 [.rawConfigurationMount t] [.rawConfigurationMount t] w) :
    Keeps d t (noteRawMount t mounted) (fun _ => At d t 4 [.rawConfigurationMount t] []) w := by
  have hb := baseRank_le d
  cases mounted with
  | some raw =>
    refine ensures_bind (Q := fun _ u => At d t 3 [.rawConfigurationMount t]
      [.rawConfigurationMount t] u ∧ u.rawMountTarget.isSome = true)
      (ensures_update (h.mounted raw).underway.safe ⟨h.mounted raw, rfl⟩) ?_
    rintro _ u ⟨hu, hraw⟩
    have hrec : Recordable d t 3 [.rawConfigurationMount t] (.rawConfigurationMount t) .created u :=
      ⟨Nat.le_refl 3, rfl, by rintro ⟨⟩, fun _ => hraw, by rintro ⟨⟩, by rintro ⟨⟩, fun _ => Or.inl hb⟩
    refine (hu.recordedTyped hrec).post ?_
    intro _ v hv
    exact hv.weaken (by simp)
  | none =>
    have hs : At d t 3 [.rawConfigurationMount t] [] (w.settle [.rawConfigurationMount t]) := by
      refine (h.settle [.rawConfigurationMount t]).unowed ?_
      intro x hx
      rw [World.mem_settle]
      refine ⟨fun hm => hm.2 hx, ?_⟩
      rw [List.mem_singleton.mp hx]
      rintro ⟨⟩
    exact ensures_update hs.underway.safe (hs.mono (by omega) (by omega))

theorem mountedRootfs_keeps {rootfs : RootfsTarget} (h : At d t 3 [] [] w) :
    Keeps d t (mountedRootfs env t rootfs) (fun _ => At d t 4 [] []) w := by
  have hb := baseRank_le d
  refine ensures_bind (h.answered env.probe) ?_
  rintro present v hv
  split
  · refine ensures_bind (hv.applying env .rootfsMutation (Announces.single rfl (by rintro ⟨⟩))) ?_
    rintro _ u hu
    refine ensures_bind (At.effected (hu.startFresh (List.mem_singleton.mpr rfl) rfl (Nat.le_refl 3)
      (by rintro ⟨⟩) (by rintro ⟨⟩)) env.mountManagedRaw) ?_
    rintro mounted v hv
    refine ensures_bind (noteRawMount_keeps hv) ?_
    rintro _ u hu
    refine ensures_bind (hu.committed env .rootfsMutation) ?_
    rintro _ v hv
    refine ensures_bind (hv.checked env) ?_
    rintro _ u hu
    exact ensures_pure hu
  · exact ensures_pure (hv.mono (by omega) (by omega))

/-- A stage of the root file system, once the root file system is owned. -/
theorem At.rootfsStaged {r : DeploymentResource} {α : Type} (h : At d t k [] [] w)
    (answer : ℕ → Except NspawnError α) (hk3 : 3 ≤ k) (ht : r.target = t) (hk : k ≤ r.rank)
    (hm : r.isRootfs = true) :
    Keeps d t (applyStage env .rootfsMutation r .committed answer)
      (fun _ => At d t (r.rank + 1) [] []) w := by
  have hb := baseRank_le d
  have hkb : d.baseRank ≤ k := by omega
  have hkind : r.isMount = false ∧ r ≠ .externalImage t := by
    cases r <;> simp [DeploymentResource.isMount, DeploymentResource.isRootfs] at hm ⊢
  exact h.staged env .rootfsMutation answer ht hk (by rintro ⟨⟩) hkind.1 hkind.2 (fun _ => hkb)
    fun _ => Or.inl hkb

theorem setHostname_keeps (h : At d t 4 [] [] w) :
    Keeps d t (setHostname env t) (fun _ => At d t 5 [] []) w := by
  refine ensures_bind (h.rootfsStaged env.perform (by omega) rfl (Nat.le_refl 4) rfl) ?_
  rintro _ v hv
  exact hv.checked env

theorem changeAccounts_keeps (h : At d t 5 [.rootfsAccounts t] [.rootfsAccounts t] w) :
    Keeps d t (changeAccounts env t)
      (fun _ => At d t 5 [.rootfsAccounts t] [.rootfsAccounts t]) w := by
  have hb := baseRank_le d
  refine ensures_bind (At.effected (h.startFresh (List.mem_singleton.mpr rfl) rfl (Nat.le_refl 5)
    (by rintro ⟨⟩) (fun _ => by omega)) env.perform) ?_
  rintro _ v hv
  exact (hv.weaken (by simp)).checked env

/-- With account changes pending, every change falls under the one intent. -/
theorem configureAccounts_keeps {cfg : MachineProvisioningConfig} (h : At d t 5 [] [] w) :
    Keeps d t (configureAccounts env t cfg true)
      (fun _ => At d t 5 [.rootfsAccounts t] [.rootfsAccounts t]) w := by
  refine ensures_bind (Q := fun _ => At d t 5 [.rootfsAccounts t] [.rootfsAccounts t])
    (ensures_onlyIf (fun _ => (h.applying env .rootfsMutation 
      (Announces.single rfl (by rintro ⟨⟩))).post
      fun _ v hv => hv.weaken (by simp)) (by rintro ⟨⟩)) ?_
  rintro _ v hv
  refine ensures_bind (Q := fun _ => At d t 5 [.rootfsAccounts t] [.rootfsAccounts t]) ?_ ?_
  · refine ensures_bind (Q := fun _ => At d t 5 [.rootfsAccounts t] [.rootfsAccounts t])
      (ensures_read hv) ?_
    rintro password u hu
    refine ensures_bind (Q := fun _ => At d t 5 [.rootfsAccounts t] [.rootfsAccounts t])
      (ensures_update (hu.secrets _).underway.safe (hu.secrets _)) ?_
    rintro _ v hv
    exact ensures_onlyIf (fun _ => changeAccounts_keeps hv) fun _ => hv
  · rintro _ u hu
    refine ensures_forEach ?_ hu
    intro user _ v hv
    refine ensures_bind (Q := fun _ => At d t 5 [.rootfsAccounts t] [.rootfsAccounts t])
      (ensures_read hv) ?_
    rintro taken u hu
    cases taken with
    | error e => exact ensures_fail hu.underway
    | ok p =>
      refine ensures_bind (Q := fun _ => At d t 5 [.rootfsAccounts t] [.rootfsAccounts t])
        (ensures_update (hu.secrets _).underway.safe (hu.secrets _)) ?_
      rintro _ v hv
      exact changeAccounts_keeps hv

/-- Without secrets no account can be changed: a user that needs one stops the
deployment before anything is touched. -/
theorem configureAccounts_keeps_of_unchanged {cfg : MachineProvisioningConfig}
    (h : At d t 5 [] [] w) (hs : w.secrets.hasAccountChanges = false) :
    Keeps d t (configureAccounts env t cfg false) (fun _ => At d t 5 [] []) w := by
  have hnone : w.secrets = ⟨none, []⟩ := by
    rw [DeploymentSecrets.hasAccountChanges, Bool.or_eq_false_iff, Bool.not_eq_eq_eq_not,
      Bool.not_false, List.isEmpty_iff, Option.isSome_eq_false_iff, Option.isNone_iff_eq_none] at hs
    exact congrArg₂ DeploymentSecrets.mk hs.1 hs.2
  refine ensures_bind (Q := fun _ u => At d t 5 [] [] u ∧ u.secrets = ⟨none, []⟩)
    (ensures_onlyIf (by rintro ⟨⟩) fun _ => ⟨h, hnone⟩) ?_
  rintro _ v ⟨hv, hsv⟩
  refine ensures_bind (Q := fun _ u => At d t 5 [] [] u ∧ u.secrets = ⟨none, []⟩) ?_ ?_
  · refine ensures_bind (Q := fun p u => p = none ∧ At d t 5 [] [] u ∧ u.secrets = ⟨none, []⟩)
      (ensures_read ⟨by rw [hsv]; rfl, hv, hsv⟩) ?_
    rintro _ u ⟨rfl, hu, hsu⟩
    refine ensures_bind (Q := fun _ u => At d t 5 [] [] u ∧ u.secrets = ⟨none, []⟩)
      (ensures_update (hu.secrets _).underway.safe ⟨hu.secrets _, by rw [hsu]; rfl⟩) ?_
    rintro _ v hv
    exact ensures_onlyIf (by rintro ⟨⟩) fun _ => hv
  · rintro _ u hu
    refine (ensures_forEach (K := fun u => At d t 5 [] [] u ∧ u.secrets = ⟨none, []⟩) ?_ hu).post
      fun _ _ hx => hx.1
    rintro user - v ⟨hv, hsv⟩
    refine ensures_bind (Q := fun x u => x = .error s!"missing secret capsule entry for user \"{user.username}\"" ∧
      At d t 5 [] [] u) (ensures_read ⟨by rw [hsv]; rfl, hv⟩) ?_
    rintro _ u ⟨rfl, hu⟩
    exact ensures_fail hu.underway

theorem resolveWayland_keeps {cfg : MachineProvisioningConfig} {supports : Bool}
    {intent : WaylandGrantIntent} (h : At d t k rs extra w) :
    Keeps d t (resolveWayland env cfg supports intent) (fun _ => At d t k rs extra) w := by
  unfold resolveWayland
  split
  · exact ensures_fail h.underway
  · split
    · exact ensures_fail h.underway
    · refine ensures_bind (h.answered env.perform) ?_
      rintro _ v hv
      refine ensures_bind (hv.answered env.perform) ?_
      rintro _ u hu
      exact hu.checked env

theorem commitAccounts_keeps (h : At d t 5 [.rootfsAccounts t] [.rootfsAccounts t] w) :
    Keeps d t (commitAccounts env t) (fun _ => At d t 6 [] []) w := by
  have hb := baseRank_le d
  refine ensures_bind (h.recordedTyped ⟨Nat.le_refl 5, rfl, by rintro ⟨⟩, by rintro ⟨⟩, by rintro ⟨⟩,
    by rintro ⟨⟩, fun _ => Or.inl (by omega)⟩) ?_
  rintro _ v hv
  exact (hv.weaken (by simp)).committed env .rootfsMutation

theorem applyAccounts_keeps {cfg : MachineProvisioningConfig} {intents : List WaylandGrantIntent}
    {supports : Bool} (h : At d t 5 [] [] w) :
    Keeps d t (applyAccounts env t cfg intents supports) (fun _ => At d t 6 [] []) w := by
  have hb := baseRank_le d
  refine ensures_bind (Q := fun changes u => changes = w.secrets.hasAccountChanges ∧ u = w)
    (ensures_read ⟨rfl, rfl⟩) ?_
  rintro _ u ⟨rfl, rfl⟩
  cases hc : supports && u.secrets.hasAccountChanges with
  | true =>
    rw [Bool.and_eq_true] at hc
    obtain ⟨rfl, hs⟩ := hc
    rw [hs]
    refine ensures_bind (ensures_onlyIf (fun _ => configureAccounts_keeps h) (by rintro ⟨⟩)) ?_
    rintro _ v hv
    refine ensures_bind (ensures_forEach (fun _ _ u hu => resolveWayland_keeps hu) hv) ?_
    rintro _ u hu
    exact ensures_onlyIf (fun _ => commitAccounts_keeps hu) (by rintro ⟨⟩)
  | false =>
    refine ensures_bind (Q := fun _ => At d t 5 [] []) (ensures_onlyIf ?_ fun _ => h) ?_
    · rintro rfl
      rw [Bool.true_and] at hc
      rw [hc]
      exact configureAccounts_keeps_of_unchanged h hc
    · rintro _ v hv
      refine ensures_bind (ensures_forEach (fun _ _ u hu => resolveWayland_keeps hu) hv) ?_
      rintro _ u hu
      exact ensures_onlyIf (by rintro ⟨⟩) fun _ => hu.mono (by omega) (by omega)

theorem configureNvidia_keeps {supports : Bool} (h : At d t 6 [] [] w) :
    Keeps d t (configureNvidia env t supports) (fun _ => At d t 8 [] []) w := by
  have hb := baseRank_le d
  refine ensures_bind (ensures_mapFailure (h.answered env.perform)) ?_
  rintro _ v hv
  refine ensures_bind (hv.checked env) ?_
  rintro _ u hu
  refine ensures_bind (hu.fileStaged env .hostConfiguration (Nat.le_refl 6) (by rintro ⟨⟩)
    (by rintro ⟨⟩) (by omega)) ?_
  rintro _ v hv
  refine ensures_bind (hv.checked env) ?_
  rintro _ u hu
  refine ensures_bind (ensures_onlyIf
    (fun _ => hu.rootfsStaged env.perform (by show 3 ≤ 7; omega) rfl (Nat.le_refl 7) rfl)
    (fun _ => hu.mono (by show 7 ≤ 8; omega) (by show _ → d.baseRank ≤ 7; omega))) ?_
  rintro _ v hv
  exact hv.checked env

theorem commitRuntime_keeps {cfg : MachineProvisioningConfig} (h : At d t 8 [] [] w) :
    Keeps d t (commitRuntime env t cfg) (fun _ => At d t 10 [] []) w := by
  have hb := baseRank_le d
  refine ensures_bind (h.fileStaged env .runtimeCommit (Nat.le_refl 8) (by rintro ⟨⟩)
    (by rintro ⟨⟩) (by omega)) ?_
  rintro _ v hv
  refine ensures_bind (hv.checked env) ?_
  rintro _ u hu
  refine ensures_onlyIf (fun _ => ?_) fun _ =>
    hu.mono (by show 9 ≤ 10; omega) (by show _ → d.baseRank ≤ 9; omega)
  refine ensures_bind (hu.fileStaged env .runtimeCommit (Nat.le_refl 9) (by rintro ⟨⟩)
    (by rintro ⟨⟩) (by show d.baseRank ≤ 9; omega)) ?_
  rintro _ v hv
  refine ensures_bind (hv.answered env.perform) ?_
  rintro _ u hu
  exact hu.checked env

theorem configureNetwork_keeps {cfg : MachineProvisioningConfig} (h : At d t 10 [] [] w) :
    Keeps d t (configureNetwork env t cfg) (fun _ => At d t 11 [] []) w := by
  have hb := baseRank_le d
  refine ensures_onlyIf (fun _ => ?_) fun _ => h.mono (by omega) (by omega)
  refine ensures_bind (h.rootfsStaged env.perform (by omega) rfl (Nat.le_refl 10) rfl) ?_
  rintro _ v hv
  exact hv.checked env

theorem postConfigure_keeps {cfg : MachineProvisioningConfig} {intents : List WaylandGrantIntent}
    {name rootfs : String} (h : At d t 3 [] [] w) :
    Keeps d t (postConfigure env name t cfg intents rootfs) (fun _ => At d t 11 [] []) w := by
  have hb := baseRank_le d
  refine ensures_bind (h.validated _) ?_
  rintro _ v hv
  refine ensures_bind (mountedRootfs_keeps hv) ?_
  rintro _ u hu
  refine ensures_bind (hu.answered env.probe) ?_
  rintro hasOsLayout v hv
  refine ensures_bind (Q := fun _ => At d t 4 [] []) ?_ ?_
  · unfold supportsNspawnCommands
    split
    · exact hv.answered env.probe
    · exact ensures_pure hv
  rintro supports u hu
  refine ensures_bind (ensures_onlyIf (fun _ => setHostname_keeps hu)
    fun _ => hu.mono (by omega) (by omega)) ?_
  rintro _ v hv
  refine ensures_bind (applyAccounts_keeps hv) ?_
  rintro _ u hu
  refine ensures_bind (ensures_onlyIf (fun _ => configureNvidia_keeps hu)
    fun _ => hu.mono (by omega) (by omega)) ?_
  rintro _ v hv
  refine ensures_bind (commitRuntime_keeps hv) ?_
  rintro _ u hu
  refine ensures_bind (ensures_onlyIf (fun _ => configureNetwork_keeps hu)
    fun _ => hu.mono (by omega) (by omega)) ?_
  rintro _ v hv
  exact hv.checked env

theorem inspectDeploymentSidecars_keeps (h : At d t k rs extra w) :
    Keeps d t (inspectDeploymentSidecars env) (fun _ => At d t k rs extra) w := by
  refine ensures_bind (h.answered env.inspect) ?_
  rintro found v hv
  cases found with
  | none => exact ensures_pure hv
  | some config => exact ensures_fail hv.underway

/-- The stages as a whole: wherever they stop, the deployment is accounted for. -/
theorem runStages_keeps {cfg : MachineProvisioningConfig} {intents : List WaylandGrantIntent}
    {name : String} (h : At d t 0 [] [] w) :
    Keeps d t (runStages env name t d cfg intents) (fun _ u => ∃ k, At d t k [] [] u) w := by
  refine ensures_bind (h.checked env) ?_
  rintro _ v hv
  refine ensures_bind (inspectDeploymentSidecars_keeps hv) ?_
  rintro _ u hu
  refine ensures_bind (hu.checked env) ?_
  rintro _ v hv
  refine ensures_bind (prepareRootfs_keeps hv) ?_
  rintro rootfs u hu
  refine ensures_bind (deploySource_keeps hu) ?_
  rintro _ v ⟨k, hv, hk⟩
  split
  · rename_i hp
    rw [hk hp] at hv
    exact (postConfigure_keeps hv).post fun _ u hu => ⟨_, hu⟩
  · exact (hv.checked env).post fun _ u hu => ⟨_, hu⟩

end PostConfiguration

end Lasper.Provisioning
