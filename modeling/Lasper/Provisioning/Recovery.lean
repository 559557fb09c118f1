import Lasper.Provisioning.Rollback

/-! Whole deployments. Wherever a run stops, recovery finds in the durable
manifest what the run has touched and not confirmed undone, and whatever the
run removed on its way out was its own to remove. -/

namespace Lasper.Provisioning

open Lib Traced

/-- A deployment about to run: its manifest is prepared and stored. -/
def World.prepared (target : MachineName) (secrets : DeploymentSecrets) : World where
  session := some ⟨.prepared target, some (.prepared target)⟩
  report := .new target
  secrets := secrets

section Runs

variable {d : Deployer} {t : MachineName} {w : World} {clear : Prop} {env : Environment}

theorem At.prepared (d : Deployer) (t : MachineName) (secrets : DeploymentSecrets) :
    At d t 0 [] [] (World.prepared t secrets) := by
  have hno : ∀ {P : DeploymentResource → Prop}, ∀ r ∈ (World.prepared t secrets).outstanding, P r := by
    intro P r hr
    cases hr
  have hpos : ¬d.baseRank ≤ 0 := by
    unfold Deployer.baseRank
    split <;> omega
  have hnil : ImageFirst t [] := fun hs => absurd hs.length_le (by simp)
  exact
    { underway :=
        { live := ⟨_, rfl, rfl⟩
          target := rfl
          ours := hno
          known := fun r hr => by cases hr
          covered := hno
          pending := hno
          kept := hno
          history := rfl
          idle := ⟨rfl, rfl⟩
          raw := fun hr => by cases hr
          storage := fun hr => by cases hr
          settings := fun hr => by cases hr
          base := hno
          image := fun hr => by cases hr
          imageFirst := hnil
          imageDue := fun hr => by cases hr
          intendedFirst := hnil }
      intended := rfl
      below := fun r hr => by cases hr
      based := fun hb => absurd hb hpos
      owing := hno }

/-- A rollback without errors that knows every outcome has undone everything. -/
theorem Rolling.finished (h : Rolling d t [] [] [] clear w) (hc : clear)
    (hu : w.report.outcomeUnknownResources = []) : w.outstanding = [] := by
  have hknown : ∀ r, w.report.ledger.disposition r ≠ some .outcomeUnknown := by
    intro r hr
    obtain ⟨e, he, hd⟩ := Option.map_eq_some_iff.mp hr
    have hmem : e.resource ∈ w.report.outcomeUnknownResources := by
      refine List.mem_map_of_mem (List.mem_filter.mpr ⟨List.mem_of_find?_eq_some he, ?_⟩)
      rw [decide_eq_true_eq]
      exact hd
    rw [hu] at hmem
    cases hmem
  rw [List.eq_nil_iff_forall_not_mem]
  intro r hr
  rcases h.accounted hc r hr with hm | hm | ⟨-, hm⟩ | ⟨-, hm | hm⟩
  exacts [absurd hm List.not_mem_nil, hknown r hm, absurd hm List.not_mem_nil,
    absurd hm List.not_mem_nil, hknown _ hm]

theorem rollbackApplyReport_rolling {E : NspawnError → World → Prop}
    (h : Closing d t [] clear false w) :
    Ensures (Safe d t) (rollbackApplyReport env)
      (fun errors => Rolling d t [] [] [] (clear ∧ errors = [])) E w := by
  refine ensures_bind (Q := fun rs u => rs = w.report.typedOwnedInReverse ∧ u = w)
    (ensures_read ⟨rfl, rfl⟩) ?_
  rintro rs u ⟨rfl, rfl⟩
  refine ensures_bind (rollbackLoop_rolling (h.rolling.weaken And.left)) ?_
  rintro ⟨errors, reload⟩ v hv
  dsimp only at hv ⊢
  split
  · refine ensures_bind (ensures_attempt (askResult_spec (hv.calls _).toSound.safe
      (fun _ => hv.calls _) (fun _ => hv.calls _))
      (R := fun _ => Rolling d t [] [] [] (clear ∧ errors = []))) ?_
    rintro (e | x) u hu
    · refine ensures_pure (hu.weaken ?_)
      rintro ⟨hc, he⟩
      exact ⟨hc, (List.append_eq_nil_iff.mp he).1⟩
    · exact ensures_pure hu
  · exact ensures_pure hv

theorem finishManifest_safe {Q : Unit → World → Prop} {E : NspawnError → World → Prop}
    (h : Sound d t w) (ho : w.outstanding = []) (hQ : ∀ u, Q () u) (hE : ∀ e u, E e u) :
    Ensures (Safe d t) (finishManifest env) Q E w := by
  obtain ⟨session, hs, -⟩ := h.live
  refine ensures_bind (Q := fun x u => x = some session ∧ u = w) (ensures_read ⟨hs, rfl⟩) ?_
  rintro x u ⟨rfl, rfl⟩
  refine ensures_bind (Q := fun _ v => v = { u with calls := u.calls + 1 })
    (ask_spec (h.calls _).safe rfl) ?_
  rintro port v rfl
  cases hp : session.finish port with
  | ok session' =>
    refine ensures_update ⟨?_, ?_⟩ (hQ _)
    · intro r hr
      have hr' : r ∈ u.outstanding := hr
      rw [ho] at hr'
      cases hr'
    · exact ⟨h.restrained.removals, h.restrained.visited, h.restrained.removed⟩
  | error e => exact ensures_fail (hE _ _)

/-- The end of a stopped deployment. -/
theorem stopDeployment_safe {error : NspawnError} {cleanupErrors : List String} {failed : Bool}
    (h : Closing d t [] (cleanupErrors = []) failed w) :
    Ensures (Safe d t) (stopDeployment env error cleanupErrors failed) (fun _ _ => True)
      (fun _ _ => True) w := by
  refine ensures_bind (Q := fun rolledBack u => Sound d t u ∧ (cleanupErrors = [] → rolledBack = [] →
    u.report.outcomeUnknownResources = [] → u.outstanding = [])) ?_ ?_
  · unfold attemptRollback
    cases failed with
    | true =>
      rw [if_pos rfl]
      refine ensures_pure ⟨h.toSound, ?_⟩
      intro _ hnil
      cases hnil
    | false =>
      rw [if_neg (by simp)]
      exact (rollbackApplyReport_rolling h).post fun errors u hu =>
        ⟨hu.toSound, fun hc he hn => hu.finished ⟨hc, he⟩ hn⟩
  rintro rolledBack u ⟨hu, hdone⟩
  refine ensures_bind (Q := fun x v => x = u.report.outcomeUnknownResources ∧ v = u)
    (ensures_read ⟨rfl, rfl⟩) ?_
  rintro x v ⟨rfl, rfl⟩
  dsimp only
  split
  · rename_i hnone
    obtain ⟨hboth, hunknown⟩ := List.append_eq_nil_iff.mp hnone
    obtain ⟨hc, hr⟩ := List.append_eq_nil_iff.mp hboth
    have ho := hdone hc hr (List.map_eq_nil_iff.mp hunknown)
    refine ensures_bind (Q := fun _ _ => True) (ensures_attempt (finishManifest_safe hu ho
      (fun _ => trivial) fun _ _ => trivial)) ?_
    rintro (e | x) v -
    · exact ensures_fail trivial
    · exact ensures_fail trivial
  · refine ensures_bind (Q := fun _ _ => True) (hu.transitioned env .cleanupPending
      (fun _ _ _ => trivial) fun _ _ _ => trivial) ?_
    rintro x v -
    exact ensures_fail trivial

theorem cleanUp_safe {result : Except NspawnError Unit}
    (h : Closing d t (mountsTodo t w) True false w) :
    Ensures (Safe d t) (cleanUp env t result) (fun _ _ => True) (fun _ _ => True) w := by
  refine ensures_bind (unmountRaw_closing h) ?_
  rintro ⟨rawErrors, rawFailed⟩ v hv
  refine ensures_bind (unmountStorage_closing hv) ?_
  rintro ⟨storageErrors, failed⟩ u hu
  have hu' : Closing d t [] (rawErrors ++ storageErrors = []) failed u :=
    hu.weaken fun he => List.append_eq_nil_iff.mp he
  cases result with
  | error e => exact stopDeployment_safe hu'
  | ok x =>
    have hc : Closing d t [] (rawErrors ++ storageErrors = []) failed { u with calls := u.calls + 1 } :=
      hu'.ofSound (hu'.toSound.calls _) rfl rfl rfl ⟨rfl, rfl⟩ rfl
    refine ensures_bind (Q := fun _ v => v = { u with calls := u.calls + 1 })
      (ask_spec hc.toSound.safe rfl) ?_
    rintro cancelled v rfl
    split
    · exact stopDeployment_safe hc
    · split
      · exact stopDeployment_safe hc
      · exact ensures_pure trivial

/-- What holds after the stages, completed or not. -/
def AfterStages (d : Deployer) (t : MachineName) : Except NspawnError Unit → World → Prop
  | .ok () => fun u => ∃ k, At d t k [] [] u
  | .error _ => Underway d t

theorem runDeployInternal_safe {name : String} {cfg : MachineProvisioningConfig}
    {intents : List WaylandGrantIntent} {secrets : DeploymentSecrets} :
    Ensures (Safe d t) (runDeployInternal env name t d cfg intents) (fun _ _ => True)
      (fun _ _ => True) (World.prepared t secrets) := by
  refine ensures_bind (ensures_attempt (runStages_keeps (At.prepared d t secrets))
    (R := AfterStages d t)) ?_
  rintro (e | x) v hv
  · have hcap := hv.captured
    refine ensures_bind (Q := fun _ u => Closing d t (mountsTodo t u) True false u)
      (ensures_update hcap.toSound.safe hcap) ?_
    rintro _ u hu
    have hclean : Ensures (Safe d t) (cleanUp env t (.error e)) (fun _ _ => True) (fun _ _ => True) u :=
      cleanUp_safe hu
    cases e with
    | deploymentProcessStateUnknown message =>
      refine ensures_bind (Q := fun _ _ => True) (hu.toSound.transitioned env .cleanupPending
        (fun _ _ _ => trivial) fun _ _ _ => trivial) ?_
      rintro x v -
      exact ensures_fail trivial
    | validation | runtime | commandFailed | deploymentCancelled
    | deploymentCancellationRollbackIncomplete | deploymentRollbackIncomplete | io | other => exact hclean
  · obtain ⟨k, hk⟩ := hv
    exact cleanUp_safe hk.closing

/-- Write-ahead coverage: at every point of every run, a resource that has been
touched and not confirmed undone is among the recovery resources of the durable
manifest; the settings that systemd copied with a cloned image are represented
there by the image. -/
theorem touched_resources_recoverable (env : Environment) (name : String) (t : MachineName)
    (d : Deployer) (cfg : MachineProvisioningConfig) (intents : List WaylandGrantIntent)
    (secrets : DeploymentSecrets) :
    ∀ w ∈ World.prepared t secrets ::
        (runDeployInternal env name t d cfg intents (World.prepared t secrets)).passed,
      ∀ r ∈ w.outstanding, r ∈ w.recoveryResources ∨
        d.isClone = true ∧ r = .nspawnConfig t ∧ .externalImage t ∈ w.recoveryResources := by
  intro w hw
  rcases List.mem_cons.mp hw with rfl | hw
  · exact (At.prepared d t secrets).underway.covered
  · exact (runDeployInternal_safe.always w hw).covered

/-- Rollback ownership: at every point of every run, each removal that rollback
has started was of a resource the ledger owned at that moment, storage and
images went only with no mount of the deployment left over them, an image only
when its settings file was the deployment's own, and the resources were visited
in the reverse of the order in which they were first recorded. -/
theorem rollback_removes_owned (env : Environment) (name : String) (t : MachineName)
    (d : Deployer) (cfg : MachineProvisioningConfig) (intents : List WaylandGrantIntent)
    (secrets : DeploymentSecrets) :
    ∀ w ∈ World.prepared t secrets ::
        (runDeployInternal env name t d cfg intents (World.prepared t secrets)).passed,
      (∀ rm ∈ w.removals, (∃ disposition, rm.disposition = some disposition ∧
          disposition.isOwned = true) ∧
        (rm.resource.isStorage = true → ∀ r ∈ rm.outstanding, r.isMount = false) ∧
        (rm.resource = .externalImage t → rm.settingsForeign = false)) ∧
      (w.removals.map (·.resource)).Sublist w.visited ∧
      w.visited.Sublist w.recorded.reverse := by
  intro w hw
  have hr : Restrained w := by
    rcases List.mem_cons.mp hw with rfl | hw
    · exact (At.prepared d t secrets).underway.safe.restrained
    · exact (runDeployInternal_safe.always w hw).restrained
  refine ⟨fun rm hrm => ?_, hr.removed, hr.visited⟩
  have hs := hr.removals rm hrm
  exact ⟨hs.owned, hs.unmounted, hs.settings t⟩

end Runs

section Example

def guest : MachineName := ⟨"guest", by decide⟩

/-- A host on which everything succeeds and where the source of a clone has
settings that systemd copies; only the first look at the target finds none. -/
def quietHost : Environment where
  cancelled _ := false
  port _ := .ok ()
  perform _ := .ok ()
  apply _ := .ok .created
  probe _ := .ok true
  inspect n := .ok (if n = 1 then none else some ⟨"/etc/systemd/nspawn/guest.nspawn", "[Exec]\n"⟩)
  mount _ := .ok "/var/lib/machines/guest"
  mountManagedRaw _ := .ok none
  copiesSettings _ := true

def plainConfig : MachineProvisioningConfig where
  network := none
  deviceBinds := []
  gpuPassthroughAll := false
  users := []
  nvidiaGpu := false

private theorem cloned_unrecorded :
    ((runDeployInternal { quietHost with probe := fun _ => .ok false } "guest" guest (.clone "base")
      plainConfig [] (World.prepared guest ⟨none, []⟩)).passed.any fun w =>
        .nspawnConfig guest ∈ w.outstanding && !(.nspawnConfig guest ∈ w.recoveryResources)) = true := by
  decide

/-- A finished clone: the copied settings are on the host, the manifest names
only the image. -/
theorem cloned_settings_not_recoverable :
    ∃ w ∈ (runDeployInternal { quietHost with probe := fun _ => .ok false } "guest" guest
        (.clone "base") plainConfig [] (World.prepared guest ⟨none, []⟩)).passed,
      .nspawnConfig guest ∈ w.outstanding ∧ .nspawnConfig guest ∉ w.recoveryResources := by
  obtain ⟨w, hw, hp⟩ := List.any_eq_true.mp cloned_unrecorded
  rw [Bool.and_eq_true, decide_eq_true_eq, Bool.not_eq_true', decide_eq_false_iff_not] at hp
  exact ⟨w, hw, hp⟩

private theorem raw_image_outstanding :
    ((runDeployInternal quietHost "guest" guest (.image true) plainConfig []
      (World.prepared guest ⟨none, []⟩)).passed.any fun w => .externalImage guest ∈ w.outstanding) = true := by
  decide

theorem touched_resources_recoverable_raw_image :
    ∃ w ∈ World.prepared guest ⟨none, []⟩ :: (runDeployInternal quietHost "guest" guest (.image true)
        plainConfig [] (World.prepared guest ⟨none, []⟩)).passed,
      .externalImage guest ∈ w.outstanding ∧ (.externalImage guest ∈ w.recoveryResources ∨
        (Deployer.image true).isClone = true ∧ .externalImage guest = DeploymentResource.nspawnConfig guest ∧
          .externalImage guest ∈ w.recoveryResources) := by
  obtain ⟨w, hw, hr⟩ := List.any_eq_true.mp raw_image_outstanding
  have hmem := of_decide_eq_true hr
  exact ⟨w, List.mem_cons_of_mem _ hw, hmem, touched_resources_recoverable quietHost "guest" guest
    (.image true) plainConfig [] ⟨none, []⟩ w (List.mem_cons_of_mem _ hw) _ hmem⟩

/-- The deployment of a raw image is cancelled at the end. -/
def cancelledHost : Environment := { quietHost with cancelled := fun n => 20 < n }

private theorem cancelled_image_removed :
    ((runDeployInternal cancelledHost "guest" guest (.image true) plainConfig []
      (World.prepared guest ⟨none, []⟩)).passed.any fun w => w.removals ≠ []) = true := by
  decide

theorem rollback_removes_owned_cancelled :
    ∃ w ∈ World.prepared guest ⟨none, []⟩ :: (runDeployInternal cancelledHost "guest" guest (.image true)
        plainConfig [] (World.prepared guest ⟨none, []⟩)).passed,
      w.removals ≠ [] ∧ (w.removals.map (·.resource)).Sublist w.visited ∧
        w.visited.Sublist w.recorded.reverse := by
  obtain ⟨w, hw, hr⟩ := List.any_eq_true.mp cancelled_image_removed
  exact ⟨w, List.mem_cons_of_mem _ hw, of_decide_eq_true hr, (rollback_removes_owned cancelledHost "guest"
    guest (.image true) plainConfig [] ⟨none, []⟩ w (List.mem_cons_of_mem _ hw)).2⟩

/-- A raw image whose deployment is cancelled at the end is rolled back in reverse. -/
example : (runDeployInternal cancelledHost "guest" guest (.image true) plainConfig []
      (World.prepared guest ⟨none, []⟩)).state.removals.map (·.resource) =
    [.nspawnConfig guest, .externalImage guest] := by decide

end Example

end Lasper.Provisioning
