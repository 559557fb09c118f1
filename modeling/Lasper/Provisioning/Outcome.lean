import Lasper.Provisioning.Executor
import Lasper.Provisioning.Grounding
import Lasper.Provisioning.Recovery

/-! A deployment that ends with a known outcome is clean: the unmounting and the
rollback went through without an error, so nothing in the ledger is owned any
more, nothing is of unknown outcome, and the manifest is gone. -/

namespace Lasper.Provisioning

open Lib Traced

/-- Nothing is left to be cleaned up or looked into. -/
structure Resolved (w : World) : Prop where
  unstored : w.stored = none
  unowned : ∀ r, w.report.ledger.owns r = false
  known : w.report.outcomeUnknownResources = []

section Steps

variable {α : Type} {w : World} {E : NspawnError → World → Prop} (env : Environment)

/-- Programs that leave the report alone. -/
theorem ensures_sameReport {p : Engine α} (h : ∀ P : ApplyReport → Prop, Preserves (OnReport P) p) :
    Ensures (fun _ => True) p (fun _ u => u.report = w.report) (fun _ u => u.report = w.report) w :=
  (h (· = w.report) w rfl).weaken (fun _ _ => trivial) (fun _ _ hu => hu) fun _ _ hu => hu

theorem attempt_sameReport {p : Engine α} (h : ∀ P : ApplyReport → Prop, Preserves (OnReport P) p) :
    Ensures (fun _ => True) (attempt p) (fun _ u => u.report = w.report) E w :=
  ensures_attempt (ensures_sameReport h)

theorem removeResource_neutral {P : ApplyReport → Prop} (resource : DeploymentResource) :
    Preserves (OnReport P) (removeResource env resource) :=
  preserves_bind (preserves_update fun _ hw => hw) fun _ => preserves_bind (askResult_neutral _) fun _ =>
    preserves_update fun _ hw => hw

theorem removeUnlessBlocked_neutral {P : ApplyReport → Prop} (resource : DeploymentResource)
    (applied : AppliedResource) : Preserves (OnReport P) (removeUnlessBlocked env resource applied) := by
  refine preserves_bind preserves_read fun blockers => ?_
  split
  · exact removeResource_neutral env resource
  · exact preserves_fail

theorem rollbackResource_neutral {P : ApplyReport → Prop} (resource : DeploymentResource) :
    Preserves (OnReport P) (rollbackResource env resource) := by
  unfold rollbackResource
  split
  · exact removeUnlessBlocked_neutral env _ _
  · exact removeUnlessBlocked_neutral env _ _
  · exact removeResource_neutral env _

end Steps

section Rollback

variable {t : MachineName} {w : World} {report report' report'' : ApplyReport} {rest : List DeploymentResource}
  (env : Environment)

/-- The resources have been removed, and with each what goes with it. -/
structure Cleared (rest : List DeploymentResource) (report report' : ApplyReport) : Prop where
  target : report'.target = report.target
  owned : ∀ r, report'.ledger.owns r = true → report.ledger.owns r = true ∧
    ∀ x ∈ rest, r ∉ goneWith report.target x

theorem Cleared.nil (report : ApplyReport) : Cleared [] report report :=
  ⟨rfl, fun _ hr => ⟨hr, fun _ hx => absurd hx List.not_mem_nil⟩⟩

theorem Cleared.cons {x : DeploymentResource} (hd : Drops (goneWith report.target x) report report')
    (h : Cleared rest report' report'') : Cleared (x :: rest) report report'' := by
  refine ⟨h.target.trans hd.target, fun r hr => ?_⟩
  obtain ⟨ho, hrest⟩ := h.owned r hr
  obtain ⟨d, hdisp, hown⟩ := ResourceLedger.owns_iff.mp ho
  have hgone : r ∉ goneWith report.target x :=
    ((hd.mem r).mp (ResourceLedger.mem_of_disposition hdisp)).2
  rw [hd.disposition r hgone] at hdisp
  refine ⟨ResourceLedger.owns_iff.mpr ⟨d, hdisp, hown⟩, fun y hy => ?_⟩
  rcases List.mem_cons.mp hy with rfl | hy
  · exact hgone
  · rw [← hd.target]
    exact hrest y hy

/-- A loop without errors has removed everything it was given. -/
theorem rollbackLoop_clears (rest : List DeploymentResource) : ∀ (errors : List String) (reload : Bool) (w : World),
    Ensures (fun _ => True) (rollbackLoop env rest errors reload)
      (fun result u => result.1 = [] → errors = [] ∧ Cleared rest w.report u.report) (fun _ _ => False) w := by
  induction rest with
  | nil => exact fun errors reload w => ensures_pure fun he => ⟨he, Cleared.nil w.report⟩
  | cons x rest ih =>
    intro errors reload w
    have hnever : ∀ {message : String} {P : Prop}, errors ++ [message] = [] → P := by
      intro message P he
      simp at he
    refine ensures_bind (Q := fun _ u => u.report = w.report) (ensures_update trivial rfl) fun _ u hu => ?_
    refine ensures_bind (attempt_sameReport fun _ => transition_neutral env _) fun applied v hv => ?_
    cases applied with
    | error error =>
      exact ensures_bind (Q := fun _ _ => True) (ensures_update trivial trivial) fun _ _ _ =>
        ensures_pure fun he => hnever he
    | ok u' =>
      refine ensures_bind (attempt_sameReport fun _ => rollbackResource_neutral env x) fun removed v' hv' => ?_
      have hsame : v'.report = w.report := hv'.trans (hv.trans hu)
      cases removed with
      | error error =>
        refine ensures_bind (Q := fun _ _ => True) (ensures_update trivial trivial) fun _ y _ => ?_
        exact (ih _ _ y).post fun result z hz he => hnever (hz he).1
      | ok u' =>
        refine ensures_bind (Q := fun _ y => y.report = forgetResource x w.report)
          (ensures_update trivial (congrArg (forgetResource x) hsame)) fun _ y hy => ?_
        refine ensures_bind (attempt_sameReport fun _ => transition_neutral env _) fun committed z hz => ?_
        cases committed with
        | error error =>
          exact ensures_bind (Q := fun _ _ => True) (ensures_update trivial trivial) fun _ _ _ =>
            ensures_pure fun he => hnever he
        | ok u' =>
          refine (ih _ _ z).post fun result a ha he => ?_
          obtain ⟨herrors, hcleared⟩ := ha he
          rw [hz, hy] at hcleared
          exact ⟨herrors, Cleared.cons (drops_forgetResource w.report x) hcleared⟩

theorem mem_goneWith_self (t : MachineName) (r : DeploymentResource) : r ∈ goneWith t r := by
  cases r <;> simp [goneWith]

/-- What stood on a tree is gone with it. -/
theorem Grounded.cleared (h : Grounded t report) (hc : Cleared report.typedOwnedInReverse report report') :
    ∀ r, report'.ledger.owns r = false := by
  intro r
  by_contra hne
  obtain ⟨ho, hgone⟩ := hc.owned r (Bool.eq_true_of_not_eq_false hne)
  rw [h.target] at hgone
  by_cases hr : ApplyReport.isRemovable r = true
  · exact hgone r (mem_typedOwnedInReverse.mpr ⟨ho, hr⟩) (mem_goneWith_self t r)
  · obtain ⟨hdep, hfound⟩ := h.ground r ho (Bool.eq_false_of_not_eq_true hr)
    rcases hfound with htree | htree
    · refine hgone _ (mem_typedOwnedInReverse.mpr ⟨htree, rfl⟩) ?_
      exact List.mem_append_right _ hdep
    · refine hgone _ (mem_typedOwnedInReverse.mpr ⟨htree, rfl⟩) ?_
      exact List.mem_append_right _ (List.mem_append_left _ hdep)

theorem rollbackApplyReport_clears :
    Ensures (fun _ => True) (rollbackApplyReport env)
      (fun errors u => errors = [] → Grounded t w.report → ∀ r, u.report.ledger.owns r = false)
      (fun _ _ => False) w := by
  refine ensures_bind (Q := fun resources u => resources = w.report.typedOwnedInReverse ∧ u = w)
    (ensures_read ⟨rfl, rfl⟩) ?_
  rintro resources u ⟨rfl, rfl⟩
  refine ensures_bind (rollbackLoop_clears env _ [] false u) ?_
  rintro ⟨errors, reload⟩ v hv
  have hclean : errors = [] → Grounded t u.report → ∀ r, v.report.ledger.owns r = false :=
    fun he hg => hg.cleared (hv he).2
  dsimp only
  split
  · refine ensures_bind (attempt_sameReport fun _ => askResult_neutral _) fun reloaded x hx => ?_
    cases reloaded with
    | ok u' => exact ensures_pure fun he hg => hx ▸ hclean he hg
    | error error =>
      refine ensures_pure fun he => ?_
      simp at he
  · exact ensures_pure hclean

end Rollback

section Stopping

variable {t : MachineName} {w : World} (env : Environment)

/-- The outcome of a deployment that stopped is unknown, or it is clean. -/
abbrev Settles (error : NspawnError) (w : World) : Prop := processOutcomeUnknown error = true ∨ Resolved w

theorem incomplete_unknown (error : NspawnError) (detail reason : String) :
    processOutcomeUnknown (incomplete error detail reason) = true := by
  unfold incomplete
  split <;> rfl

theorem finish_unstored {session session' : DeploymentStateSession} {port : Except DeploymentStateError Unit}
    (h : session.finish port = .ok session') : session'.stored = none := by
  unfold DeploymentStateSession.finish at h
  cases port with
  | ok a =>
    cases h
    rfl
  | error error => cases h

theorem finishManifest_removes :
    Ensures (fun _ => True) (finishManifest env) (fun _ u => u.stored = none ∧ u.report = w.report)
      (fun _ _ => True) w := by
  refine ensures_bind (Q := fun session u => session = w.session ∧ u = w) (ensures_read ⟨rfl, rfl⟩) ?_
  rintro session u ⟨rfl, rfl⟩
  cases hs : u.session with
  | none =>
    refine ensures_pure ⟨?_, rfl⟩
    unfold World.stored
    rw [hs]
    rfl
  | some session =>
    refine ensures_bind (Q := fun _ v => v = { u with calls := u.calls + 1 }) (ask_spec trivial rfl) ?_
    rintro port v rfl
    cases hp : session.finish port with
    | error error => exact ensures_fail trivial
    | ok session' =>
      refine ensures_update trivial ⟨?_, rfl⟩
      exact finish_unstored hp

theorem finishRolledBack_settles {error : NspawnError} (hw : ∀ r, w.report.ledger.owns r = false)
    (hk : w.report.outcomeUnknownResources = []) :
    Ensures (fun _ => True) (finishRolledBack env error) (fun _ _ => False) Settles w := by
  refine ensures_bind (ensures_attempt (R := fun result u => result = .ok () → u.stored = none ∧ u.report = w.report)
    ((finishManifest_removes env).mono (fun _ _ hu _ => hu) ?_)) fun result u hu => ?_
  · intro e u _ he
    cases he
  · cases result with
    | error manifestError => exact ensures_fail (.inl (incomplete_unknown _ _ _))
    | ok a =>
      obtain ⟨hstored, hreport⟩ := hu rfl
      refine ensures_fail (.inr ⟨hstored, ?_, ?_⟩)
      · rw [hreport]
        exact hw
      · rw [hreport]
        exact hk

theorem keepForCleanup_settles {error : NspawnError} (errors : List String) :
    Ensures (fun _ => True) (keepForCleanup env error errors) (fun _ _ => False) Settles w :=
  ensures_bind (attempt_sameReport fun _ => transition_neutral env _) fun _ _ _ =>
    ensures_fail (.inl (incomplete_unknown _ _ _))

theorem attemptRollback_clears (durableCleanupFailed : Bool) :
    Ensures (fun _ => True) (attemptRollback env durableCleanupFailed)
      (fun errors u => errors = [] → Grounded t w.report → ∀ r, u.report.ledger.owns r = false)
      Settles w := by
  unfold attemptRollback
  split
  · refine ensures_pure fun he => ?_
    cases he
  · exact (rollbackApplyReport_clears env).mono (fun _ _ hu => hu) fun _ _ hu => hu.elim

/-- A deployment that stopped after cleaning up without errors is rolled back,
or says that it is not. -/
theorem stopDeployment_settles (error : NspawnError) {cleanupErrors : List String} (durableCleanupFailed : Bool)
    (hw : cleanupErrors = [] → Grounded t w.report) :
    Ensures (fun _ => True) (stopDeployment env error cleanupErrors durableCleanupFailed) (fun _ _ => False)
      Settles w := by
  refine ensures_bind (attemptRollback_clears (t := t) env durableCleanupFailed) fun rolledBack u hu => ?_
  refine ensures_bind (Q := fun unknown v => unknown = u.report.outcomeUnknownResources ∧ v = u)
    (ensures_read ⟨rfl, rfl⟩) ?_
  rintro unknown v ⟨rfl, rfl⟩
  dsimp only
  split
  · rename_i hnone
    obtain ⟨hboth, hunknown⟩ := List.append_eq_nil_iff.mp hnone
    obtain ⟨hcleanup, hrolled⟩ := List.append_eq_nil_iff.mp hboth
    exact finishRolledBack_settles env (hu hrolled (hw hcleanup)) (List.map_eq_nil_iff.mp hunknown)
  · exact keepForCleanup_settles env _

/-- An unmount without errors takes the mount out of the ledger. -/
theorem unmount_grounded {r : DeploymentResource} (hr : r ∈ rootfsDependents t) (state unmounting attempting : String) :
    Ensures (fun _ => True) (unmount env r state unmounting attempting)
      (fun result u => result.1 = [] → result.2 = false ∧ (Grounded t w.report → Grounded t u.report))
      Settles w := by
  have hkept : ∀ {v : World} {message : String} {flag : Bool}, Ensures (fun _ => True)
      (do keepMount r message; return ([message], flag))
      (fun (result : List String × Bool) u => result.1 = [] →
        result.2 = false ∧ (Grounded t w.report → Grounded t u.report)) Settles v := by
    intro v message flag
    refine ensures_bind (Q := fun _ _ => True) (ensures_update trivial trivial) fun _ _ _ => ensures_pure fun he => ?_
    cases he
  refine ensures_bind (attempt_sameReport fun _ => transition_neutral env _) fun applied u hu => ?_
  cases applied with
  | error error => exact hkept
  | ok a =>
    refine ensures_bind (attempt_sameReport fun _ => askResult_neutral _) fun performed v hv => ?_
    cases performed with
    | error error => exact hkept
    | ok a =>
      refine ensures_bind (Q := fun _ x => x.report = w.report) (ensures_update trivial (hv.trans hu)) fun _ x hx => ?_
      refine ensures_bind (Q := fun _ y => y.report = w.report.removeTyped r)
        (ensures_update trivial (congrArg (·.removeTyped r) hx)) fun _ y hy => ?_
      refine ensures_bind (attempt_sameReport fun _ => transition_neutral env _) fun committed z hz => ?_
      cases committed with
      | error error => exact hkept
      | ok a =>
        refine ensures_pure fun _ => ⟨rfl, fun hg => ?_⟩
        rw [hz, hy]
        exact hg.removeDependent hr

theorem unmountRaw_grounded :
    Ensures (fun _ => True) (unmountRaw env t)
      (fun result u => result.1 = [] → result.2 = false ∧ (Grounded t w.report → Grounded t u.report)) Settles w := by
  refine ensures_bind (Q := fun _ u => u = w) (ensures_read rfl) ?_
  rintro raw u rfl
  split
  · exact unmount_grounded env (by simp [rootfsDependents]) _ _ _
  · exact ensures_pure fun _ => ⟨rfl, id⟩

theorem unmountStorage_grounded (durableCleanupFailed : Bool) :
    Ensures (fun _ => True) (unmountStorage env t durableCleanupFailed)
      (fun result u => result.1 = [] → Grounded t w.report → Grounded t u.report) Settles w := by
  refine ensures_bind (Q := fun _ u => u = w) (ensures_read rfl) ?_
  rintro attempted u rfl
  split
  · split
    · refine ensures_bind (Q := fun _ _ => True) (ensures_update trivial trivial) fun _ _ _ => ensures_pure fun he => ?_
      cases he
    · have hunmount : Ensures (fun _ => True)
          (unmount env (.storageMount t) "storage" "storage unmount" "storage cleanup") _ Settles u :=
        unmount_grounded (t := t) env (by simp [rootfsDependents]) _ _ _
      exact hunmount.post fun result v hv he => (hv he).2
  · exact ensures_pure fun _ => id

theorem cleanUp_settles (result : Except NspawnError Unit) (hw : OnReport (Grounded t) w) :
    Ensures (fun _ => True) (cleanUp env t result) (fun _ _ => True) Settles w := by
  refine ensures_bind (unmountRaw_grounded env) ?_
  rintro ⟨rawErrors, rawFailed⟩ u hu
  refine ensures_bind (unmountStorage_grounded env rawFailed) ?_
  rintro ⟨storageErrors, durableCleanupFailed⟩ v hv
  have hclean : rawErrors ++ storageErrors = [] → Grounded t v.report := by
    intro he
    obtain ⟨hraw, hstorage⟩ := List.append_eq_nil_iff.mp he
    exact hv hstorage ((hu hraw).2 hw)
  have hstop : ∀ (error : NspawnError) (x : World), x.report = v.report → Ensures (fun _ => True)
      (stopDeployment env error (rawErrors ++ storageErrors) durableCleanupFailed) (fun _ _ => True) Settles x := by
    intro error x hx
    exact (stopDeployment_settles env error durableCleanupFailed (hx ▸ hclean)).post fun _ _ _ => trivial
  dsimp only
  cases result with
  | error error => exact hstop error v rfl
  | ok a =>
    refine ensures_bind (Q := fun _ x => x.report = v.report) (ask_spec trivial rfl) fun cancelled x hx => ?_
    split
    · exact hstop _ x hx
    · split
      · exact hstop _ x hx
      · exact ensures_pure trivial

theorem runDeployInternal_settles (name : String) (deployer : Deployer) (cfg : MachineProvisioningConfig)
    (intents : List WaylandGrantIntent) (hw : OnReport (Grounded t) w) :
    Ensures (fun _ => True) (runDeployInternal env name t deployer cfg intents) (fun _ _ => True) Settles w := by
  refine ensures_bind (Q := fun _ => OnReport (Grounded t)) (ensures_attempt
    ((runStages_roots env name deployer cfg intents hw).weaken (fun _ _ => trivial) (fun _ _ hu => hu.toGrounded)
      fun _ _ hu => hu)) fun result u hu => ?_
  cases result with
  | ok a => exact cleanUp_settles env _ hu
  | error error =>
    have hcapture : Grounded t (u.intended.foldl captureResource u.report) :=
      hu.congr (captures_foldl _ _).target fun r => owns_captured _ _ r
    refine ensures_bind (Q := fun _ => OnReport (Grounded t)) (ensures_update trivial hcapture) fun _ v hv => ?_
    split
    · exact ensures_bind (attempt_sameReport fun _ => transition_neutral env _) fun _ _ _ => ensures_fail (.inl rfl)
    · exact cleanUp_settles env _ hv

end Stopping

section Runs

variable {t : MachineName} {w : World} (env : Environment)
  (spec : MachineProvisioningConfig → Except NspawnError Unit)

theorem nspawnConfigSpec_ok {name : String} {cfg : MachineProvisioningConfig} {machine : MachineName}
    (h : nspawnConfigSpec spec name cfg = .ok machine) : machine.text = name := by
  unfold nspawnConfigSpec parseMachineName MachineName.new at h
  split_ifs at h with hvalid
  · cases hs : spec cfg with
    | error error =>
      rw [hs] at h
      cases h
    | ok a =>
      rw [hs] at h
      cases h
      rfl
  · cases h

theorem sessionStep_stored {E : DeploymentStateError → World → Prop}
    {step : DeploymentStateSession → Except DeploymentStateError Unit →
      Except DeploymentStateError DeploymentStateSession} (stored : Option DeploymentCrashManifest → Prop)
    (hnone : stored none) (hstep : ∀ session port session', step session port = .ok session' → stored session'.stored)
    (hE : ∀ e, E e { w with calls := w.calls + 1 }) :
    Ensures (fun _ => True) (sessionStep env step) (fun _ u => u.report = w.report ∧ stored u.stored) E w := by
  refine ensures_bind (Q := fun session u => session = w.session ∧ u = w) (ensures_read ⟨rfl, rfl⟩) ?_
  rintro session u ⟨rfl, rfl⟩
  cases hs : u.session with
  | none =>
    refine ensures_pure ⟨rfl, ?_⟩
    unfold World.stored
    rw [hs]
    exact hnone
  | some session =>
    refine ensures_bind (Q := fun _ v => v = u) (ensures_read rfl) ?_
    rintro port v rfl
    refine ensures_bind (Q := fun _ x => x = { v with calls := v.calls + 1 }) (ensures_update trivial rfl) ?_
    rintro _ x rfl
    refine ensures_bind (Q := fun session' x => x = { v with calls := v.calls + 1 } ∧ stored session'.stored)
      (ensures_ofExcept (fun session' hok => ⟨rfl, hstep _ _ _ hok⟩) fun e _ => hE e) ?_
    rintro session' x ⟨rfl, hst⟩
    exact ensures_update trivial ⟨rfl, hst⟩

theorem resolved_fresh (target : MachineName) (secrets : DeploymentSecrets) (n : ℕ) :
    Resolved { World.fresh target secrets with calls := n } where
  unstored := rfl
  unowned _ := rfl
  known := rfl

theorem mapDeploymentError_settles {error : NspawnError} (h : Settles error w)
    (hk : (mapDeploymentError error).kind ≠ .reconciliationRequired) : Resolved w := by
  rcases h with hunknown | hresolved
  · unfold mapDeploymentError at hk
    rw [if_pos hunknown] at hk
    exact absurd rfl hk
  · exact hresolved

theorem run_resolves (artifactSupplied : Bool) (plan : DeploymentPlan) (secrets : DeploymentSecrets) :
    Ensures (fun _ => True) (run env spec artifactSupplied plan) (fun _ u => u.stored = none)
      (fun error u => error.kind ≠ .reconciliationRequired → Resolved u) (World.fresh plan.target secrets) := by
  have hfresh : Resolved (World.fresh plan.target secrets) := resolved_fresh _ _ 0
  refine ensures_bind (Q := fun _ u => plan.target.text = plan.name ∧ u = World.fresh plan.target secrets)
    (ensures_onlyIf (fun _ => ensures_fail fun _ => hfresh) fun hname => ⟨by simpa using hname, rfl⟩) ?_
  rintro _ u ⟨hname, rfl⟩
  refine ensures_bind (Q := fun machine u => nspawnConfigSpec spec plan.name plan.config = .ok machine ∧
    u = World.fresh plan.target secrets)
    (ensures_rephrase (ensures_ofExcept (fun machine hok => ⟨hok, rfl⟩) fun _ _ _ => hfresh)) ?_
  rintro machine u ⟨hspec, rfl⟩
  have hmachine : machine = plan.target := by
    have htext := (nspawnConfigSpec_ok spec hspec).trans hname.symm
    cases machine
    cases htarget : plan.target
    rw [htarget] at htext
    cases htext
    rfl
  refine ensures_bind (Q := fun _ u => u = World.fresh plan.target secrets)
    (ensures_ofExcept (fun _ _ => rfl) fun _ _ _ => hfresh) ?_
  rintro deployer u rfl
  refine ensures_bind (ensures_rephrase (sessionStep_stored env (fun _ => True) trivial
    (fun _ _ _ _ => trivial) fun _ _ => resolved_fresh _ _ _)) ?_
  rintro _ u ⟨hreport, -⟩
  have hground : Grounded plan.target u.report := by
    rw [hreport]
    exact Grounded.new plan.target
  refine ensures_bind (ensures_rephrase (Q := fun _ _ => True) ?_) fun _ v _ => ?_
  · unfold runDeployment
    rw [hspec, ofExcept_ok_bind, hmachine]
    exact (runDeployInternal_settles env plan.name deployer plan.config plan.wayland hground).mono
      (fun _ _ hu => hu) fun _ _ hu hk => mapDeploymentError_settles hu hk
  · have hfinish : Ensures (fun _ => True) (sessionStep env (·.finish)) _ _ v :=
      sessionStep_stored (E := fun _ _ => True) env (· = none) rfl
        (fun _ _ _ hok => finish_unstored hok) fun _ => trivial
    exact ensures_rephrase (hfinish.mono (fun _ _ hu => hu.2) fun _ _ _ hk => absurd rfl hk)

/-- A run on an id without a manifest that ends with a known outcome leaves no
manifest, and one that failed or was cancelled leaves nothing in the ledger that
is owned, to be cleaned up, or of unknown outcome. -/
theorem known_outcome_is_clean (artifactSupplied : Bool) (plan : DeploymentPlan) (secrets : DeploymentSecrets)
    (outcome : Outcome World Jobs.DeploymentError Unit)
    (h : outcome = run env spec artifactSupplied plan (World.fresh plan.target secrets)) :
    (outcome.result = .ok () → outcome.state.stored = none) ∧
      ∀ error, outcome.result = .error error → error.kind ≠ .reconciliationRequired →
        outcome.state.stored = none ∧ ∀ entry ∈ outcome.state.report.ledger.entries,
          entry.disposition.isOwned = false ∧ entry.disposition ≠ .cleanupPending ∧
            entry.disposition ≠ .outcomeUnknown := by
  subst h
  have hrun := run_resolves env spec artifactSupplied plan secrets
  refine ⟨fun hok => hrun.returned () hok, fun error herror hk => ?_⟩
  have hresolved := hrun.failed error herror hk
  refine ⟨hresolved.unstored, fun entry he => ?_⟩
  have hdisp := ResourceLedger.disposition_of_mem he
  have hunowned : entry.disposition.isOwned = false := by
    by_contra hne
    have howns := ResourceLedger.owns_iff.mpr ⟨_, hdisp, Bool.eq_true_of_not_eq_false hne⟩
    rw [hresolved.unowned] at howns
    cases howns
  refine ⟨hunowned, fun hpending => ?_, fun hunknown => ?_⟩
  · rw [hpending] at hunowned
    cases hunowned
  · have hmem : entry.resource ∈ (World.report _).outcomeUnknownResources :=
      List.mem_map_of_mem (List.mem_filter.mpr ⟨he, by simpa using hunknown⟩)
    rw [hresolved.known] at hmem
    cases hmem

end Runs

section Example

def guestPlan : DeploymentPlan where
  target := guest
  name := "guest"
  config := plainConfig
  source := .pull true
  wayland := []

/-- The run is cancelled after the image and its settings have been made. -/
def lateCancellation : Environment :=
  { quietHost with cancelled := fun n => 22 < n, inspect := fun _ => .ok none }

def cancelledRun : Outcome World Jobs.DeploymentError Unit :=
  run lateCancellation (fun _ => .ok ()) false guestPlan (World.fresh guest ⟨none, []⟩)

private theorem cancelledRun_cancelled : cancelledRun.result = .error ⟨.cancelled, "Deployment cancelled"⟩ := by
  decide

theorem known_outcome_is_clean_cancelled :
    cancelledRun.state.removals.map (·.resource) = [.nspawnConfig guest, .externalImage guest] ∧
      cancelledRun.state.stored = none ∧ ∀ entry ∈ cancelledRun.state.report.ledger.entries,
        entry.disposition.isOwned = false ∧ entry.disposition ≠ .cleanupPending ∧
          entry.disposition ≠ .outcomeUnknown :=
  ⟨by decide, (known_outcome_is_clean lateCancellation (fun _ => .ok ()) false guestPlan ⟨none, []⟩ cancelledRun
    rfl).2 _ cancelledRun_cancelled (by decide)⟩

end Example

end Lasper.Provisioning
