import Lasper.Provisioning.Stages

/-! Between the stages and the rollback: a stopped deployment takes over what it
was applying and unmounts. A mount that is not confirmed gone stays in the
ledger and blocks the removal of what lies under it. -/

namespace Lasper.Provisioning

open Lib Traced

/-- What holds of a deployment whose touched resources are all in the ledger. -/
structure Sound (d : Deployer) (t : MachineName) (w : World) : Prop where
  live : ∃ session, w.session = some session ∧ session.stored = some session.manifest
  target : w.report.target = t
  ours : ∀ r ∈ w.outstanding, r.target = t
  known : ∀ r ∈ w.report.ledger.resources, r.target = t
  covered : Covered d t w
  clean : ∀ r ∈ w.outstanding, Accounted d t w.report.ledger.resources r
  restrained : Restrained w
  settings : w.settingsForeign = true → w.report.externalImageBlockers ≠ []
  image : w.report.ledger.disposition (.externalImage t) ≠ some .preExisting

theorem Sound.safe {d : Deployer} {t : MachineName} {w : World} (h : Sound d t w) : Safe d t w :=
  ⟨h.covered, h.restrained⟩

/-- Before rollback: `todo` are the mounts still to be undone, `clear` says that
no cleanup has failed so far, `failed` that the durable state fell behind. -/
structure Closing (d : Deployer) (t : MachineName) (todo : List DeploymentResource) (clear : Prop)
    (failed : Bool) (w : World) : Prop extends Sound d t w where
  kept : ∀ r ∈ w.outstanding, w.report.ledger.disposition r ≠ some .preExisting
  idle : w.visited = [] ∧ w.removals = []
  storage : .storageMount t ∈ w.outstanding → w.storageMountAttempted = true
  base : ∀ r ∈ w.outstanding, r.isRootfs = true → w.report.ledger.owns (d.base t) = true
  imageFirst : ImageFirst t w.report.ledger.resources
  mounts : ∀ r ∈ w.outstanding, r.isMount = true → r ∈ todo ∨
    w.report.storageRemovalBlockers ≠ [] ∧
      (clear → w.report.ledger.disposition r = some .outcomeUnknown)
  history : failed = false → w.report.ledger.resources.Sublist w.recorded ∧
    ∀ r ∈ w.recorded, r ∈ w.report.ledger.resources ∨ r.isMount = true ∧ r ∉ todo

section Capture

variable {report : ApplyReport} {r : DeploymentResource} {rs : List DeploymentResource} {t : MachineName}

/-- What taking over one or more intended resources makes of a report. -/
structure Captures (rs : List DeploymentResource) (report report' : ApplyReport) : Prop where
  target : report'.target = report.target
  blockers : report'.externalImageBlockers = report.externalImageBlockers
  grown : ∃ new, report'.ledger.resources = report.ledger.resources ++ new ∧ ∀ r ∈ new, r ∈ rs
  all : ∀ r ∈ rs, r ∈ report'.ledger.resources
  known : ∀ r ∈ report.ledger.resources, report'.ledger.disposition r = report.ledger.disposition r
  unknown : ∀ r ∈ rs, r ∉ report.ledger.resources →
    report'.ledger.disposition r = some .outcomeUnknown
  storage : report.storageRemovalBlockers ≠ [] → report'.storageRemovalBlockers ≠ []
  raw : ∀ t, .rawConfigurationMount t ∈ rs → .rawConfigurationMount t ∉ report.ledger.resources →
    report'.storageRemovalBlockers ≠ []

theorem recordOutcomeUnknown_known (h : r ∈ report.ledger.resources) :
    report.recordOutcomeUnknownIfUnclassified r = report := by
  rw [ApplyReport.recordOutcomeUnknownIfUnclassified, if_neg]
  rw [ResourceLedger.disposition_eq_none]
  exact not_not_intro h

theorem captureResource_known (h : r ∈ report.ledger.resources) :
    captureResource report r = report := by
  have hn : report.ledger.disposition r ≠ none := by
    rw [Ne, ResourceLedger.disposition_eq_none]
    exact not_not_intro h
  unfold captureResource
  split
  · rw [if_neg hn, recordOutcomeUnknown_known h]
  · exact recordOutcomeUnknown_known h

theorem captureResource_new (h : r ∉ report.ledger.resources) :
    (captureResource report r).target = report.target ∧
      (captureResource report r).externalImageBlockers = report.externalImageBlockers ∧
      (captureResource report r).ledger = report.ledger.record r .outcomeUnknown ∧
      (report.storageRemovalBlockers ≠ [] → (captureResource report r).storageRemovalBlockers ≠ []) ∧
      (∀ t, r = .rawConfigurationMount t → (captureResource report r).storageRemovalBlockers ≠ []) := by
  have hn : report.ledger.disposition r = none := ResourceLedger.disposition_eq_none.mpr h
  unfold captureResource
  split
  · rw [if_pos hn, ApplyReport.recordOutcomeUnknownIfUnclassified,
      ApplyReport.blockStorageRemoval_ledger, if_pos hn]
    refine ⟨rfl, rfl, rfl, ?_, ?_⟩
    · intro _
      exact List.append_ne_nil_of_right_ne_nil _ (List.cons_ne_nil _ _)
    · intro t _
      exact List.append_ne_nil_of_right_ne_nil _ (List.cons_ne_nil _ _)
  · rename_i hraw
    rw [ApplyReport.recordOutcomeUnknownIfUnclassified, if_pos hn]
    exact ⟨rfl, rfl, rfl, fun hb => hb, fun t ht => absurd ht (hraw t)⟩

theorem captures_foldl (rs : List DeploymentResource) (report : ApplyReport) :
    Captures rs report (rs.foldl captureResource report) := by
  induction rs generalizing report with
  | nil =>
    have hnone : ∀ {P : DeploymentResource → Prop}, ∀ r ∈ ([] : List DeploymentResource), P r := by
      intro P r hr
      cases hr
    exact ⟨rfl, rfl, ⟨[], (List.append_nil _).symm, hnone⟩, hnone, fun _ _ => rfl, hnone, fun h => h,
      fun _ hr => absurd hr List.not_mem_nil⟩
  | cons r rs ih =>
    rw [List.foldl_cons]
    have hi := ih (captureResource report r)
    by_cases hr : r ∈ report.ledger.resources
    · rw [captureResource_known hr] at hi ⊢
      refine ⟨hi.target, hi.blockers, ?_, ?_, hi.known, ?_, hi.storage, ?_⟩
      · obtain ⟨new, hnew, hmem⟩ := hi.grown
        exact ⟨new, hnew, fun x hx => List.mem_cons_of_mem _ (hmem x hx)⟩
      · intro x hx
        rcases List.mem_cons.mp hx with rfl | hx
        · obtain ⟨new, hnew, -⟩ := hi.grown
          rw [hnew]
          exact List.mem_append_left _ hr
        · exact hi.all x hx
      · intro x hx hn
        rcases List.mem_cons.mp hx with rfl | hx
        exacts [absurd hr hn, hi.unknown x hx hn]
      · intro t hx hn
        rcases List.mem_cons.mp hx with rfl | hx
        exacts [absurd hr hn, hi.raw t hx hn]
    · obtain ⟨htar, hblk, hled, hst, hraw⟩ := captureResource_new hr
      have hres : (captureResource report r).ledger.resources = report.ledger.resources ++ [r] := by
        rw [hled, ResourceLedger.resources_record, if_neg hr]
      have hne : ∀ {x}, x ∈ report.ledger.resources → x ≠ r := by
        rintro x hx rfl
        exact hr hx
      obtain ⟨new, hnew, hmem⟩ := hi.grown
      have hself : r ∈ (captureResource report r).ledger.resources := by simp [hres]
      refine ⟨hi.target.trans htar, hi.blockers.trans hblk, ⟨r :: new, ?_, ?_⟩, ?_, ?_, ?_,
        fun h => hi.storage (hst h), ?_⟩
      · rw [hnew, hres, List.append_assoc, List.singleton_append]
      · intro x hx
        rcases List.mem_cons.mp hx with rfl | hx
        exacts [List.mem_cons_self .., List.mem_cons_of_mem _ (hmem x hx)]
      · intro x hx
        rcases List.mem_cons.mp hx with rfl | hx
        · rw [hnew]
          exact List.mem_append_left _ hself
        · exact hi.all x hx
      · intro x hx
        rw [hi.known x (by rw [hres]; exact List.mem_append_left _ hx), hled,
          ResourceLedger.disposition_record_ne (hne hx)]
      · intro x hx hn
        by_cases hxr : x = r
        · subst hxr
          rw [hi.known x hself, hled, ResourceLedger.disposition_record_self]
        · have hx' : x ∈ rs := (List.mem_cons.mp hx).resolve_left hxr
          refine hi.unknown x hx' ?_
          rw [hres, List.mem_append, List.mem_singleton]
          rintro (h | h)
          exacts [hn h, hxr h]
      · intro t hx hn
        by_cases hxr : r = .rawConfigurationMount t
        · exact hi.storage (hraw t hxr)
        · have hx' : .rawConfigurationMount t ∈ rs := (List.mem_cons.mp hx).resolve_left (Ne.symm hxr)
          refine hi.raw t hx' ?_
          rw [hres, List.mem_append, List.mem_singleton]
          rintro (h | h)
          exacts [hn h, hxr h.symm]

/-- Taking over the intended resources in their order keeps the image first. -/
theorem captures_imageFirst (rs : List DeploymentResource) (report : ApplyReport)
    (h : ImageFirst t report.ledger.resources) (hrs : ImageFirst t rs)
    (hdue : .externalImage t ∈ rs → .nspawnConfig t ∈ report.ledger.resources →
      .externalImage t ∈ report.ledger.resources) :
    ImageFirst t (rs.foldl captureResource report).ledger.resources := by
  induction rs generalizing report with
  | nil => exact h
  | cons r rs ih =>
    rw [List.foldl_cons]
    have hrs' : ImageFirst t rs := fun hs => hrs (hs.cons r)
    by_cases hr : r ∈ report.ledger.resources
    · rw [captureResource_known hr]
      exact ih report h hrs' fun hx => hdue (List.mem_cons_of_mem _ hx)
    · have hres : (captureResource report r).ledger.resources = report.ledger.resources ++ [r] := by
        rw [(captureResource_new hr).2.2.1, ResourceLedger.resources_record, if_neg hr]
      refine ih _ ?_ hrs' ?_
      · rw [hres]
        refine h.snoc ?_
        rintro rfl hn
        exact hr (hdue (List.mem_cons_self ..) hn)
      · rw [hres, List.mem_append, List.mem_append, List.mem_singleton]
        rintro hx (hn | hn)
        · exact Or.inl (hdue (List.mem_cons_of_mem _ hx) hn)
        · refine absurd ?_ hrs
          rw [← hn]
          exact List.cons_sublist_cons.mpr (List.singleton_sublist.mpr hx)

end Capture

section Closing

variable {d : Deployer} {t : MachineName} {todo : List DeploymentResource} {clear : Prop}
variable {failed : Bool} {w : World} {r : DeploymentResource} {E : NspawnError → World → Prop}

/-- The mounts that cleanup may have to undo. -/
def mountsTodo (t : MachineName) (w : World) : List DeploymentResource :=
  (if w.rawMountTarget.isSome then [.rawConfigurationMount t] else []) ++ [.storageMount t]

theorem eq_of_isMount (hm : r.isMount = true) (ht : r.target = t) :
    r = .rawConfigurationMount t ∨ r = .storageMount t := by
  subst ht
  cases r <;> simp [DeploymentResource.isMount] at hm ⊢ <;> rfl

/-- A deployment whose stages have stopped, after its report has taken over what
was being applied. -/
theorem Underway.closing {report : ApplyReport} (h : Underway d t w)
    (hc : Captures w.intended w.report report) (hf : ImageFirst t report.ledger.resources) :
    Closing d t (mountsTodo t w) True false (w.setReport report) := by
  obtain ⟨new, hnew, hmem⟩ := hc.grown
  have hall : ∀ x ∈ w.report.ledger.resources ++ w.intended, x ∈ report.ledger.resources := by
    intro x hx
    rcases List.mem_append.mp hx with hx | hx
    · rw [hnew]; exact List.mem_append_left _ hx
    · exact hc.all x hx
  have hknown : ∀ x ∈ report.ledger.resources, x ∈ w.report.ledger.resources ++ w.intended := by
    intro x hx
    rw [hnew] at hx
    rcases List.mem_append.mp hx with hx | hx
    exacts [List.mem_append_left _ hx, List.mem_append_right _ (hmem x hx)]
  have hdis : ∀ x, report.ledger.disposition x = some .preExisting →
      w.report.ledger.disposition x = some .preExisting := by
    intro x hx
    have hxl := hknown x (ResourceLedger.mem_of_disposition hx)
    by_cases hm : x ∈ w.report.ledger.resources
    · rw [← hc.known x hm]; exact hx
    · have hi : x ∈ w.intended := (List.mem_append.mp hxl).resolve_left hm
      rw [hc.unknown x hi hm] at hx
      cases hx
  have hrec : (w.setReport report).recorded = report.ledger.resources := by
    show w.recorded ++ report.ledger.resources.filter (· ∉ w.recorded) = report.ledger.resources
    have hd : (w.report.ledger.resources ++ new).Nodup := by rw [← hnew]; exact report.ledger.distinct
    rw [h.history, hnew, List.filter_append, filter_notMem_self, List.nil_append]
    congr 1
    rw [List.filter_eq_self]
    intro x hx
    rw [decide_eq_true_eq]
    intro hx'
    exact (List.nodup_append.mp hd).2.2 x hx' x hx rfl
  exact
    { live := h.live
      target := hc.target.trans h.target
      ours := h.ours
      known := fun x hx => h.known x (hknown x hx)
      covered := h.covered
      clean := fun x hx => (h.pending x hx).mono hall
      restrained :=
        { removals := h.safe.restrained.removals
          visited := by
            show w.visited.Sublist _
            rw [h.idle.1]
            exact List.nil_sublist _
          removed := h.safe.restrained.removed }
      settings := by
        show _ → report.externalImageBlockers ≠ []
        rw [hc.blockers]
        exact h.settings
      image := fun hx => h.image (hdis _ hx)
      kept := fun x hx hp => h.kept x hx (hdis x hp)
      idle := h.idle
      storage := h.storage
      base := fun x hx hroot => by
        obtain ⟨y, hy, ho⟩ := ResourceLedger.owns_iff.mp (h.base x hx hroot)
        refine ResourceLedger.owns_iff.mpr ⟨y, ?_, ho⟩
        show report.ledger.disposition _ = _
        rw [hc.known _ (ResourceLedger.mem_of_disposition hy), hy]
      imageFirst := hf
      mounts := fun x hx hm => by
        rcases eq_of_isMount hm (h.ours x hx) with rfl | rfl
        · rcases h.raw hx with hraw | ⟨hi, hn⟩
          · exact Or.inl (by simp [mountsTodo, hraw])
          · exact Or.inr ⟨hc.raw t hi hn, fun _ => hc.unknown _ hi hn⟩
        · exact Or.inl (by simp [mountsTodo])
      history := fun _ => by
        rw [hrec]
        exact ⟨List.Sublist.refl _, fun x hx => Or.inl hx⟩ }

theorem Underway.captured (h : Underway d t w) :
    Closing d t (mountsTodo t w) True false
      (w.setReport (w.intended.foldl captureResource w.report)) :=
  h.closing (captures_foldl w.intended w.report)
    (captures_imageFirst w.intended w.report h.imageFirst h.intendedFirst h.imageDue)

/-- A deployment whose stages all returned has nothing left to take over. -/
theorem At.closing {k : ℕ} (h : At d t k [] [] w) : Closing d t (mountsTodo t w) True false w := by
  have hc : Captures w.intended w.report w.report := by
    rw [h.intended]
    exact captures_foldl [] w.report
  have hsame : w.setReport w.report = w := by
    have hk := World.setReport_known h.underway.history rfl
    show { w with report := w.report, recorded := (w.setReport w.report).recorded } = w
    rw [hk]
  have hcl := h.underway.closing hc h.underway.imageFirst
  rw [hsame] at hcl
  exact hcl

theorem Sound.replaceSession {session : DeploymentStateSession} (h : Sound d t w) (n : ℕ)
    (hst : session.stored = some session.manifest)
    (hl : session.manifest.committedLedger = w.report.ledger) :
    Sound d t { w with calls := n, session := some session } :=
  { h with
    live := ⟨session, rfl, hst⟩
    covered := fun r hr => (h.clean r hr).mono fun x hx =>
      (World.mem_recoveryResources rfl hst).mpr (Or.inl (by rw [hl]; exact hx))
    restrained := ⟨h.restrained.removals, h.restrained.visited, h.restrained.removed⟩ }

theorem Sound.calls (h : Sound d t w) (n : ℕ) : Sound d t { w with calls := n } :=
  { h with restrained := ⟨h.restrained.removals, h.restrained.visited, h.restrained.removed⟩ }

/-- With everything in the ledger, any new manifest covers what is outstanding. -/
theorem Sound.transitioned {Q : Except NspawnError Unit → World → Prop} (h : Sound d t w)
    (env : Environment) (state : DeploymentManifestState)
    (hok : ∀ n session, Sound d t { w with calls := n, session := some session } →
      Q (.ok ()) { w with calls := n, session := some session })
    (herr : ∀ e n, Sound d t { w with calls := n } → Q (.error e) { w with calls := n }) :
    Ensures (Safe d t) (attempt (transition env state)) Q E w := by
  obtain ⟨session, hs, -⟩ := h.live
  refine ensures_attempt (transition_spec hs (h.calls _).safe (fun e => herr e _ (h.calls _)) ?_)
  intro session' hst _ hl
  have hsound := h.replaceSession (w.calls + 1) hst hl
  exact ⟨hsound.safe, hok _ _ hsound⟩

theorem Closing.ofSound {w' : World} (h : Closing d t todo clear failed w) (hs : Sound d t w')
    (hr : w'.report = w.report) (ho : w'.outstanding = w.outstanding)
    (hh : w'.recorded = w.recorded) (hv : w'.visited = w.visited ∧ w'.removals = w.removals)
    (ha : w'.storageMountAttempted = w.storageMountAttempted) :
    Closing d t todo clear failed w' where
  toSound := hs
  kept := by rw [ho, hr]; exact h.kept
  idle := by rw [hv.1, hv.2]; exact h.idle
  storage := by rw [ho, ha]; exact h.storage
  base := by rw [ho, hr]; exact h.base
  imageFirst := by rw [hr]; exact h.imageFirst
  mounts := by rw [ho, hr]; exact h.mounts
  history := by rw [hr, hh]; exact h.history

theorem Closing.persisted (h : Closing d t todo clear failed w) (env : Environment)
    (state : DeploymentManifestState) :
    Ensures (Safe d t) (attempt (transition env state)) (fun _ => Closing d t todo clear failed) E w :=
  h.toSound.transitioned env state (fun _ _ hs => h.ofSound hs rfl rfl rfl ⟨rfl, rfl⟩ rfl)
    fun _ _ hs => h.ofSound hs rfl rfl rfl ⟨rfl, rfl⟩ rfl

theorem Closing.answered {α : Type} (h : Closing d t todo clear failed w)
    (answer : ℕ → Except NspawnError α) :
    Ensures (Safe d t) (attempt (askResult answer)) (fun _ => Closing d t todo clear failed) E w := by
  have hc : Closing d t todo clear failed { w with calls := w.calls + 1 } :=
    h.ofSound (h.toSound.calls _) rfl rfl rfl ⟨rfl, rfl⟩ rfl
  exact ensures_attempt (askResult_spec hc.toSound.safe (fun _ => hc) fun _ => hc)

/-- The history only grows, so what was visited stays in the order of recording. -/
theorem Restrained.setReport (h : Restrained w) (report : ApplyReport) :
    Restrained (w.setReport report) where
  removals := h.removals
  visited := by
    show w.visited.Sublist (w.recorded ++ _).reverse
    rw [List.reverse_append]
    exact h.visited.trans (List.sublist_append_right _ _)
  removed := h.removed

theorem ne_base_of_isMount (hm : r.isMount = true) : r ≠ d.base t := by
  unfold Deployer.base
  rintro rfl
  split at hm <;> cases hm

theorem ne_image_of_isMount (hm : r.isMount = true) : r ≠ .externalImage t := by
  rintro rfl
  cases hm

/-- Recording a resource under a disposition of the deployment's own. -/
theorem Sound.record {disposition : ResourceDisposition} {report : ApplyReport} (h : Sound d t w)
    (ht : r.target = t) (hd : disposition ≠ .preExisting)
    (htar : report.target = t) (hled : report.ledger = w.report.ledger.record r disposition)
    (hb : report.externalImageBlockers = w.report.externalImageBlockers) :
    Sound d t (w.setReport report) where
  live := h.live
  target := htar
  ours := h.ours
  known := by
    show ∀ x ∈ report.ledger.resources, x.target = t
    rw [hled]
    intro x hx
    rcases ResourceLedger.mem_record.mp hx with rfl | hx
    exacts [ht, h.known x hx]
  covered := h.covered
  clean := by
    show ∀ x ∈ w.outstanding, Accounted d t report.ledger.resources x
    rw [hled]
    exact fun x hx => (h.clean x hx).mono fun y hy => ResourceLedger.mem_record.mpr (Or.inr hy)
  restrained := h.restrained.setReport report
  settings := by
    show _ → report.externalImageBlockers ≠ []
    rw [hb]
    exact h.settings
  image := by
    show report.ledger.disposition _ ≠ _
    rw [hled, ResourceLedger.disposition_record]
    split
    · intro hx
      exact hd (Option.some.inj hx)
    · exact h.image

/-- A mount that may still be there stays in the ledger and blocks removals. -/
theorem Closing.keep {todo' : List DeploymentResource} {failed' : Bool} {message : String}
    (h : Closing d t todo clear failed w) (hm : r.isMount = true) (ht : r.target = t)
    (hsup : ∀ x ∈ todo', x ∈ todo)
    (hf : failed' = false → failed = false ∧ r ∈ todo) :
    Closing d t todo' False failed'
      (w.setReport ((w.report.recordTyped r .cleanupPending).blockStorageRemoval message)) where
  toSound := h.toSound.record ht (by rintro ⟨⟩) h.target rfl rfl
  kept x hx := by
    show (w.report.ledger.record r .cleanupPending).disposition x ≠ _
    rw [ResourceLedger.disposition_record]
    split
    · rintro ⟨⟩
    · exact h.kept x hx
  idle := h.idle
  storage := h.storage
  base x hx hroot := ResourceLedger.owns_record (h.base x hx hroot) (ne_base_of_isMount hm)
  imageFirst := by
    show ImageFirst t (w.report.ledger.record r .cleanupPending).resources
    rw [ResourceLedger.resources_record]
    split
    · exact h.imageFirst
    · exact h.imageFirst.snoc fun he => absurd he (ne_image_of_isMount hm)
  mounts x hx hxm := Or.inr ⟨List.append_ne_nil_of_right_ne_nil _ (List.cons_ne_nil _ _), fun hc => hc.elim⟩
  history := by
    intro hfalse
    obtain ⟨hf', hr⟩ := hf hfalse
    obtain ⟨hsl, hkn⟩ := h.history hf'
    show (w.report.ledger.record r .cleanupPending).resources.Sublist
        (w.recorded ++ (w.report.ledger.record r .cleanupPending).resources.filter (· ∉ w.recorded)) ∧
      ∀ x ∈ w.recorded ++ (w.report.ledger.record r .cleanupPending).resources.filter (· ∉ w.recorded),
        x ∈ (w.report.ledger.record r .cleanupPending).resources ∨ x.isMount = true ∧ x ∉ todo'
    have hold : ∀ x ∈ w.recorded, x ∈ (w.report.ledger.record r .cleanupPending).resources ∨
        x.isMount = true ∧ x ∉ todo' := by
      intro x hx
      rcases hkn x hx with hx | ⟨hx, hn⟩
      · exact Or.inl (ResourceLedger.mem_record.mpr (Or.inr hx))
      · exact Or.inr ⟨hx, fun hx' => hn (hsup x hx')⟩
    refine ⟨?_, ?_⟩
    · have hnone : w.report.ledger.resources.filter (· ∉ w.recorded) = [] := by
        rw [List.filter_eq_nil_iff]
        intro x hx
        simpa using hsl.subset hx
      rw [ResourceLedger.resources_record]
      by_cases hmem : r ∈ w.report.ledger.resources
      · rw [if_pos hmem]
        exact hsl.trans (List.sublist_append_left _ _)
      · have hnew : r ∉ w.recorded := by
          intro hx
          rcases hkn r hx with hx | ⟨-, hn⟩
          exacts [hmem hx, hn hr]
        rw [if_neg hmem, List.filter_append, hnone, List.nil_append]
        refine hsl.append ?_
        simp [hnew]
    · intro x hx
      rcases List.mem_append.mp hx with hx | hx
      · exact hold x hx
      · exact Or.inl (List.mem_filter.mp hx).1

theorem keepMount_closing {todo' : List DeploymentResource} {failed' : Bool} {message : String}
    (h : Closing d t todo clear failed w) (hm : r.isMount = true) (ht : r.target = t)
    (hsup : ∀ x ∈ todo', x ∈ todo)
    (hf : failed' = false → failed = false ∧ r ∈ todo) :
    Ensures (Safe d t) (keepMount r message) (fun _ => Closing d t todo' False failed') E w := by
  have hk : Closing d t todo' False failed'
      (w.setReport ((w.report.recordTyped r .cleanupPending).blockStorageRemoval message)) :=
    h.keep hm ht hsup hf
  exact ensures_update hk.toSound.safe hk

theorem Closing.settle (h : Closing d t todo clear failed w) (rs : List DeploymentResource) :
    Closing d t todo clear failed (w.settle rs) where
  live := h.live
  target := h.target
  ours x hx := h.ours x (World.mem_settle.mp hx).1
  known := h.known
  covered x hx := h.covered x (World.mem_settle.mp hx).1
  clean x hx := h.clean x (World.mem_settle.mp hx).1
  restrained := ⟨h.restrained.removals, h.restrained.visited, h.restrained.removed⟩
  settings := h.settings
  image := h.image
  kept x hx := h.kept x (World.mem_settle.mp hx).1
  idle := h.idle
  storage hx := h.storage (World.mem_settle.mp hx).1
  base x hx := h.base x (World.mem_settle.mp hx).1
  imageFirst := h.imageFirst
  mounts x hx := h.mounts x (World.mem_settle.mp hx).1
  history := h.history

/-- A mount that is confirmed to be gone leaves the ledger. -/
theorem Closing.unmounted (h : Closing d t (r :: todo) clear failed w) (hm : r.isMount = true)
    (hn : r ∉ todo) (hgone : r ∉ w.outstanding) :
    Closing d t todo clear failed (w.setReport (w.report.removeTyped r)) where
  live := h.live
  target := h.target
  ours := h.ours
  known x hx := h.known x (ResourceLedger.mem_remove.mp hx).1
  covered := h.covered
  clean x hx := by
    have hne : x ≠ r := fun he => hgone (he ▸ hx)
    rcases h.clean x hx with hc | ⟨hc, rfl, hi⟩
    · exact Or.inl (ResourceLedger.mem_remove.mpr ⟨hc, hne⟩)
    · exact Or.inr ⟨hc, rfl, ResourceLedger.mem_remove.mpr ⟨hi, (ne_image_of_isMount hm).symm⟩⟩
  restrained := h.restrained.setReport _
  settings := h.settings
  image := by
    show (w.report.ledger.remove r).disposition _ ≠ _
    rw [ResourceLedger.disposition_remove_ne (ne_image_of_isMount hm).symm]
    exact h.image
  kept x hx := by
    have hne : x ≠ r := fun he => hgone (he ▸ hx)
    show (w.report.ledger.remove r).disposition x ≠ _
    rw [ResourceLedger.disposition_remove_ne hne]
    exact h.kept x hx
  idle := h.idle
  storage := h.storage
  base x hx hroot := by
    obtain ⟨y, hy, ho⟩ := ResourceLedger.owns_iff.mp (h.base x hx hroot)
    refine ResourceLedger.owns_iff.mpr ⟨y, ?_, ho⟩
    show (w.report.ledger.remove r).disposition _ = _
    rw [ResourceLedger.disposition_remove_ne (ne_base_of_isMount hm).symm, hy]
  imageFirst := by
    show ImageFirst t (w.report.ledger.remove r).resources
    rw [ResourceLedger.resources_remove]
    exact fun hs => h.imageFirst (hs.trans List.filter_sublist)
  mounts x hx hxm := by
    have hne : x ≠ r := fun he => hgone (he ▸ hx)
    rcases h.mounts x hx hxm with hx' | ⟨hb, hc⟩
    · exact Or.inl ((List.mem_cons.mp hx').resolve_left hne)
    · refine Or.inr ⟨hb, fun hcl => ?_⟩
      show (w.report.ledger.remove r).disposition x = _
      rw [ResourceLedger.disposition_remove_ne hne]
      exact hc hcl
  history := by
    intro hfalse
    obtain ⟨hsl, hkn⟩ := h.history hfalse
    have hsub : (w.report.ledger.remove r).resources.Sublist w.recorded := by
      rw [ResourceLedger.resources_remove]
      exact List.filter_sublist.trans hsl
    have hnone : (w.report.ledger.remove r).resources.filter (· ∉ w.recorded) = [] := by
      rw [List.filter_eq_nil_iff]
      intro x hx
      simpa using hsub.subset hx
    show (w.report.ledger.remove r).resources.Sublist
        (w.recorded ++ (w.report.ledger.remove r).resources.filter (· ∉ w.recorded)) ∧
      ∀ x ∈ w.recorded ++ (w.report.ledger.remove r).resources.filter (· ∉ w.recorded),
        x ∈ (w.report.ledger.remove r).resources ∨ x.isMount = true ∧ x ∉ todo
    rw [hnone, List.append_nil]
    refine ⟨hsub, fun x hx => ?_⟩
    by_cases hxr : x = r
    · subst hxr
      exact Or.inr ⟨hm, hn⟩
    · rcases hkn x hx with hx | ⟨hx, hx'⟩
      · exact Or.inl (ResourceLedger.mem_remove.mpr ⟨hx, hxr⟩)
      · exact Or.inr ⟨hx, fun hm' => hx' (List.mem_cons_of_mem _ hm')⟩

theorem Closing.weaken {clear' : Prop} (h : Closing d t todo clear failed w) (hc : clear' → clear) :
    Closing d t todo clear' failed w :=
  { h with
    mounts := fun r hr hm => (h.mounts r hr hm).imp id fun hx => ⟨hx.1, fun hcl => hx.2 (hc hcl)⟩ }

/-- Undoing one mount: it is gone, or it stays recorded and blocks removals. -/
theorem unmount_closing {env : Environment} {stateLabel unmountLabel attemptLabel : String}
    (h : Closing d t (r :: todo) clear false w) (hm : r.isMount = true) (ht : r.target = t)
    (hn : r ∉ todo) :
    Ensures (Safe d t) (unmount env r stateLabel unmountLabel attemptLabel)
      (fun p => Closing d t todo (clear ∧ p.1 = []) p.2) E w := by
  have hkeep : ∀ {clear : Prop} {failed failed' : Bool} {todo' : List DeploymentResource} {v : World}
      {message : String}, Closing d t todo' clear failed v → (∀ x ∈ todo, x ∈ todo') →
      (failed' = false → failed = false ∧ r ∈ todo') →
      Ensures (Safe d t) (do keepMount r message; return ([message], failed') : Engine _)
        (fun p => Closing d t todo (clear ∧ p.1 = []) p.2) E v := by
    intro clear failed failed' todo' v message hv hsup hf
    refine ensures_bind (keepMount_closing hv hm ht hsup hf) ?_
    rintro _ u hu
    refine ensures_pure (hu.weaken ?_)
    rintro ⟨-, he⟩
    cases he
  have htail : ∀ x ∈ todo, x ∈ r :: todo := fun x hx => List.mem_cons_of_mem _ hx
  refine ensures_bind (h.persisted env (.applying .cleanup [r])) ?_
  rintro (e | u) v hv
  · exact hkeep hv htail (by rintro ⟨⟩)
  refine ensures_bind (hv.answered env.perform) ?_
  rintro (e | u) u hu
  · exact hkeep hu htail fun _ => ⟨rfl, List.mem_cons_self ..⟩
  have hset := hu.settle [r]
  have hgone : r ∉ (u.settle [r]).outstanding := by
    rw [World.mem_settle]
    rintro ⟨-, hr⟩
    exact hr (List.mem_singleton.mpr rfl)
  refine ensures_bind (Q := fun _ v => v = u.settle [r]) (ensures_update hset.toSound.safe rfl) ?_
  rintro _ v rfl
  have hrem := hset.unmounted hm hn hgone
  refine ensures_bind (Q := fun _ => Closing d t todo clear false)
    (ensures_update hrem.toSound.safe hrem) ?_
  rintro _ v hv
  refine ensures_bind (hv.persisted env (.committed .cleanup)) ?_
  rintro (e | x) u hu
  · exact hkeep hu (fun x hx => hx) (by rintro ⟨⟩)
  · exact ensures_pure (hu.weaken And.left)

/-- Unmounting the raw image leaves only the storage mount to undo. -/
theorem unmountRaw_closing {env : Environment} (h : Closing d t (mountsTodo t w) True false w) :
    Ensures (Safe d t) (unmountRaw env t)
      (fun p => Closing d t [.storageMount t] (p.1 = []) p.2) E w := by
  refine ensures_bind (Q := fun x u => x = w.rawMountTarget ∧ u = w) (ensures_read ⟨rfl, rfl⟩) ?_
  rintro x u ⟨rfl, rfl⟩
  split
  · rename_i hraw
    rw [mountsTodo, if_pos hraw] at h
    refine (unmount_closing h rfl rfl ?_).post fun p v hv => hv.weaken fun hp => ⟨trivial, hp⟩
    simp
  · rename_i hraw
    rw [mountsTodo, if_neg hraw, List.nil_append] at h
    exact ensures_pure (h.weaken fun _ => trivial)

theorem unmountStorage_closing {env : Environment} (h : Closing d t [.storageMount t] clear failed w) :
    Ensures (Safe d t) (unmountStorage env t failed)
      (fun p => Closing d t [] (clear ∧ p.1 = []) p.2) E w := by
  refine ensures_bind (Q := fun x u => x = w.storageMountAttempted ∧ u = w)
    (ensures_read ⟨rfl, rfl⟩) ?_
  rintro x u ⟨rfl, rfl⟩
  split
  · split
    · rename_i hf
      refine ensures_bind (Q := fun _ => Closing d t [] False true)
        (keepMount_closing h rfl rfl (by intro x hx; cases hx) (by rintro ⟨⟩)) ?_
      rintro _ v hv
      refine ensures_pure (hv.weaken ?_)
      rintro ⟨-, he⟩
      cases he
    · rename_i hf
      rw [Bool.not_eq_true] at hf
      subst hf
      exact unmount_closing h rfl rfl List.not_mem_nil
  · rename_i hatt
    have hdone : Closing d t [] clear failed u :=
      { h with
        mounts := fun r hr hm => by
          rcases h.mounts r hr hm with hx | hx
          · rw [List.mem_singleton.mp hx] at hr
            exact absurd (h.storage hr) hatt
          · exact Or.inr hx
        history := fun hf => ⟨(h.history hf).1, fun r hr =>
          ((h.history hf).2 r hr).imp id fun hx => ⟨hx.1, List.not_mem_nil⟩⟩ }
    exact ensures_pure (hdone.weaken And.left)

end Closing

end Lasper.Provisioning
