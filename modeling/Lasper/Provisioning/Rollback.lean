import Lasper.Provisioning.Cleanup

/-! Rollback visits what the ledger owns in the reverse order of recording. It
removes nothing the deployment does not own and nothing that may still be
mounted, and it gives up the manifest only when nothing is outstanding. -/

namespace Lasper.Provisioning

open Lib Traced

section Rolling

variable {d : Deployer} {t : MachineName} {todo later slack : List DeploymentResource} {clear : Prop}
variable {w : World} {r : DeploymentResource} {E : NspawnError → World → Prop}

/-- During rollback: `todo` is still to be removed, `later` still to be visited,
and `slack` has been visited but not touched. -/
structure Rolling (d : Deployer) (t : MachineName) (todo later slack : List DeploymentResource)
    (clear : Prop) (w : World) : Prop extends Sound d t w where
  mounts : ∀ r ∈ w.outstanding, r.isMount = true → w.report.storageRemovalBlockers ≠ []
  owned : ∀ r ∈ todo, w.report.ledger.owns r = true
  distinct : todo.Nodup
  removable : ∀ r ∈ todo, ApplyReport.isRemovable r = true
  order : ¬[DeploymentResource.externalImage t, .nspawnConfig t].Sublist todo
  visits : (w.visited ++ later).Sublist w.recorded.reverse
  touched : (w.removals.map (·.resource) ++ slack).Sublist w.visited
  accounted : clear → ∀ r ∈ w.outstanding, r ∈ todo ∨
    w.report.ledger.disposition r = some .outcomeUnknown ∨ r.isRootfs = true ∧ d.base t ∈ todo ∨
    r = .nspawnConfig t ∧ (.externalImage t ∈ todo ∨
      w.report.ledger.disposition (.externalImage t) = some .outcomeUnknown)

theorem isRemovable_or (r : DeploymentResource) :
    ApplyReport.isRemovable r = true ∨ r.isMount = true ∨ r.isRootfs = true := by
  cases r <;> simp [ApplyReport.isRemovable, DeploymentResource.isMount, DeploymentResource.isRootfs]

theorem base_isRemovable (d : Deployer) (t : MachineName) :
    ApplyReport.isRemovable (d.base t) = true := by
  unfold Deployer.base
  split <;> rfl

theorem mem_typedOwnedInReverse {report : ApplyReport} : r ∈ report.typedOwnedInReverse ↔
    report.ledger.owns r = true ∧ ApplyReport.isRemovable r = true := by
  rw [ApplyReport.typedOwnedInReverse, List.mem_filter, ResourceLedger.mem_ownedInReverse]

theorem owns_of_disposition {ledger : ResourceLedger} {x : ResourceDisposition}
    (h : ledger.disposition r = some x) (hp : x ≠ .preExisting) (hu : x ≠ .outcomeUnknown) :
    ledger.owns r = true := by
  refine ResourceLedger.owns_iff.mpr ⟨x, h, ?_⟩
  cases x with
  | preExisting => exact absurd rfl hp
  | outcomeUnknown => exact absurd rfl hu
  | created | adopted | transferred | committed | cleanupPending => rfl

/-- Cleanup hands over to rollback what the ledger owns. -/
theorem Closing.rolling (h : Closing d t [] clear false w) :
    Rolling d t w.report.typedOwnedInReverse w.report.typedOwnedInReverse [] clear w := by
  obtain ⟨hsl, -⟩ := h.history rfl
  have hsub : w.report.typedOwnedInReverse.Sublist w.report.ledger.resources.reverse :=
    List.filter_sublist.trans ResourceLedger.ownedInReverse_sublist
  have hkind : ∀ x, x ∈ w.report.ledger.resources → w.report.ledger.disposition x ≠ some .preExisting →
      w.report.ledger.disposition x = some .outcomeUnknown ∨ w.report.ledger.owns x = true := by
    intro x hx hp
    cases hdx : w.report.ledger.disposition x with
    | none => exact absurd hx (ResourceLedger.disposition_eq_none.mp hdx)
    | some y =>
      by_cases hu : y = .outcomeUnknown
      · exact Or.inl (by rw [hu])
      · exact Or.inr (owns_of_disposition hdx (fun hy => hp (by rw [hdx, hy])) hu)
  exact
    { toSound := h.toSound
      mounts := fun x hx hm => by
        rcases h.mounts x hx hm with hn | ⟨hb, -⟩
        exacts [absurd hn List.not_mem_nil, hb]
      owned := fun x hx => (mem_typedOwnedInReverse.mp hx).1
      distinct := (List.nodup_reverse.mpr w.report.ledger.distinct).sublist hsub
      removable := fun x hx => (mem_typedOwnedInReverse.mp hx).2
      order := fun hs => h.imageFirst (by
        have := (hs.trans hsub).reverse
        rwa [List.reverse_reverse] at this)
      visits := by
        rw [h.idle.1, List.nil_append]
        exact hsub.trans hsl.reverse
      touched := by
        rw [h.idle.2]
        exact List.nil_sublist _
      accounted := by
        intro hclear x hx
        rcases h.clean x hx with hm | ⟨-, rfl, hm⟩
        · rcases hkind x hm (h.kept x hx) with hu | ho
          · exact Or.inr (Or.inl hu)
          · rcases isRemovable_or x with hr | hr | hr
            · exact Or.inl (mem_typedOwnedInReverse.mpr ⟨ho, hr⟩)
            · rcases h.mounts x hx hr with hn | ⟨-, hu⟩
              exacts [absurd hn List.not_mem_nil, Or.inr (Or.inl (hu hclear))]
            · exact Or.inr (Or.inr (Or.inl ⟨hr, mem_typedOwnedInReverse.mpr
                ⟨h.base x hx hr, base_isRemovable d t⟩⟩))
        · refine Or.inr (Or.inr (Or.inr ⟨rfl, ?_⟩))
          rcases hkind _ hm h.image with hu | ho
          · exact Or.inr hu
          · exact Or.inl (mem_typedOwnedInReverse.mpr ⟨ho, rfl⟩) }

theorem Rolling.ofSound {w' : World} (h : Rolling d t todo later slack clear w) (hs : Sound d t w')
    (hr : w'.report = w.report) (ho : w'.outstanding = w.outstanding)
    (hh : w'.recorded = w.recorded) (hv : w'.visited = w.visited ∧ w'.removals = w.removals) :
    Rolling d t todo later slack clear w' where
  toSound := hs
  mounts := by rw [ho, hr]; exact h.mounts
  owned := by rw [hr]; exact h.owned
  distinct := h.distinct
  removable := h.removable
  order := h.order
  visits := by rw [hv.1, hh]; exact h.visits
  touched := by rw [hv.1, hv.2]; exact h.touched
  accounted := by rw [ho, hr]; exact h.accounted

theorem Rolling.persisted (h : Rolling d t todo later slack clear w) (env : Environment)
    (state : DeploymentManifestState) :
    Ensures (Safe d t) (attempt (transition env state))
      (fun _ => Rolling d t todo later slack clear) E w :=
  h.toSound.transitioned env state (fun _ _ hs => h.ofSound hs rfl rfl rfl ⟨rfl, rfl⟩)
    fun _ _ hs => h.ofSound hs rfl rfl rfl ⟨rfl, rfl⟩

theorem Rolling.calls (h : Rolling d t todo later slack clear w) (n : ℕ) :
    Rolling d t todo later slack clear { w with calls := n } :=
  h.ofSound (h.toSound.calls n) rfl rfl rfl ⟨rfl, rfl⟩

/-- Rollback turns to the next resource. -/
theorem Rolling.visit (h : Rolling d t (r :: todo) (r :: todo) [] clear w) :
    Rolling d t (r :: todo) todo [r] clear { w with visited := w.visited ++ [r] } where
  live := h.live
  target := h.target
  ours := h.ours
  known := h.known
  covered := h.covered
  clean := h.clean
  restrained :=
    { removals := h.restrained.removals
      visited := by
        refine List.Sublist.trans ?_ h.visits
        exact List.append_sublist_append_left w.visited |>.mpr
          (List.singleton_sublist.mpr (List.mem_cons_self ..))
      removed := h.restrained.removed.trans (List.sublist_append_left _ _) }
  settings := h.settings
  image := h.image
  mounts := h.mounts
  owned := h.owned
  distinct := h.distinct
  removable := h.removable
  order := h.order
  visits := by
    show (w.visited ++ [r] ++ todo).Sublist _
    rw [List.append_assoc]
    exact h.visits
  touched := by
    show (w.removals.map (·.resource) ++ [r]).Sublist (w.visited ++ [r])
    exact List.append_sublist_append_right [r] |>.mpr h.restrained.removed
  accounted := h.accounted

/-- A resource that could not be removed stays in the ledger for later cleanup. -/
theorem Rolling.postpone (h : Rolling d t (r :: todo) todo slack clear w) :
    Rolling d t todo todo [] False (w.setReport (w.report.recordTyped r .cleanupPending)) where
  toSound := h.toSound.record
    (h.known r (ResourceLedger.owns_mem (h.owned r (List.mem_cons_self ..)))) (by rintro ⟨⟩)
    h.target rfl rfl
  mounts := h.mounts
  owned x hx := by
    refine ResourceLedger.owns_record (h.owned x (List.mem_cons_of_mem _ hx)) ?_
    rintro rfl
    exact (List.nodup_cons.mp h.distinct).1 hx
  distinct := (List.nodup_cons.mp h.distinct).2
  removable x hx := h.removable x (List.mem_cons_of_mem _ hx)
  order hs := h.order (hs.cons r)
  visits := by
    show (w.visited ++ todo).Sublist (w.recorded ++ _).reverse
    rw [List.reverse_append]
    exact h.visits.trans (List.sublist_append_right _ _)
  touched := by
    rw [List.append_nil]
    exact h.restrained.removed
  accounted hf := hf.elim

/-- A removal begins, with nothing speaking against it. -/
theorem Rolling.startRemoval (h : Rolling d t (r :: todo) todo [r] clear w)
    (hst : r.isStorage = true → w.report.storageRemovalBlockers = [])
    (hext : ∀ t', r = .externalImage t' → w.report.externalImageBlockers = []) :
    Rolling d t (r :: todo) todo [] clear { w with
      removals := w.removals ++
        [⟨r, w.report.ledger.disposition r, w.outstanding, w.settingsForeign⟩] } where
  live := h.live
  target := h.target
  ours := h.ours
  known := h.known
  covered := h.covered
  clean := h.clean
  restrained :=
    { removals := by
        intro rm hrm
        rcases List.mem_append.mp hrm with hrm | hrm
        · exact h.restrained.removals rm hrm
        · rw [List.mem_singleton.mp hrm]
          refine ⟨ResourceLedger.owns_iff.mp (h.owned r (List.mem_cons_self ..)), ?_, ?_⟩
          · intro hs x hx
            by_contra hm
            rw [Bool.not_eq_false] at hm
            exact h.mounts x hx hm (hst hs)
          · intro t' he
            by_contra hf
            rw [Bool.not_eq_false] at hf
            exact h.settings hf (hext t' he)
      visited := h.restrained.visited
      removed := by
        rw [List.map_append]
        exact h.touched }
  settings := h.settings
  image := h.image
  mounts := h.mounts
  owned := h.owned
  distinct := h.distinct
  removable := h.removable
  order := h.order
  visits := h.visits
  touched := by
    rw [List.append_nil, List.map_append]
    exact h.touched
  accounted := h.accounted

theorem Rolling.settle (h : Rolling d t todo later slack clear w) (rs : List DeploymentResource) :
    Rolling d t todo later slack clear (w.settle rs) where
  live := h.live
  target := h.target
  ours x hx := h.ours x (World.mem_settle.mp hx).1
  known := h.known
  covered x hx := h.covered x (World.mem_settle.mp hx).1
  clean x hx := h.clean x (World.mem_settle.mp hx).1
  restrained := ⟨h.restrained.removals, h.restrained.visited, h.restrained.removed⟩
  settings := h.settings
  image := h.image
  mounts x hx := h.mounts x (World.mem_settle.mp hx).1
  owned := h.owned
  distinct := h.distinct
  removable := h.removable
  order := h.order
  visits := h.visits
  touched := h.touched
  accounted hc x hx := h.accounted hc x (World.mem_settle.mp hx).1

/-- What dropping resources makes of a report. -/
structure Drops (xs : List DeploymentResource) (report report' : ApplyReport) : Prop where
  target : report'.target = report.target
  image : report'.externalImageBlockers = report.externalImageBlockers
  storage : report'.storageRemovalBlockers = report.storageRemovalBlockers
  mem : ∀ r, r ∈ report'.ledger.resources ↔ r ∈ report.ledger.resources ∧ r ∉ xs
  disposition : ∀ r, r ∉ xs → report'.ledger.disposition r = report.ledger.disposition r

theorem drops_removeTyped (report : ApplyReport) (r : DeploymentResource) :
    Drops [r] report (report.removeTyped r) where
  target := rfl
  image := rfl
  storage := rfl
  mem x := by
    rw [ApplyReport.removeTyped_ledger, ResourceLedger.mem_remove, List.mem_singleton]
  disposition x hx := ResourceLedger.disposition_remove_ne fun he => hx (List.mem_singleton.mpr he)

theorem Drops.trans {xs ys : List DeploymentResource} {a b c : ApplyReport} (h : Drops xs a b)
    (h' : Drops ys b c) : Drops (xs ++ ys) a c where
  target := h'.target.trans h.target
  image := h'.image.trans h.image
  storage := h'.storage.trans h.storage
  mem x := by
    rw [h'.mem, h.mem, List.mem_append]
    tauto
  disposition x hx := by
    rw [List.mem_append, not_or] at hx
    rw [h'.disposition x hx.2, h.disposition x hx.1]

theorem drops_foldl (xs : List DeploymentResource) (report : ApplyReport) :
    Drops xs report (xs.foldl ApplyReport.removeTyped report) := by
  induction xs generalizing report with
  | nil => exact ⟨rfl, rfl, rfl, fun r => by simp, fun _ _ => rfl⟩
  | cons x xs ih => exact (drops_removeTyped report x).trans (ih _)

/-- The ledger entries that go with a resource. -/
def goneWith (t : MachineName) : DeploymentResource → List DeploymentResource
  | .externalImage t' => [.externalImage t'] ++ (rootfsDependents t ++ [.nspawnConfig t])
  | .localStorage t' => [.localStorage t'] ++ rootfsDependents t
  | r => [r]

theorem drops_forgetResource (report : ApplyReport) (r : DeploymentResource) :
    Drops (goneWith report.target r) report (forgetResource r report) := by
  have hroot : ∀ report : ApplyReport,
      Drops (rootfsDependents report.target) report report.removeRootfsDependents :=
    fun report => drops_foldl _ report
  have htar : ∀ r, (report.removeTyped r).target = report.target := fun _ => rfl
  cases r with
  | externalImage t' =>
    refine (drops_removeTyped report (.externalImage t')).trans ?_
    have hall := (hroot (report.removeTyped (.externalImage t'))).trans
      (drops_removeTyped _ (.nspawnConfig report.target))
    rw [htar] at hall
    exact hall
  | localStorage t' =>
    refine (drops_removeTyped report (.localStorage t')).trans ?_
    have hall := hroot (report.removeTyped (.localStorage t'))
    rw [htar] at hall
    exact hall
  | storageMount | rawConfigurationMount | nvidiaState | nspawnConfig | systemdOverride
  | rootfsHostname | rootfsAccounts | rootfsNvidia | rootfsNetwork => exact drops_removeTyped report _

theorem mem_rootfsDependents {x : DeploymentResource} (h : x ∈ rootfsDependents t) :
    x.isMount = true ∨ x.isRootfs = true ∧ x.target = t := by
  simp only [rootfsDependents, List.mem_cons, List.not_mem_nil, or_false] at h
  rcases h with rfl | rfl | rfl | rfl | rfl | rfl
  exacts [Or.inl rfl, Or.inl rfl, Or.inr ⟨rfl, rfl⟩, Or.inr ⟨rfl, rfl⟩, Or.inr ⟨rfl, rfl⟩,
    Or.inr ⟨rfl, rfl⟩]

/-- Removing the storage undoes everything inside it. -/
theorem rootfs_undoneBy {x : DeploymentResource} (hs : r.isStorage = true) (hx : x.isRootfs = true)
    (ht : x.target = r.target) : x ∈ undoneBy r := by
  cases r <;> cases hs <;> cases x <;> cases hx <;> cases ht <;> simp [undoneBy]

theorem self_undoneBy (r : DeploymentResource) : r ∈ undoneBy r := by
  cases r <;> simp [undoneBy]

theorem mem_goneWith {x : DeploymentResource} (hr : r.target = t) (hx : x ∈ goneWith t r) :
    x ∈ undoneBy r ∨ r.isStorage = true ∧ x.isMount = true := by
  have hdep : r.isStorage = true → x ∈ rootfsDependents t →
      x ∈ undoneBy r ∨ r.isStorage = true ∧ x.isMount = true := by
    intro hs hx
    rcases mem_rootfsDependents hx with hm | ⟨hm, ht⟩
    exacts [Or.inr ⟨hs, hm⟩, Or.inl (rootfs_undoneBy hs hm (ht.trans hr.symm))]
  cases r with
  | externalImage t' =>
    obtain rfl : t' = t := hr
    simp only [goneWith, List.mem_append, List.mem_singleton] at hx
    rcases hx with rfl | hx | rfl
    exacts [Or.inl (self_undoneBy _), hdep rfl hx, Or.inl (by simp [undoneBy])]
  | localStorage t' =>
    rcases List.mem_append.mp hx with hx | hx
    · rw [List.mem_singleton.mp hx]
      exact Or.inl (self_undoneBy _)
    · exact hdep rfl hx
  | storageMount | rawConfigurationMount | nvidiaState | nspawnConfig | systemdOverride
  | rootfsHostname | rootfsAccounts | rootfsNvidia | rootfsNetwork =>
    rw [List.mem_singleton.mp hx]
    exact Or.inl (self_undoneBy _)

/-- Of the removable resources only the settings file goes with another one. -/
theorem removable_goneWith {x : DeploymentResource} (hr : r.target = t)
    (hm : ApplyReport.isRemovable x = true) (hx : x ∈ goneWith t r) :
    x = r ∨ r = .externalImage t ∧ x = .nspawnConfig t := by
  have hdep : x ∉ rootfsDependents t := by
    intro hx
    rcases mem_rootfsDependents hx with hx | ⟨hx, -⟩ <;> cases x <;> cases hx <;> cases hm
  cases r with
  | externalImage t' =>
    obtain rfl : t' = t := hr
    simp only [goneWith, List.mem_append, List.mem_singleton] at hx
    rcases hx with rfl | hx | rfl
    exacts [Or.inl rfl, absurd hx hdep, Or.inr ⟨rfl, rfl⟩]
  | localStorage t' =>
    rcases List.mem_append.mp hx with hx | hx
    exacts [Or.inl (List.mem_singleton.mp hx), absurd hx hdep]
  | storageMount | rawConfigurationMount | nvidiaState | nspawnConfig | systemdOverride
  | rootfsHostname | rootfsAccounts | rootfsNvidia | rootfsNetwork =>
    exact Or.inl (List.mem_singleton.mp hx)

/-- A removal was confirmed: the resource and what went with it leave the ledger. -/
theorem Rolling.forget (h : Rolling d t (r :: todo) todo [] clear w)
    (hst : r.isStorage = true → w.report.storageRemovalBlockers = []) :
    Rolling d t todo todo [] clear
      ((w.settle (undoneBy r)).setReport (forgetResource r w.report)) := by
  have hrt : r.target = t := h.known r (ResourceLedger.owns_mem (h.owned r (List.mem_cons_self ..)))
  have hd : Drops (goneWith t r) w.report (forgetResource r w.report) := by
    rw [← h.target]
    exact drops_forgetResource w.report r
  -- what is still outstanding has not lost its entry
  have hstay : ∀ x ∈ (w.settle (undoneBy r)).outstanding, x ∉ goneWith t r := by
    intro x hx hg
    obtain ⟨hx, hn⟩ := World.mem_settle.mp hx
    rcases mem_goneWith hrt hg with hg | ⟨hs, hm⟩
    exacts [hn hg, h.mounts x hx hm (hst hs)]
  have himg : .nspawnConfig t ∈ (w.settle (undoneBy r)).outstanding → .externalImage t ∉ goneWith t r := by
    intro hx hg
    rcases removable_goneWith hrt rfl hg with hr | ⟨-, hr⟩
    · refine (World.mem_settle.mp hx).2 ?_
      rw [← hr]
      simp [undoneBy]
    · cases hr
  have hrest : ∀ x ∈ todo, x ∉ goneWith t r := by
    intro x hx hg
    rcases removable_goneWith hrt (h.removable x (List.mem_cons_of_mem _ hx)) hg with rfl | ⟨rfl, rfl⟩
    · exact (List.nodup_cons.mp h.distinct).1 hx
    · exact h.order (List.cons_sublist_cons.mpr (List.singleton_sublist.mpr hx))
  have hsub : ∀ x ∈ (w.settle (undoneBy r)).outstanding, x ∈ w.outstanding :=
    fun x hx => (World.mem_settle.mp hx).1
  exact
    { live := h.live
      target := hd.target.trans h.target
      ours := fun x hx => h.ours x (hsub x hx)
      known := fun x hx => h.known x ((hd.mem x).mp hx).1
      covered := fun x hx => h.covered x (hsub x hx)
      clean := fun x hx => by
        rcases h.clean x (hsub x hx) with hc | ⟨hc, rfl, hi⟩
        · exact Or.inl ((hd.mem x).mpr ⟨hc, hstay x hx⟩)
        · exact Or.inr ⟨hc, rfl, (hd.mem _).mpr ⟨hi, himg hx⟩⟩
      restrained := (h.settle (undoneBy r)).restrained.setReport _
      settings := by
        show _ → (forgetResource r w.report).externalImageBlockers ≠ []
        rw [hd.image]
        exact h.settings
      image := by
        show (forgetResource r w.report).ledger.disposition _ ≠ _
        by_cases hg : .externalImage t ∈ goneWith t r
        · rw [ResourceLedger.disposition_eq_none.mpr fun hx => ((hd.mem _).mp hx).2 hg]
          rintro ⟨⟩
        · rw [hd.disposition _ hg]
          exact h.image
      mounts := by
        show ∀ x ∈ (w.settle (undoneBy r)).outstanding, x.isMount = true →
          (forgetResource r w.report).storageRemovalBlockers ≠ []
        rw [hd.storage]
        exact fun x hx => h.mounts x (hsub x hx)
      owned := fun x hx => by
        obtain ⟨y, hy, ho⟩ := ResourceLedger.owns_iff.mp (h.owned x (List.mem_cons_of_mem _ hx))
        refine ResourceLedger.owns_iff.mpr ⟨y, ?_, ho⟩
        show (forgetResource r w.report).ledger.disposition x = _
        rw [hd.disposition x (hrest x hx), hy]
      distinct := (List.nodup_cons.mp h.distinct).2
      removable := fun x hx => h.removable x (List.mem_cons_of_mem _ hx)
      order := fun hs => h.order (hs.cons r)
      visits := by
        show (w.visited ++ todo).Sublist (w.recorded ++ _).reverse
        rw [List.reverse_append]
        exact h.visits.trans (List.sublist_append_right _ _)
      touched := h.touched
      accounted := fun hclear x hx => by
        show x ∈ todo ∨ (forgetResource r w.report).ledger.disposition x = _ ∨ _ ∨
          x = _ ∧ (_ ∨ (forgetResource r w.report).ledger.disposition (.externalImage t) = _)
        obtain ⟨hxo, hxu⟩ := World.mem_settle.mp hx
        rcases h.accounted hclear x hxo with hm | hu | ⟨hroot, hm⟩ | ⟨rfl, hm⟩
        · rcases List.mem_cons.mp hm with rfl | hm
          exacts [absurd (self_undoneBy x) hxu, Or.inl hm]
        · rw [hd.disposition x (hstay x hx)]
          exact Or.inr (Or.inl hu)
        · rcases List.mem_cons.mp hm with hb | hm
          · refine absurd (rootfs_undoneBy ?_ hroot ((h.ours x hxo).trans hrt.symm)) hxu
            rw [← hb]
            unfold Deployer.base
            split <;> rfl
          · exact Or.inr (Or.inr (Or.inl ⟨hroot, hm⟩))
        · refine Or.inr (Or.inr (Or.inr ⟨rfl, ?_⟩))
          rw [hd.disposition _ (himg hx)]
          refine hm.imp (fun hm => ?_) id
          refine (List.mem_cons.mp hm).resolve_left ?_
          rintro rfl
          exact hxu (by simp [undoneBy]) }

theorem Rolling.weaken {clear' : Prop} (h : Rolling d t todo later slack clear w)
    (hc : clear' → clear) : Rolling d t todo later slack clear' w :=
  { h with accounted := fun hcl => h.accounted (hc hcl) }

/-- Rollback may stop before it has visited everything. -/
theorem Rolling.ended (h : Sound d t w)
    (hm : ∀ r ∈ w.outstanding, r.isMount = true → w.report.storageRemovalBlockers ≠ []) :
    Rolling d t [] [] [] False w where
  toSound := h
  mounts := hm
  owned r hr := by cases hr
  distinct := List.nodup_nil
  removable r hr := by cases hr
  order hs := absurd hs.length_le (by simp)
  visits := by
    rw [List.append_nil]
    exact h.restrained.visited
  touched := by
    rw [List.append_nil]
    exact h.restrained.removed
  accounted hf := hf.elim

theorem removeResource_rolling {env : Environment} (h : Rolling d t (r :: todo) todo [r] clear w)
    (hst : r.isStorage = true → w.report.storageRemovalBlockers = [])
    (hext : ∀ t', r = .externalImage t' → w.report.externalImageBlockers = []) :
    Ensures (Safe d t) (removeResource env r)
      (fun _ u => Rolling d t todo todo [] clear (u.setReport (forgetResource r u.report)))
      (fun _ => Rolling d t (r :: todo) todo [] clear) w := by
  have hs := h.startRemoval hst hext
  refine ensures_bind (Q := fun _ u => Rolling d t (r :: todo) todo [] clear u ∧
    u.report.storageRemovalBlockers = w.report.storageRemovalBlockers)
    (ensures_update hs.toSound.safe ⟨hs, rfl⟩) ?_
  rintro _ u ⟨hu, hb⟩
  refine ensures_bind (Q := fun _ v => v = { u with calls := u.calls + 1 }) (askResult_spec
    (hu.calls _).toSound.safe (fun _ => rfl) fun _ => hu.calls _) ?_
  rintro _ v rfl
  have hset := (hu.calls (u.calls + 1)).settle (undoneBy r)
  exact ensures_update hset.toSound.safe ((hu.calls _).forget fun hr => hb.trans (hst hr))

theorem rollbackResource_rolling {env : Environment} (h : Rolling d t (r :: todo) todo [r] clear w) :
    Ensures (Safe d t) (rollbackResource env r)
      (fun _ u => Rolling d t todo todo [] clear (u.setReport (forgetResource r u.report)))
      (fun _ u => ∃ slack, Rolling d t (r :: todo) todo slack clear u) w := by
  have hblocked : ∀ applied : AppliedResource,
      (∀ t', r = .externalImage t' → applied = .externalImage) →
      Ensures (Safe d t) (removeUnlessBlocked env r applied)
        (fun _ u => Rolling d t todo todo [] clear (u.setReport (forgetResource r u.report)))
        (fun _ u => ∃ slack, Rolling d t (r :: todo) todo slack clear u) w := by
    intro applied himg
    refine ensures_bind (Q := fun b u => b = w.report.removalBlockers applied ∧ u = w)
      (ensures_read ⟨rfl, rfl⟩) ?_
    rintro b u ⟨rfl, rfl⟩
    split
    · rename_i hb
      obtain ⟨hext, hstore⟩ := List.append_eq_nil_iff.mp hb
      refine (removeResource_rolling h (fun _ => hstore) ?_).mono (fun _ _ hx => hx)
        fun _ _ hx => ⟨_, hx⟩
      intro t' he
      rw [if_pos (himg t' he)] at hext
      exact hext
    · exact ensures_fail ⟨_, h⟩
  cases r with
  | externalImage t' => exact hblocked .externalImage fun _ _ => rfl
  | localStorage t' => exact hblocked .localStorage (by rintro t'' ⟨⟩)
  | storageMount | rawConfigurationMount | nvidiaState | nspawnConfig | systemdOverride
  | rootfsHostname | rootfsAccounts | rootfsNvidia | rootfsNetwork =>
    exact (removeResource_rolling h (by rintro ⟨⟩) (by rintro t' ⟨⟩)).mono (fun _ _ hx => hx)
      fun _ _ hx => ⟨_, hx⟩

/-- What holds after the attempt to roll back one resource. -/
def AfterResource (d : Deployer) (t : MachineName) (r : DeploymentResource) (todo : List DeploymentResource)
    (clear : Prop) : Except NspawnError Unit → World → Prop
  | .ok () => fun u => Rolling d t todo todo [] clear (u.setReport (forgetResource r u.report))
  | .error _ => fun u => ∃ slack, Rolling d t (r :: todo) todo slack clear u

/-- The rollback loop, by induction over the resources still to visit. -/
theorem rollbackLoop_rolling {env : Environment} {errors : List String} {reload : Bool}
    (h : Rolling d t todo todo [] (clear ∧ errors = []) w) :
    Ensures (Safe d t) (rollbackLoop env todo errors reload)
      (fun p => Rolling d t [] [] [] (clear ∧ p.1 = [])) E w := by
  induction todo generalizing w errors reload with
  | nil => exact ensures_pure h
  | cons r todo ih =>
    have hpostpone : ∀ {slack : List DeploymentResource} {c : Prop} {v : World},
        Rolling d t (r :: todo) todo slack c v →
        Ensures (Safe d t) (recordTyped r .cleanupPending)
          (fun _ => Rolling d t todo todo [] False) E v := by
      intro slack c v hv
      exact ensures_update hv.postpone.toSound.safe hv.postpone
    have hrt : r.target = t := h.known r (ResourceLedger.owns_mem (h.owned r (List.mem_cons_self ..)))
    have hv := h.visit
    refine ensures_bind (Q := fun _ => Rolling d t (r :: todo) todo [r] (clear ∧ errors = []))
      (ensures_update hv.toSound.safe hv) ?_
    rintro _ v hv
    refine ensures_bind (hv.persisted env (.applying .rollback [r])) ?_
    rintro (e | x) u hu
    · refine ensures_bind (hpostpone hu) ?_
      rintro _ v hv
      exact ensures_pure ((Rolling.ended hv.toSound hv.mounts).weaken fun hc => by simp at hc)
    refine ensures_bind (ensures_attempt ((rollbackResource_rolling hu).mono
      (fun _ _ hx => hx) fun _ _ hx => hx)
      (R := AfterResource d t r todo (clear ∧ errors = []))) ?_
    rintro (e | x) v hv
    · obtain ⟨slack, hv⟩ := hv
      refine ensures_bind (hpostpone hv) ?_
      rintro _ u hu
      exact ih (hu.weaken fun hc => by simp at hc)
    · refine ensures_bind (Q := fun _ => Rolling d t todo todo [] (clear ∧ errors = []))
        (ensures_update hv.toSound.safe hv) ?_
      rintro _ u hu
      refine ensures_bind (hu.persisted env (.committed .rollback)) ?_
      rintro (e | x) v hv
      · have hrec : Rolling d t [] [] [] False (v.setReport (v.report.recordTyped r .cleanupPending)) :=
          Rolling.ended (hv.toSound.record hrt (by rintro ⟨⟩) hv.target rfl rfl) hv.mounts
        refine ensures_bind (Q := fun _ => Rolling d t [] [] [] False)
          (ensures_update hrec.toSound.safe hrec) ?_
        rintro _ u hu
        exact ensures_pure (hu.weaken fun hc => by simp at hc)
      · exact ih hv

end Rolling

end Lasper.Provisioning
