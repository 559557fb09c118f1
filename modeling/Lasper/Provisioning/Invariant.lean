import Lasper.Provisioning.Orchestrator

/-! What holds while the stages run. A resource touched by an effect is
accounted for by the ledger or by the transition being applied; the stages come
in a fixed order, so each of them meets resources the ledger does not know. -/

namespace Lasper.Provisioning

open Lib Traced

namespace DeploymentResource

/-- State inside the storage tree, which goes with the tree. -/
def isRootfs : DeploymentResource → Bool
  | rootfsHostname _ | rootfsAccounts _ | rootfsNvidia _ | rootfsNetwork _ => true
  | _ => false

def isMount : DeploymentResource → Bool
  | storageMount _ | rawConfigurationMount _ => true
  | _ => false

def isStorage : DeploymentResource → Bool
  | localStorage _ | externalImage _ => true
  | _ => false

/-- The place of a resource in the order of the stages. -/
def rank : DeploymentResource → ℕ
  | localStorage _ => 0
  | storageMount _ => 1
  | externalImage _ => 2
  | rawConfigurationMount _ => 3
  | rootfsHostname _ => 4
  | rootfsAccounts _ => 5
  | nvidiaState _ => 6
  | rootfsNvidia _ => 7
  | nspawnConfig _ => 8
  | systemdOverride _ => 9
  | rootfsNetwork _ => 10

end DeploymentResource

namespace Deployer

def isClone : Deployer → Bool
  | clone _ => true
  | _ => false

/-- The resource that holds the whole root file system. -/
def base (deployer : Deployer) (t : MachineName) : DeploymentResource :=
  if deployer.isExternalStorageManaged then .externalImage t else .localStorage t

def baseRank (deployer : Deployer) : ℕ :=
  if deployer.isExternalStorageManaged then 3 else 1

end Deployer

/-- A list of resources accounts for one: by naming it or, for the settings file
that systemd copies along with a cloned image, by naming the image. -/
def Accounted (d : Deployer) (t : MachineName) (xs : List DeploymentResource)
    (r : DeploymentResource) : Prop :=
  r ∈ xs ∨ d.isClone = true ∧ r = .nspawnConfig t ∧ .externalImage t ∈ xs

theorem Accounted.mono {d : Deployer} {t : MachineName} {xs ys : List DeploymentResource}
    {r : DeploymentResource} (h : Accounted d t xs r) (hs : ∀ x ∈ xs, x ∈ ys) : Accounted d t ys r := by
  rcases h with h | ⟨hc, hr, hx⟩
  · exact Or.inl (hs r h)
  · exact Or.inr ⟨hc, hr, hs _ hx⟩

/-- Only the settings file may be accounted for by another resource. -/
theorem Accounted.mem {d : Deployer} {t : MachineName} {xs : List DeploymentResource}
    {r : DeploymentResource} (h : Accounted d t xs r) (hr : r ≠ .nspawnConfig t) : r ∈ xs := by
  rcases h with h | ⟨-, rfl, -⟩
  · exact h
  · exact absurd rfl hr

def Covered (d : Deployer) (t : MachineName) (w : World) : Prop :=
  ∀ r ∈ w.outstanding, Accounted d t w.recoveryResources r

/-- A removal of an owned resource; storage and images only with no mount left
over them, and an image only when the settings file was the deployment's own. -/
structure Removal.Safe (rm : Removal) : Prop where
  owned : ∃ d, rm.disposition = some d ∧ d.isOwned = true
  unmounted : rm.resource.isStorage = true → ∀ r ∈ rm.outstanding, r.isMount = false
  settings : ∀ t, rm.resource = .externalImage t → rm.settingsForeign = false

structure Restrained (w : World) : Prop where
  removals : ∀ rm ∈ w.removals, rm.Safe
  visited : w.visited.Sublist w.recorded.reverse
  removed : (w.removals.map (·.resource)).Sublist w.visited

/-- What must hold at every point of a deployment. -/
structure Safe (d : Deployer) (t : MachineName) (w : World) : Prop where
  covered : Covered d t w
  restrained : Restrained w

/-- The image is never recorded after the settings file. -/
def ImageFirst (t : MachineName) (rs : List DeploymentResource) : Prop :=
  ¬[DeploymentResource.nspawnConfig t, .externalImage t].Sublist rs

theorem ImageFirst.snoc {t : MachineName} {rs : List DeploymentResource} {r : DeploymentResource}
    (h : ImageFirst t rs) (hr : r = .externalImage t → .nspawnConfig t ∉ rs) :
    ImageFirst t (rs ++ [r]) := by
  intro hs
  obtain ⟨xs, ys, he, hxs, hys⟩ := List.sublist_append_iff.mp hs
  rcases xs with _ | ⟨x, _ | ⟨x', xs⟩⟩
  · have hlen := hys.length_le
    rw [List.nil_append] at he
    rw [← he] at hlen
    exact absurd hlen (by simp)
  · cases he
    exact hr (List.mem_singleton.mp (hys.subset (List.mem_singleton.mpr rfl))).symm
      (List.singleton_sublist.mp hxs)
  · obtain ⟨rfl, rfl, hnil⟩ : DeploymentResource.nspawnConfig t = x ∧ .externalImage t = x' ∧ [] = xs ++ ys := by
      simpa using he
    obtain ⟨rfl, -⟩ := List.append_eq_nil_iff.mp hnil.symm
    exact h hxs

theorem ImageFirst.single {t : MachineName} (r : DeploymentResource) : ImageFirst t [r] := by
  intro hs
  exact absurd hs.length_le (by simp)

/-- The state of a deployment whose stages are running or have just stopped. -/
structure Underway (d : Deployer) (t : MachineName) (w : World) : Prop where
  live : ∃ session, w.session = some session ∧ session.stored = some session.manifest
  target : w.report.target = t
  ours : ∀ r ∈ w.outstanding, r.target = t
  known : ∀ r ∈ w.report.ledger.resources ++ w.intended, r.target = t
  covered : Covered d t w
  pending : ∀ r ∈ w.outstanding, Accounted d t (w.report.ledger.resources ++ w.intended) r
  kept : ∀ r ∈ w.outstanding, w.report.ledger.disposition r ≠ some .preExisting
  history : w.recorded = w.report.ledger.resources
  idle : w.visited = [] ∧ w.removals = []
  raw : .rawConfigurationMount t ∈ w.outstanding → w.rawMountTarget.isSome = true ∨
    .rawConfigurationMount t ∈ w.intended ∧ .rawConfigurationMount t ∉ w.report.ledger.resources
  storage : .storageMount t ∈ w.outstanding → w.storageMountAttempted = true
  settings : w.settingsForeign = true → w.report.externalImageBlockers ≠ []
  base : ∀ r ∈ w.outstanding, r.isRootfs = true → w.report.ledger.owns (d.base t) = true
  image : w.report.ledger.disposition (.externalImage t) ≠ some .preExisting
  imageFirst : ImageFirst t w.report.ledger.resources
  imageDue : .externalImage t ∈ w.intended → .nspawnConfig t ∈ w.report.ledger.resources →
    .externalImage t ∈ w.report.ledger.resources
  intendedFirst : ImageFirst t w.intended

theorem Underway.safe {d : Deployer} {t : MachineName} {w : World} (h : Underway d t w) :
    Safe d t w where
  covered := h.covered
  restrained :=
    { removals := by rw [h.idle.2]; intro rm hrm; cases hrm
      visited := by rw [h.idle.1]; exact List.nil_sublist _
      removed := by rw [h.idle.2]; exact List.nil_sublist _ }

/-- The stages before rank `k` are done, the transition being applied names
`rs`, and beyond the ledger only `extra` is outstanding. -/
structure At (d : Deployer) (t : MachineName) (k : ℕ) (rs extra : List DeploymentResource)
    (w : World) : Prop where
  underway : Underway d t w
  intended : w.intended = rs
  below : ∀ r ∈ w.report.ledger.resources, r.rank < k
  based : d.baseRank ≤ k → w.report.ledger.owns (d.base t) = true
  owing : ∀ r ∈ w.outstanding, Accounted d t (w.report.ledger.resources ++ extra) r

/-- Resources that a transition may name once the stages before `k` are done. -/
structure Announces (t : MachineName) (k : ℕ) (rs : List DeploymentResource) : Prop where
  ours : ∀ r ∈ rs, r.target = t
  due : .externalImage t ∈ rs → k ≤ 8
  order : ImageFirst t rs

theorem Announces.nothing (t : MachineName) (k : ℕ) : Announces t k [] where
  ours := by intro r hr; cases hr
  due := by rintro ⟨⟩
  order := by intro hs; exact absurd hs.length_le (by simp)

theorem Announces.single {t : MachineName} {k : ℕ} {r : DeploymentResource} (ht : r.target = t)
    (hr : r ≠ .externalImage t) : Announces t k [r] where
  ours := by
    intro x hx
    rw [List.mem_singleton.mp hx]
    exact ht
  due hx := absurd (List.mem_singleton.mp hx).symm hr
  order := ImageFirst.single r

/-- A stage: every point is safe, and a failure leaves a deployment underway. -/
abbrev Keeps (d : Deployer) (t : MachineName) {α : Type} (p : Engine α) (Q : α → World → Prop)
    (w : World) : Prop :=
  Ensures (Safe d t) p Q (fun _ => Underway d t) w

section Elementary

variable {d : Deployer} {t : MachineName} {k k' : ℕ} {rs extra : List DeploymentResource} {w : World}
variable {r : DeploymentResource}

/-- Only some fields of the world matter here. -/
theorem Underway.congr {w' : World} (h : Underway d t w) (hs : w'.session = w.session)
    (hr : w'.report = w.report) (ho : w'.outstanding = w.outstanding)
    (hh : w'.recorded = w.recorded) (hv : w'.visited = w.visited ∧ w'.removals = w.removals)
    (hraw : w'.rawMountTarget = w.rawMountTarget ∨ w'.rawMountTarget.isSome = true)
    (hst : w'.storageMountAttempted = w.storageMountAttempted ∨ w'.storageMountAttempted = true)
    (hf : w'.settingsForeign = w.settingsForeign) : Underway d t w' := by
  have hi : w'.intended = w.intended := by rw [World.intended, World.intended, hs]
  have hrec : w'.recoveryResources = w.recoveryResources := by
    rw [World.recoveryResources, World.recoveryResources, hs]
  exact
    { live := by rw [hs]; exact h.live
      target := by rw [hr]; exact h.target
      ours := by rw [ho]; exact h.ours
      known := by rw [hr, hi]; exact h.known
      covered := by unfold Covered; rw [ho, hrec]; exact h.covered
      pending := by rw [ho, hr, hi]; exact h.pending
      kept := by rw [ho, hr]; exact h.kept
      history := by rw [hh, hr]; exact h.history
      idle := by rw [hv.1, hv.2]; exact h.idle
      raw := by
        rw [ho, hi, hr]
        intro hm
        rcases hraw with hraw | hraw
        · rw [hraw]; exact h.raw hm
        · exact Or.inl hraw
      storage := by
        rw [ho]
        intro hm
        rcases hst with hst | hst
        · rw [hst]; exact h.storage hm
        · exact hst
      settings := by rw [hf, hr]; exact h.settings
      base := by rw [ho, hr]; exact h.base
      image := by rw [hr]; exact h.image
      imageFirst := by rw [hr]; exact h.imageFirst
      imageDue := by rw [hi, hr]; exact h.imageDue
      intendedFirst := by rw [hi]; exact h.intendedFirst }

theorem At.congr {w' : World} (h : At d t k rs extra w) (hu : Underway d t w')
    (hs : w'.session = w.session) (hr : w'.report = w.report)
    (ho : w'.outstanding = w.outstanding) : At d t k rs extra w' where
  underway := hu
  intended := by rw [World.intended, hs]; exact h.intended
  below := by rw [hr]; exact h.below
  based := by rw [hr]; exact h.based
  owing := by rw [hr, ho]; exact h.owing

theorem Underway.calls (h : Underway d t w) (n : ℕ) : Underway d t { w with calls := n } :=
  h.congr rfl rfl rfl rfl ⟨rfl, rfl⟩ (Or.inl rfl) (Or.inl rfl) rfl

theorem At.calls (h : At d t k rs extra w) (n : ℕ) : At d t k rs extra { w with calls := n } :=
  h.congr (h.underway.calls n) rfl rfl rfl

theorem At.secrets (h : At d t k rs extra w) (secrets : DeploymentSecrets) :
    At d t k rs extra { w with secrets } :=
  h.congr (h.underway.congr rfl rfl rfl rfl ⟨rfl, rfl⟩ (Or.inl rfl) (Or.inl rfl) rfl) rfl rfl rfl

theorem At.attempted (h : At d t k rs extra w) :
    At d t k rs extra { w with storageMountAttempted := true } :=
  h.congr (h.underway.congr rfl rfl rfl rfl ⟨rfl, rfl⟩ (Or.inl rfl) (Or.inr rfl) rfl) rfl rfl rfl

theorem At.mounted (h : At d t k rs extra w) (raw : RootfsTarget) :
    At d t k rs extra { w with rawMountTarget := some raw } :=
  h.congr (h.underway.congr rfl rfl rfl rfl ⟨rfl, rfl⟩ (Or.inr rfl) (Or.inl rfl) rfl) rfl rfl rfl

theorem At.mono (h : At d t k rs extra w) (hk : k ≤ k') (hb : d.baseRank ≤ k' → d.baseRank ≤ k) :
    At d t k' rs extra w :=
  { h with
    below := fun r hr => Nat.lt_of_lt_of_le (h.below r hr) hk
    based := fun hk' => h.based (hb hk') }

/-- A resource of a stage still to come is not in the ledger. -/
theorem At.fresh (h : At d t k rs extra w) (hr : k ≤ r.rank) : r ∉ w.report.ledger.resources := by
  intro hm
  have := h.below r hm
  omega

theorem At.weaken {extra' : List DeploymentResource} (h : At d t k rs extra w)
    (he : ∀ x ∈ extra, x ∈ extra') : At d t k rs extra' w :=
  { h with
    owing := fun r hr => (h.owing r hr).mono fun x hx => by
      rcases List.mem_append.mp hx with hx | hx
      · exact List.mem_append_left _ hx
      · exact List.mem_append_right _ (he x hx) }

theorem World.intended_eq {session : DeploymentStateSession} (h : w.session = some session) :
    w.intended = session.manifest.intended := by
  rw [World.intended, h]
  rfl

theorem World.mem_recoveryResources {session : DeploymentStateSession}
    (h : w.session = some session) (hs : session.stored = some session.manifest) :
    r ∈ w.recoveryResources ↔
      r ∈ session.manifest.committedLedger.resources ∨ r ∈ session.manifest.intended := by
  have he : w.recoveryResources = session.manifest.recoveryResources.map (·.resource) := by
    rw [World.recoveryResources, h, Option.bind_some, hs]
    rfl
  rw [he]
  exact DeploymentCrashManifest.mem_recoveryResources

theorem Underway.intended_covered (h : Underway d t w) (hr : r ∈ w.intended) :
    r ∈ w.recoveryResources := by
  obtain ⟨session, hs, hst⟩ := h.live
  rw [World.intended_eq hs] at hr
  exact (World.mem_recoveryResources hs hst).mpr (Or.inr hr)

/-- An effect begins on resources the transition names. -/
theorem At.start {rs' : List DeploymentResource} (h : At d t k rs extra w) (hi : ∀ r ∈ rs', r ∈ rs)
    (ht : ∀ r ∈ rs', r.target = t)
    (hl : ∀ r ∈ rs', w.report.ledger.disposition r ≠ some .preExisting)
    (hraw : .rawConfigurationMount t ∈ rs' → k ≤ 3)
    (hst : .storageMount t ∈ rs' → w.storageMountAttempted = true)
    (hb : ∀ r ∈ rs', r.isRootfs = true → d.baseRank ≤ k) :
    At d t k rs (extra ++ rs') (w.start rs') := by
  have hu := h.underway
  have hmem : ∀ {r : DeploymentResource}, r ∈ (w.start rs').outstanding → r ∈ w.outstanding ∨ r ∈ rs' :=
    fun hr => List.mem_append.mp hr
  have hint : ∀ r ∈ rs', r ∈ w.intended := by rw [h.intended]; exact hi
  refine ⟨⟨hu.live, hu.target, ?_, hu.known, ?_, ?_, ?_, hu.history, hu.idle, ?_, ?_, hu.settings, ?_,
    hu.image, hu.imageFirst, hu.imageDue, hu.intendedFirst⟩, h.intended, h.below, h.based, ?_⟩
  · intro r hr
    rcases hmem hr with hr | hr
    exacts [hu.ours r hr, ht r hr]
  · intro r hr
    rcases hmem hr with hr | hr
    exacts [hu.covered r hr, Or.inl (hu.intended_covered (hint r hr))]
  · intro r hr
    rcases hmem hr with hr | hr
    exacts [hu.pending r hr, Or.inl (List.mem_append_right _ (hint r hr))]
  · intro r hr
    rcases hmem hr with hr | hr
    exacts [hu.kept r hr, hl r hr]
  · intro hr
    rcases hmem hr with hr | hr
    · exact hu.raw hr
    · exact Or.inr ⟨hint _ hr, h.fresh (hraw hr)⟩
  · intro hr
    rcases hmem hr with hr | hr
    exacts [hu.storage hr, hst hr]
  · intro r hr hroot
    rcases hmem hr with hr | hr
    exacts [hu.base r hr hroot, h.based (hb r hr hroot)]
  · intro r hr
    rcases hmem hr with hr | hr
    · exact (h.owing r hr).mono fun x hx => by
        rw [← List.append_assoc]
        exact List.mem_append_left _ hx
    · exact Or.inl (List.mem_append_right _ (List.mem_append_right _ hr))

theorem World.mem_settle {rs' : List DeploymentResource} :
    r ∈ (w.settle rs').outstanding ↔ r ∈ w.outstanding ∧ r ∉ rs' := by
  simp [World.settle]

/-- Confirming that resources are gone only takes obligations away. -/
theorem Underway.settle (hu : Underway d t w) (rs' : List DeploymentResource) :
    Underway d t (w.settle rs') where
  live := hu.live
  target := hu.target
  ours r hr := hu.ours r (World.mem_settle.mp hr).1
  known := hu.known
  covered r hr := hu.covered r (World.mem_settle.mp hr).1
  pending r hr := hu.pending r (World.mem_settle.mp hr).1
  kept r hr := hu.kept r (World.mem_settle.mp hr).1
  history := hu.history
  idle := hu.idle
  raw hr := hu.raw (World.mem_settle.mp hr).1
  storage hr := hu.storage (World.mem_settle.mp hr).1
  settings := hu.settings
  base r hr := hu.base r (World.mem_settle.mp hr).1
  image := hu.image
  imageFirst := hu.imageFirst
  imageDue := hu.imageDue
  intendedFirst := hu.intendedFirst

theorem At.settle (h : At d t k rs extra w) (rs' : List DeploymentResource) :
    At d t k rs extra (w.settle rs') where
  underway := h.underway.settle rs'
  intended := h.intended
  below := h.below
  based := h.based
  owing r hr := h.owing r (World.mem_settle.mp hr).1

/-- Nothing of the ledger is forgotten by recording a resource under it. -/
theorem ResourceLedger.owns_record {ledger : ResourceLedger} {r r' : DeploymentResource}
    {disposition : ResourceDisposition} (h : ledger.owns r = true) (hne : r' ≠ r) :
    (ledger.record r' disposition).owns r = true := by
  obtain ⟨x, hx, ho⟩ := ResourceLedger.owns_iff.mp h
  refine ResourceLedger.owns_iff.mpr ⟨x, ?_, ho⟩
  rw [ResourceLedger.disposition_record_ne hne.symm, hx]

theorem ResourceLedger.owns_mem {ledger : ResourceLedger} {r : DeploymentResource}
    (h : ledger.owns r = true) : r ∈ ledger.resources := by
  obtain ⟨x, hx, -⟩ := ResourceLedger.owns_iff.mp h
  exact ResourceLedger.mem_of_disposition hx

theorem filter_notMem_self (xs : List DeploymentResource) : xs.filter (· ∉ xs) = [] := by
  rw [List.filter_eq_nil_iff]
  intro x hx
  simpa using hx

theorem World.setReport_known {report : ApplyReport} (h : w.recorded = w.report.ledger.resources)
    (hr : report.ledger = w.report.ledger) : (w.setReport report).recorded = w.recorded := by
  show w.recorded ++ report.ledger.resources.filter (· ∉ w.recorded) = w.recorded
  rw [hr, h, filter_notMem_self, List.append_nil]

theorem World.setReport_recorded {report : ApplyReport} (h : w.recorded = w.report.ledger.resources)
    (hr : report.ledger.resources = if r ∈ w.report.ledger.resources then w.report.ledger.resources
      else w.report.ledger.resources ++ [r]) :
    (w.setReport report).recorded = report.ledger.resources := by
  show w.recorded ++ report.ledger.resources.filter (· ∉ w.recorded) = report.ledger.resources
  rw [h, hr]
  by_cases hm : r ∈ w.report.ledger.resources
  · rw [if_pos hm, filter_notMem_self, List.append_nil]
  · rw [if_neg hm, List.filter_append, filter_notMem_self, List.nil_append]
    simp [hm]

/-- What recording a resource must respect. -/
structure Recordable (d : Deployer) (t : MachineName) (k : ℕ) (rs : List DeploymentResource)
    (r : DeploymentResource) (disposition : ResourceDisposition) (w : World) : Prop where
  fresh : k ≤ r.rank
  ours : r.target = t
  untouched : disposition = .preExisting → r ∉ w.outstanding
  raw : r = .rawConfigurationMount t → w.rawMountTarget.isSome = true
  created : r = .externalImage t → disposition = .created
  image : r = .nspawnConfig t → .externalImage t ∈ rs → .externalImage t ∈ w.report.ledger.resources
  base : d.baseRank ≤ r.rank + 1 → d.baseRank ≤ k ∨ r = d.base t ∧ disposition.isOwned = true

theorem At.record {disposition : ResourceDisposition} {report : ApplyReport} {w' : World}
    (h : At d t k rs extra w) (hr : Recordable d t k rs r disposition w)
    (hw' : w' = { w.setReport report with settingsForeign := w'.settingsForeign })
    (htar : report.target = t) (hled : report.ledger = w.report.ledger.record r disposition)
    (hset : w'.settingsForeign = true → report.externalImageBlockers ≠ []) :
    At d t (r.rank + 1) rs (extra.filter (· ≠ r)) w' := by
  have hu := h.underway
  have hnew : r ∉ w.report.ledger.resources := h.fresh hr.fresh
  have hres : report.ledger.resources = w.report.ledger.resources ++ [r] := by
    rw [hled, ResourceLedger.resources_record, if_neg hnew]
  have hout : w'.outstanding = w.outstanding := by rw [hw']; rfl
  have hint : w'.intended = w.intended := by rw [hw']; rfl
  have hrep : w'.report = report := by rw [hw']; rfl
  have hraw : w'.rawMountTarget = w.rawMountTarget := by rw [hw']; rfl
  have hmono : ∀ x ∈ w.report.ledger.resources, x ∈ report.ledger.resources := by
    intro x hx
    rw [hres]
    exact List.mem_append_left _ hx
  have howns : w.report.ledger.owns (d.base t) = true → report.ledger.owns (d.base t) = true := by
    intro ho
    rw [hled]
    refine ResourceLedger.owns_record ho ?_
    rintro rfl
    exact hnew (ResourceLedger.owns_mem ho)
  refine ⟨⟨?_, ?_, ?_, ?_, ?_, ?_, ?_, ?_, ?_, ?_, ?_, ?_, ?_, ?_, ?_, ?_, ?_⟩, ?_, ?_, ?_, ?_⟩
  · rw [hw']; exact hu.live
  · rw [hrep]; exact htar
  · rw [hout]; exact hu.ours
  · rw [hrep, hint, hres]
    intro x hx
    rw [List.append_assoc, List.mem_append, List.mem_append, List.mem_singleton] at hx
    rcases hx with hx | rfl | hx
    exacts [hu.known x (List.mem_append_left _ hx), hr.ours, hu.known x (List.mem_append_right _ hx)]
  · rw [Covered, hout, show w'.recoveryResources = w.recoveryResources by rw [hw']; rfl]
    exact hu.covered
  · rw [hout, hrep, hint]
    intro x hx
    refine (hu.pending x hx).mono fun y hy => ?_
    rcases List.mem_append.mp hy with hy | hy
    exacts [List.mem_append_left _ (hmono y hy), List.mem_append_right _ hy]
  · rw [hout, hrep, hled]
    intro x hx
    by_cases hxr : x = r
    · subst hxr
      rw [ResourceLedger.disposition_record_self]
      intro he
      exact hr.untouched (Option.some.inj he) hx
    · rw [ResourceLedger.disposition_record_ne hxr]
      exact hu.kept x hx
  · rw [hrep, show w'.recorded = (w.setReport report).recorded by rw [hw']]
    exact World.setReport_recorded hu.history (by rw [hled, ResourceLedger.resources_record])
  · rw [hw']; exact hu.idle
  · rw [hout, hraw, hint, hrep]
    intro hx
    by_cases hxr : r = .rawConfigurationMount t
    · exact Or.inl (hr.raw hxr)
    · rcases hu.raw hx with hx | ⟨hx, hl⟩
      · exact Or.inl hx
      · refine Or.inr ⟨hx, ?_⟩
        rw [hres, List.mem_append, List.mem_singleton]
        rintro (hx | hx)
        exacts [hl hx, hxr hx.symm]
  · rw [hout, show w'.storageMountAttempted = w.storageMountAttempted by rw [hw']; rfl]
    exact hu.storage
  · rw [hrep]; exact hset
  · rw [hout, hrep]
    intro x hx hroot
    exact howns (hu.base x hx hroot)
  · rw [hrep, hled]
    by_cases hri : r = .externalImage t
    · rw [← hri, ResourceLedger.disposition_record_self, hr.created hri]
      rintro ⟨⟩
    · rw [ResourceLedger.disposition_record_ne (Ne.symm hri)]
      exact hu.image
  · rw [hrep, hres]
    refine hu.imageFirst.snoc ?_
    rintro rfl
    refine h.fresh (Nat.le_trans hr.fresh ?_)
    show 2 ≤ 8
    omega
  · rw [hint, hrep, hres, List.mem_append, List.mem_append, List.mem_singleton]
    rintro hx (hn | hn)
    · exact Or.inl (hu.imageDue hx hn)
    · exact Or.inl (hr.image hn.symm (h.intended ▸ hx))
  · rw [hint]; exact hu.intendedFirst
  · rw [hint]; exact h.intended
  · rw [hrep, hres]
    intro x hx
    rcases List.mem_append.mp hx with hx | hx
    · have := h.below x hx
      have := hr.fresh
      omega
    · rw [List.mem_singleton.mp hx]
      omega
  · rw [hrep]
    intro hb
    rcases hr.base hb with hb | ⟨rfl, ho⟩
    · exact howns (h.based hb)
    · rw [hled]
      exact ResourceLedger.owns_iff.mpr ⟨_, ResourceLedger.disposition_record_self, ho⟩
  · rw [hout, hrep, hres]
    intro x hx
    refine (h.owing x hx).mono fun y hy => ?_
    by_cases hyr : y = r
    · simp [hyr]
    · rcases List.mem_append.mp hy with hy | hy
      · exact List.mem_append_left _ (List.mem_append_left _ hy)
      · refine List.mem_append_right _ (List.mem_filter.mpr ⟨hy, ?_⟩)
        simpa using hyr

end Elementary

end Lasper.Provisioning
