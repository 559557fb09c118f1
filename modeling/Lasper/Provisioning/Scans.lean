import Lasper.Provisioning.Releases

/-! The reservations of unfinished deployments. A scan that ends well leaves one for each
manifest that it read; a scan that fails only loses those whose manifest is gone.
Every reservation that is alive has one owner, whoever is at work. -/

namespace Lasper.Provisioning.Unresolved

open Lib Operations
open Jobs (DeploymentError)

variable {debugText : ResourceKey → String} {s t : System} {action : Action} {actions : List Action}

section Reconcile

variable {manifests : List ManifestDocument} {desired desired' : Desired} {recovered kept : RecoveredClaims}
  {visit : Visit} {iter : Iteration DeploymentId ResourceClaim} {scan : ScanPhase}

/-- The claim of the manifest of a deployment. -/
def Wanted (manifests : List ManifestDocument) (id : DeploymentId) (claim : ResourceClaim) : Prop :=
  ∃ manifest ∈ manifests, manifest.deploymentId = id ∧ manifest.recoveryClaim = claim

theorem foldlM_insertDesired (h : manifests.foldlM insertDesired desired = .ok desired') :
    (manifests.map (·.deploymentId)).Nodup ∧ (∀ manifest ∈ manifests, manifest.deploymentId ∉ desired) ∧
      ∀ id claim, desired'.lookup id = some claim ↔ desired.lookup id = some claim ∨ Wanted manifests id claim := by
  induction manifests generalizing desired with
  | nil =>
    cases h
    simp [Wanted]
  | cons manifest manifests ih =>
    rw [List.foldlM_cons, insertDesired] at h
    split_ifs at h with hmem
    · cases h
    · obtain ⟨hnodup, hfresh, hlookup⟩ := ih h
      have hne : ∀ other ∈ manifests, other.deploymentId ≠ manifest.deploymentId ∧ other.deploymentId ∉ desired := by
        intro other hother
        have := hfresh other hother
        rw [AList.mem_insert, not_or] at this
        exact this
      refine ⟨?_, ?_, ?_⟩
      · rw [List.map_cons, List.nodup_cons]
        refine ⟨?_, hnodup⟩
        intro hin
        obtain ⟨other, hother, heq⟩ := List.mem_map.mp hin
        exact (hne other hother).1 heq
      · intro other hother
        rcases List.mem_cons.mp hother with rfl | hother
        · exact hmem
        · exact (hne other hother).2
      · intro id claim
        rw [hlookup, Table.lookup_insert_ite]
        by_cases hid : id = manifest.deploymentId
        · subst hid
          have hnone : desired.lookup manifest.deploymentId = none := AList.lookup_eq_none.mpr hmem
          simp [hnone, Wanted]
        · have hid' : manifest.deploymentId ≠ id := fun heq => hid heq.symm
          simp [hid, hid', Wanted]

theorem mem_desired (h : manifests.foldlM insertDesired ∅ = .ok desired) (id : DeploymentId) :
    id ∈ desired ↔ ∃ manifest ∈ manifests, manifest.deploymentId = id := by
  obtain ⟨-, -, hlookup⟩ := foldlM_insertDesired h
  constructor
  · intro hmem
    obtain ⟨claim, hclaim⟩ := Table.lookup_of_mem hmem
    rcases (hlookup id claim).mp hclaim with hold | ⟨manifest, hmanifest, hid, -⟩
    · cases hold
    · exact ⟨manifest, hmanifest, hid⟩
  · intro ⟨manifest, hmanifest, hid⟩
    exact Table.mem_of_lookup ((hlookup id _).mpr (.inr ⟨manifest, hmanifest, hid, rfl⟩))

theorem reconcile_ok (h : reconcile visit iter recovered manifests = .ok (kept, scan)) :
    ∃ desired, manifests.foldlM insertDesired ∅ = .ok desired ∧
      (∀ entry ∈ recovered.entries, changedResource desired entry = false) ∧
      kept = recovered.retainMut (keepDesired desired) ∧
      scan = .working ((recovered.entries.filter fun entry => entry.1 ∉ desired).map (·.2.reservation))
        { manifests, pending := (iter.order desired.entries).filter fun entry => entry.1 ∉ kept } := by
  unfold reconcile at h
  cases hdesired : manifests.foldlM insertDesired ∅ with
  | error error =>
    rw [hdesired] at h
    cases h
  | ok desired =>
    rw [hdesired] at h
    simp only [bind, Except.bind] at h
    split at h
    · cases h
    · rename_i hfind
      cases h
      refine ⟨desired, rfl, ?_, rfl, rfl⟩
      intro entry hentry
      have := List.find?_eq_none.mp hfind entry ((visit.perm _).mem_iff.mpr hentry)
      simpa using this

end Reconcile

section Scanning

/-- A failed scan has added nothing, and has lost what no manifest mentions. -/
def FailedScan (before : RecoveredClaims) (view : Option (List ManifestDocument)) (recovered : RecoveredClaims) :
    Prop :=
  ∀ id found, (recovered.lookup id = some found → before.lookup id = some found) ∧
    (before.lookup id = some found → recovered.lookup id = some found ∨
      ∃ manifests, view = some manifests ∧ ∀ manifest ∈ manifests, manifest.deploymentId ≠ id)

/-- One reservation for each manifest, with its recovery claim. -/
structure Recovered (recovered : RecoveredClaims) (manifests : List ManifestDocument) : Prop where
  distinct : (manifests.map (·.deploymentId)).Nodup
  claimed : ∀ id claim, (∃ found, recovered.lookup id = some found ∧ found.claim = claim) ↔ Wanted manifests id claim
  granted : ∀ id found, recovered.lookup id = some found → found.reservation.claims = [found.claim]
  len : recovered.len = manifests.length

/-- A scan that has reserved some of what the manifests want. -/
structure Working (recovered before : RecoveredClaims) (scanning : Scanning) : Prop where
  distinct : (scanning.manifests.map (·.deploymentId)).Nodup
  kept : ∀ id found, recovered.lookup id = some found ↔
    before.lookup id = some found ∧ ∃ manifest ∈ scanning.manifests, manifest.deploymentId = id
  wanted : ∀ id claim, Wanted scanning.manifests id claim ↔
    (∃ found, recovered.lookup id = some found ∧ found.claim = claim) ∨ ⟨id, claim⟩ ∈ scanning.pending ∨
      ∃ found, ⟨id, found⟩ ∈ scanning.additions ∧ found.claim = claim
  keys : (scanning.pending.keys ++ scanning.additions.keys).Nodup
  fresh : ∀ id ∈ scanning.pending.keys ++ scanning.additions.keys, id ∉ recovered
  granted : ∀ entry ∈ scanning.additions, entry.2.reservation.claims = [entry.2.claim]

structure Scanned (s : System) : Prop where
  granted : ∀ id found, s.recovered.lookup id = some found → found.reservation.claims = [found.claim]
  reading : s.scan = .reading → s.recovered = s.before
  working : ∀ doomed scanning, s.scan = .working doomed scanning →
    s.view = some scanning.manifests ∧ Working s.recovered s.before scanning
  failing : ∀ doomed error, s.scan = .failing doomed error → FailedScan s.before s.view s.recovered

variable {recovered kept before : RecoveredClaims} {manifests : List ManifestDocument} {desired : Desired}
  {scanning : Scanning} {id : DeploymentId} {claim : ResourceClaim}

theorem lookup_kept (id : DeploymentId) :
    (recovered.retainMut (keepDesired desired)).lookup id = if id ∈ desired then recovered.lookup id else none := by
  rw [Table.lookup_retainMut]
  unfold keepDesired
  by_cases hid : id ∈ desired
  · simp [hid]
  · simp [hid]

/-- What `reconcile` hands on. -/
theorem Working.start (iter : Iteration DeploymentId ResourceClaim)
    (hdesired : manifests.foldlM insertDesired ∅ = .ok desired)
    (hsame : ∀ entry ∈ recovered.entries, changedResource desired entry = false)
    (hkept : kept = recovered.retainMut (keepDesired desired)) :
    Working kept recovered
      { manifests, pending := (iter.order desired.entries).filter fun entry => entry.1 ∉ kept } := by
  subst hkept
  obtain ⟨hdistinct, -, hlookup⟩ := foldlM_insertDesired hdesired
  have hwanted : ∀ id claim, Wanted manifests id claim ↔ desired.lookup id = some claim := by
    intro id claim
    rw [hlookup]
    simp
  have hunchanged : ∀ id found claim, recovered.lookup id = some found → desired.lookup id = some claim →
      claim = found.claim := by
    intro id found claim hfound hclaim
    have := hsame ⟨id, found⟩ (AList.mem_lookup_iff.mp hfound)
    simpa [changedResource, hclaim] using this
  have hmem := mem_desired hdesired
  constructor
  · exact hdistinct
  · intro id found
    rw [lookup_kept, ← hmem]
    by_cases hid : id ∈ desired
    · simp [hid]
    · simp [hid]
  · intro id claim
    rw [hwanted]
    constructor
    · intro hclaim
      have hid : id ∈ desired := Table.mem_of_lookup hclaim
      by_cases hk : id ∈ recovered.retainMut (keepDesired desired)
      · obtain ⟨found, hfound⟩ := Table.lookup_of_mem hk
        have hold : recovered.lookup id = some found := by
          rw [lookup_kept, if_pos hid] at hfound
          exact hfound
        exact .inl ⟨found, hfound, (hunchanged id found claim hold hclaim).symm⟩
      · refine .inr (.inl (List.mem_filter.mpr ⟨?_, by simpa using hk⟩))
        exact (iter.perm _).mem_iff.mpr (AList.mem_lookup_iff.mp hclaim)
    · rintro (⟨found, hfound, rfl⟩ | hpending | ⟨found, hadded, -⟩)
      · rw [lookup_kept] at hfound
        split_ifs at hfound with hid
        obtain ⟨claim, hclaim⟩ := Table.lookup_of_mem hid
        rw [hclaim, hunchanged id found claim hfound hclaim]
      · exact AList.mem_lookup_iff.mpr ((iter.perm _).mem_iff.mp (List.mem_filter.mp hpending).1)
      · cases hadded
  · have hnodup : (iter.order desired.entries).NodupKeys := (List.perm_nodupKeys (iter.perm _)).mpr desired.nodupKeys
    show (List.keys _ ++ []).Nodup
    rw [List.append_nil]
    exact List.NodupKeys.sublist List.filter_sublist hnodup
  · intro id hid
    simp only [List.keys, List.map_nil, List.append_nil] at hid
    obtain ⟨entry, hentry, rfl⟩ := List.mem_map.mp hid
    simpa using (List.mem_filter.mp hentry).2
  · simp

theorem Working.reserves (h : Working recovered before scanning) {pending : List (Σ _ : DeploymentId, ResourceClaim)}
    (hnext : scanning.pending = ⟨id, claim⟩ :: pending) {grant : Grant} (hgrant : grant.claims = [claim]) :
    Working recovered before
      { scanning with pending, additions := scanning.additions ++ [⟨id, claim, grant⟩] } := by
  have hkeys : (scanning.pending.keys ++ scanning.additions.keys).Perm (List.keys pending ++
      List.keys (scanning.additions ++ [(⟨id, claim, grant⟩ : Σ _ : DeploymentId, RecoveredDeploymentClaim)])) := by
    rw [hnext]
    simp only [List.keys, List.map_cons, List.map_append, List.map_nil, List.cons_append]
    rw [← List.append_assoc]
    exact (List.perm_append_singleton _ _).symm
  constructor
  · exact h.distinct
  · exact h.kept
  · intro other wanted
    rw [h.wanted, hnext]
    constructor
    · rintro (hkept | hpending | ⟨found, hadded, rfl⟩)
      · exact .inl hkept
      · rcases List.mem_cons.mp hpending with heq | hrest
        · cases heq
          exact .inr (.inr ⟨⟨claim, grant⟩, List.mem_append_right _ (List.mem_singleton_self _), rfl⟩)
        · exact .inr (.inl hrest)
      · exact .inr (.inr ⟨found, List.mem_append_left _ hadded, rfl⟩)
    · rintro (hkept | hpending | ⟨found, hadded, rfl⟩)
      · exact .inl hkept
      · exact .inr (.inl (List.mem_cons_of_mem _ hpending))
      · rcases List.mem_append.mp hadded with hold | hnew
        · exact .inr (.inr ⟨found, hold, rfl⟩)
        · cases List.mem_singleton.mp hnew
          exact .inr (.inl List.mem_cons_self)
  · exact hkeys.nodup_iff.mp h.keys
  · intro other hother
    exact h.fresh other (hkeys.mem_iff.mpr hother)
  · intro entry hentry
    rcases List.mem_append.mp hentry with hold | hnew
    · exact h.granted entry hold
    · cases List.mem_singleton.mp hnew
      exact hgrant

theorem Working.fails (h : Working recovered before scanning) :
    FailedScan before (some scanning.manifests) recovered := by
  intro id found
  refine ⟨fun hfound => ((h.kept id found).mp hfound).1, fun hfound => ?_⟩
  by_cases hid : ∃ manifest ∈ scanning.manifests, manifest.deploymentId = id
  · exact .inl ((h.kept id found).mpr ⟨hfound, hid⟩)
  · refine .inr ⟨_, rfl, ?_⟩
    intro manifest hmanifest heq
    exact hid ⟨manifest, hmanifest, heq⟩

theorem Working.lookup_extend (h : Working recovered before scanning) (hcomplete : scanning.pending = [])
    (id : DeploymentId) (found : RecoveredDeploymentClaim) :
    (recovered.extend scanning.additions).lookup id = some found ↔
      recovered.lookup id = some found ∨ ⟨id, found⟩ ∈ scanning.additions := by
  have hkeys := h.keys
  have hfresh := h.fresh
  rw [hcomplete, List.keys_nil, List.nil_append] at hkeys hfresh
  exact Table.lookup_extend hkeys (fun entry hentry => hfresh _ (List.mem_map_of_mem hentry)) id found

/-- When nothing is pending, the map has what the manifests want. -/
theorem Working.ends (h : Working recovered before scanning) (hcomplete : scanning.pending = [])
    (hgranted : ∀ id found, recovered.lookup id = some found → found.reservation.claims = [found.claim]) :
    Recovered (recovered.extend scanning.additions) scanning.manifests := by
  have hlookup := h.lookup_extend hcomplete
  have hclaimed : ∀ id claim, (∃ found, (recovered.extend scanning.additions).lookup id = some found ∧
      found.claim = claim) ↔ Wanted scanning.manifests id claim := by
    intro id claim
    rw [h.wanted, hcomplete]
    simp only [hlookup, List.not_mem_nil, false_or, or_and_right, exists_or]
  refine ⟨h.distinct, hclaimed, ?_, ?_⟩
  · intro id found hfound
    rcases (hlookup id found).mp hfound with hold | hnew
    · exact hgranted id found hold
    · exact h.granted _ hnew
  · have hperm : (recovered.extend scanning.additions).keys.Perm (scanning.manifests.map (·.deploymentId)) := by
      apply (List.perm_ext_iff_of_nodup (AList.keys_nodup _) h.distinct).mpr
      intro id
      rw [← AList.mem_keys, List.mem_map]
      constructor
      · intro hmem
        obtain ⟨found, hfound⟩ := Table.lookup_of_mem hmem
        obtain ⟨manifest, hmanifest, hid, -⟩ := (hclaimed id found.claim).mp ⟨found, hfound, rfl⟩
        exact ⟨manifest, hmanifest, hid⟩
      · intro ⟨manifest, hmanifest, hid⟩
        obtain ⟨found, hfound, -⟩ := (hclaimed id manifest.recoveryClaim).mpr ⟨manifest, hmanifest, hid, rfl⟩
        exact Table.mem_of_lookup hfound
    have hlen := hperm.length_eq
    rw [List.length_map] at hlen
    exact hlen

theorem Scanned.start : Scanned {} := by
  constructor
  · intro id found hfound
    cases hfound
  · intro hreading
    cases hreading
  · intro doomed scanning hworking
    cases hworking
  · intro doomed error hfailing
    cases hfailing

/-- A scan in another phase. -/
theorem Scanned.of_phase (hgranted : ∀ id found, t.recovered.lookup id = some found →
      found.reservation.claims = [found.claim])
    (hphase : match t.scan with
      | .idle => True
      | .reading => t.recovered = t.before
      | .working _ scanning => t.view = some scanning.manifests ∧ Working t.recovered t.before scanning
      | .failing _ _ => FailedScan t.before t.view t.recovered) : Scanned t := by
  refine ⟨hgranted, ?_, ?_, ?_⟩
  · intro hreading
    rw [hreading] at hphase
    exact hphase
  · intro doomed scanning hworking
    rw [hworking] at hphase
    exact hphase
  · intro doomed error hfailing
    rw [hfailing] at hphase
    exact hphase

theorem reserveGrant_ok {iter : Iteration ResourceKey ResourceAccess} {claims : List ResourceClaim} {grant : Grant}
    {operations operations' : Operations.System}
    (h : reserveGrant debugText iter claims operations = (.ok grant, operations')) :
    grant.claims = canonicalize debugText iter claims ∧ operations'.live = operations.live ++ [grant] := by
  unfold reserveGrant at h
  split at h
  · cases h
    exact ⟨rfl, rfl⟩
  · cases h

theorem reserveGrant_error {iter : Iteration ResourceKey ResourceAccess} {claims : List ResourceClaim}
    {conflict : ResourceConflict} {operations operations' : Operations.System}
    (h : reserveGrant debugText iter claims operations = (.error conflict, operations')) :
    operations'.live = operations.live := by
  unfold reserveGrant at h
  split at h
  · cases h
  · cases h
    rfl

theorem Step.scanned (hs : Step debugText s action t) (h : Scanned s) : Scanned t := by
  cases hs with
  | scan unlocked => exact .of_phase h.granted rfl
  | scanUnread reading =>
    apply Scanned.of_phase
    · exact h.granted
    · show FailedScan s.before s.view s.recovered
      rw [h.reading reading]
      exact fun id found => ⟨fun hfound => hfound, .inl⟩
  | @scanRefused visit iter manifests error reading refused =>
    apply Scanned.of_phase
    · exact h.granted
    · show FailedScan s.before (some manifests) s.recovered
      rw [h.reading reading]
      exact fun id found => ⟨fun hfound => hfound, .inl⟩
  | @scanRead visit iter manifests recovered scan reading reconciled =>
    obtain ⟨desired, hdesired, hsame, hkept, rfl⟩ := reconcile_ok reconciled
    have hworking := Working.start iter hdesired hsame hkept
    rw [h.reading reading] at hworking
    apply Scanned.of_phase
    · intro id found hfound
      apply h.granted id found
      rw [h.reading reading]
      exact ((hworking.kept id found).mp hfound).1
    · exact ⟨rfl, hworking⟩
  | @dropWorking grant doomed scanning working => exact .of_phase h.granted (h.working _ _ working)
  | @dropFailing grant doomed error failing => exact .of_phase h.granted (h.failing _ _ failing)
  | @scanReserve iter scanning id claim pending result operations working next asked =>
    obtain ⟨hview, hworking⟩ := h.working _ _ working
    apply Scanned.of_phase
    · exact h.granted
    · cases result with
      | ok grant =>
        obtain ⟨hclaims, -⟩ := reserveGrant_ok asked
        rw [canonicalize_singleton] at hclaims
        exact ⟨hview, hworking.reserves next hclaims⟩
      | error conflict =>
        show FailedScan s.before s.view s.recovered
        rw [hview]
        exact hworking.fails
  | @scanEnd scanning working complete =>
    obtain ⟨-, hworking⟩ := h.working _ _ working
    exact .of_phase (hworking.ends complete h.granted).granted trivial
  | scanFailed failing => exact .of_phase h.granted trivial
  | _ => exact ⟨h.granted, h.reading, h.working, h.failing⟩

theorem run_scanned (h : Run (Step debugText) {} actions s) : Scanned s :=
  h.invariant .start fun _ _ _ hscanned hstep => hstep.scanned hscanned

end Scanning

section Owners

/-- Who owns which reservation. -/
def System.owned (s : System) : List Grant :=
  s.unresolved.gather (fun claim => [claim.reservation]) ++ s.recovered.gather (fun found => [found.reservation]) ++
    s.calls.gather ReleaseCall.grants ++ s.scan.grants ++ s.foreign

/-- Every reservation that is alive has an owner, and only one. -/
def Accounted (s : System) : Prop := ∀ grant, s.operations.live.count grant = s.owned.count grant

theorem count_owned (s : System) (grant : Grant) : s.owned.count grant =
    (s.unresolved.gather fun claim => [claim.reservation]).count grant +
      (s.recovered.gather fun found => [found.reservation]).count grant +
      (s.calls.gather ReleaseCall.grants).count grant + s.scan.grants.count grant + s.foreign.count grant := by
  unfold System.owned
  simp only [List.count_append]

theorem count_update (change : RetainedDeploymentClaim → RetainedDeploymentClaim) (claims : UnresolvedClaims)
    (id : DeploymentId) (hchange : ∀ claim, (change claim).reservation = claim.reservation) (grant : Grant) :
    ((update change claims id).gather fun claim => [claim.reservation]).count grant =
      (claims.gather fun claim => [claim.reservation]).count grant := by
  unfold update
  cases hl : claims.lookup id with
  | none => rfl
  | some claim =>
    have herase := Table.count_gather_erase (fun claim : RetainedDeploymentClaim => [claim.reservation]) hl grant
    have hinsert := Table.count_gather_insert (fun claim : RetainedDeploymentClaim => [claim.reservation]) claims id
      (change claim) grant
    rw [hchange] at hinsert
    dsimp only at hinsert ⊢
    omega

theorem count_beginRelease (claims : UnresolvedClaims) (id : DeploymentId) (confirmed : Bool) (grant : Grant) :
    ((beginRelease claims id confirmed).2.gather fun claim => [claim.reservation]).count grant =
      (claims.gather fun claim => [claim.reservation]).count grant := by
  rcases beginRelease_eq claims id confirmed with ⟨error, heq⟩ | ⟨claim, hclaim, -, -, heq⟩
  · rw [heq]
  · rw [heq]
    have hupdate := count_update (fun claim => { claim with releaseInProgress := true }) claims id (fun _ => rfl) grant
    rw [update, hclaim] at hupdate
    exact hupdate

/-- The reservations of the calls, after a step of one of them. -/
theorem count_setCall {n : ℕ} {call : ReleaseCall} (hn : s.calls.lookup n = some call) (hcalls : t.calls = s.calls)
    (id : DeploymentId) (phase : ReleasePhase) (grant : Grant) :
    ((t.setCall n id phase).calls.gather ReleaseCall.grants).count grant + call.grants.count grant =
      (s.calls.gather ReleaseCall.grants).count grant + (ReleaseCall.grants ⟨id, phase⟩).count grant := by
  have herase := Table.count_gather_erase ReleaseCall.grants hn grant
  have hinsert := Table.count_gather_insert ReleaseCall.grants s.calls n ⟨id, phase⟩ grant
  rw [System.setCall, hcalls]
  dsimp only
  omega

/-- What stays in the map and what is to be dropped. -/
theorem count_kept (recovered : RecoveredClaims) (desired : Desired) (grant : Grant) :
    (Table.gather (fun found => [found.reservation]) (recovered.retainMut (keepDesired desired))).count grant +
      ((recovered.entries.filter fun entry => entry.1 ∉ desired).map (·.2.reservation)).count grant =
      (recovered.gather fun found => [found.reservation]).count grant := by
  show (List.flatMap _ (List.map _ (List.filterMap _ recovered.entries))).count grant + _ =
    (List.flatMap _ (List.map _ recovered.entries)).count grant
  generalize recovered.entries = entries
  induction entries with
  | nil => rfl
  | cons entry entries ih =>
    by_cases hentry : entry.1 ∈ desired
    · simp only [List.filterMap_cons, Table.keepEntry, keepDesired, hentry, if_true, Option.map_some, List.map_cons,
        List.flatMap_cons, List.filter_cons, not_true, decide_false, Bool.false_eq_true, if_false, List.count_append] at ih ⊢
      omega
    · simp only [List.filterMap_cons, Table.keepEntry, keepDesired, hentry, if_false, Option.map_none, List.map_cons,
        List.flatMap_cons, List.filter_cons, not_false_eq_true, decide_true, if_true, List.count_append,
        List.count_cons, List.count_nil] at ih ⊢
      omega

theorem count_erase_singleton (grants : List Grant) (old grant : Grant) :
    (grants.erase old).count grant = grants.count grant - [old].count grant := by
  rw [List.count_erase, List.count_singleton]

theorem count_erase_add {grants : List Grant} {old : Grant} (h : old ∈ grants) (grant : Grant) :
    (grants.erase old).count grant + [old].count grant = grants.count grant := by
  have hpos := List.count_pos_iff.mpr h
  rw [List.count_erase, List.count_singleton]
  split_ifs with heq
  · have heq : old = grant := by simpa using heq
    subst heq
    omega
  · omega

theorem Accounted.start : Accounted {} := fun _ => rfl

/-- A step of a call that holds no reservation, before and after it. -/
theorem Accounted.of_call (h : Accounted s) {n : ℕ} {call : ReleaseCall} {id : DeploymentId} {phase : ReleasePhase}
    (hn : s.calls.lookup n = some call) (hbefore : call.grants = []) (hafter : ReleaseCall.grants ⟨id, phase⟩ = [])
    {claims : UnresolvedClaims} {authorized : List DeploymentId}
    (hclaims : ∀ grant, (claims.gather fun claim => [claim.reservation]).count grant =
      (s.unresolved.gather fun claim => [claim.reservation]).count grant) :
    Accounted ({ s with unresolved := claims, authorized }.setCall n id phase) := by
  intro grant
  have hold := h grant
  have hsame := hclaims grant
  have hcalls := count_setCall (t := { s with unresolved := claims, authorized }) hn rfl id phase grant
  rw [count_owned] at hold ⊢
  rw [hbefore, hafter] at hcalls
  dsimp only [System.setCall] at hcalls ⊢
  omega

theorem discard_grants (id : DeploymentId) (revision : Option ℕ) : ReleaseCall.grants ⟨id, discard revision⟩ = [] := by
  cases revision <;> rfl

/-- A step leaves every living reservation with one owner. -/
theorem Step.accounted (hs : Step debugText s action t) (hstages : ∀ id, Stage s id) (hscanned : Scanned s)
    (h : Accounted s) : Accounted t := by
  cases hs with
  | @reserve iter claims new operations granted =>
    intro grant
    have hold := h grant
    rw [count_owned] at hold ⊢
    obtain ⟨-, hlive⟩ := reserveGrant_ok granted
    simp only [hlive, List.count_append]
    omega
  | @drop old held =>
    intro grant
    have hold := h grant
    rw [count_owned] at hold ⊢
    have hforeign := count_erase_add held grant
    have hlive := count_erase_singleton s.operations.live old grant
    dsimp only [dropGrant]
    omega
  | @retain id new held fresh =>
    intro grant
    have hold := h grant
    rw [count_owned] at hold ⊢
    have hforeign := count_erase_add held grant
    have hgone : id ∉ s.unresolved := by
      intro hmem
      obtain ⟨claim, hclaim⟩ := Table.lookup_of_mem hmem
      have hnone : s.retained.lookup id = none := AList.lookup_eq_none.mpr fresh
      cases hstages id with
      | unseen fresh gone => simp [gone] at hclaim
      | free seen => simp [hnone] at seen
      | busy seen => simp [hnone] at seen
      | taken seen => simp [hnone] at seen
      | released seen => simp [hnone] at seen
    have hinsert := Table.count_gather_insert (fun claim : RetainedDeploymentClaim => [claim.reservation])
      s.unresolved id { reservation := new } grant
    rw [Table.erase_of_notMem hgone] at hinsert
    dsimp only at hinsert ⊢
    omega
  | @release n id confirmed fresh =>
    intro grant
    have hold := h grant
    rw [count_owned] at hold ⊢
    have hclaims := count_beginRelease s.unresolved id confirmed grant
    have hinsert := Table.count_gather_insert ReleaseCall.grants s.calls n
      ⟨id, beganPhase (beginRelease s.unresolved id confirmed).1⟩ grant
    have hnone : ReleaseCall.grants ⟨id, beganPhase (beginRelease s.unresolved id confirmed).1⟩ = [] := by
      cases (beginRelease s.unresolved id confirmed).1 <;> rfl
    rw [Table.erase_of_notMem fresh, hnone, List.count_nil] at hinsert
    dsimp only [System.setCall] at hclaims hinsert ⊢
    omega
  | readFailed call => exact h.of_call call rfl rfl (count_update _ _ _ fun _ => rfl)
  | @read n id releaseAuthority manifests call =>
    apply h.of_call call rfl _ fun _ => rfl
    split
    · rfl
    · exact discard_grants _ _
  | authorityFailed call => exact h.of_call call rfl rfl (count_update _ _ _ fun _ => rfl)
  | authority call => exact h.of_call call rfl (discard_grants _ _) (count_update _ _ _ fun _ => rfl)
  | removeFailed call => exact h.of_call call rfl rfl (count_update _ _ _ fun _ => rfl)
  | remove call => exact h.of_call call rfl rfl fun _ => rfl
  | takeFailed call => exact h.of_call call rfl rfl fun _ => rfl
  | @take n id claim call found =>
    intro grant
    have hold := h grant
    rw [count_owned] at hold ⊢
    have herase := Table.count_gather_erase (fun claim : RetainedDeploymentClaim => [claim.reservation]) found grant
    have hcalls := count_setCall (t := s) call rfl id (.dropping claim) grant
    dsimp only [System.setCall, ReleaseCall.grants] at herase hcalls ⊢
    rw [List.count_nil] at hcalls
    omega
  | @finish n id claim call =>
    intro grant
    have hold := h grant
    rw [count_owned] at hold ⊢
    have hlive := count_erase_singleton s.operations.live claim.reservation grant
    have hcalls := count_setCall (t := s) call rfl id (.returned (.ok ())) grant
    dsimp only [System.setCall, ReleaseCall.grants, dropGrant] at hlive hcalls ⊢
    rw [List.count_nil] at hcalls
    omega
  | @scan unlocked =>
    intro grant
    have hold := h grant
    rw [count_owned, unlocked] at hold
    rw [count_owned]
    exact hold
  | @scanUnread visit iter error reading =>
    intro grant
    have hold := h grant
    rw [count_owned, reading] at hold
    rw [count_owned]
    exact hold
  | @scanRefused visit iter manifests error reading refused =>
    intro grant
    have hold := h grant
    rw [count_owned, reading] at hold
    rw [count_owned]
    exact hold
  | @scanRead visit iter manifests recovered scan reading reconciled =>
    obtain ⟨desired, hdesired, hsame, rfl, rfl⟩ := reconcile_ok reconciled
    intro grant
    have hold := h grant
    rw [count_owned, reading] at hold
    rw [count_owned]
    have hkept := count_kept s.recovered desired grant
    simp only [ScanPhase.grants, List.map_nil, List.append_nil, List.count_nil] at hold ⊢
    omega
  | @dropWorking old doomed scanning working =>
    intro grant
    have hold := h grant
    rw [count_owned, working] at hold
    rw [count_owned]
    have hlive := count_erase_singleton s.operations.live old grant
    simp only [ScanPhase.grants, dropGrant, List.cons_append, List.count_cons, List.count_nil] at hold hlive ⊢
    omega
  | @dropFailing old doomed error failing =>
    intro grant
    have hold := h grant
    rw [count_owned, failing] at hold
    rw [count_owned]
    have hlive := count_erase_singleton s.operations.live old grant
    simp only [ScanPhase.grants, dropGrant, List.count_cons, List.count_nil] at hold hlive ⊢
    omega
  | @scanReserve iter scanning id claim pending result operations working next asked =>
    intro grant
    have hold := h grant
    rw [count_owned, working] at hold
    rw [count_owned]
    cases result with
    | ok new =>
      obtain ⟨-, hlive⟩ := reserveGrant_ok asked
      simp only [ScanPhase.grants, reserved, hlive, List.nil_append, List.map_append, List.map_cons, List.map_nil,
        List.count_append] at hold ⊢
      omega
    | error conflict =>
      have hlive := reserveGrant_error asked
      simp only [ScanPhase.grants, reserved, hlive, List.nil_append] at hold ⊢
      omega
  | @scanEnd scanning working complete =>
    intro grant
    have hold := h grant
    rw [count_owned, working] at hold
    rw [count_owned]
    obtain ⟨-, hworking⟩ := hscanned.working _ _ working
    have hkeys := hworking.keys
    have hfresh := hworking.fresh
    rw [complete, List.keys_nil, List.nil_append] at hkeys hfresh
    have hextend := Table.count_gather_extend (m := s.recovered) (fun found => [found.reservation]) hkeys
      (fun entry hentry => hfresh _ (List.mem_map_of_mem hentry)) grant
    rw [← List.map_eq_flatMap] at hextend
    simp only [ScanPhase.grants, List.nil_append, List.count_nil] at hold ⊢
    omega
  | @scanFailed error failing =>
    intro grant
    have hold := h grant
    rw [count_owned, failing] at hold
    rw [count_owned]
    exact hold

theorem run_accounted (h : Run (Step debugText) {} actions s) : Accounted s := by
  induction h with
  | nil => exact .start
  | snoc hrun hstep ih => exact hstep.accounted (run_stages hrun) (run_scanned hrun) ih

theorem Accounted.mem_live (h : Accounted s) {grant : Grant} (hg : grant ∈ s.owned) : grant ∈ s.operations.live := by
  apply List.count_pos_iff.mp
  rw [h grant]
  exact List.count_pos_iff.mpr hg

theorem dropGrant_step {grant : Grant} {operations : Operations.System} (h : grant ∈ operations.live) :
    Operations.Step debugText operations (.drop grant) (dropGrant grant operations) := by
  obtain ⟨before, after, -, hlive, herase⟩ := List.exists_erase_eq h
  rw [dropGrant, herase]
  exact .dropped hlive

theorem reserveGrant_step {iter : Iteration ResourceKey ResourceAccess} {claims : List ResourceClaim}
    {result : Except ResourceConflict Grant} {operations operations' : Operations.System}
    (h : reserveGrant debugText iter claims operations = (result, operations')) :
    Operations.Step debugText operations (.reserve iter claims) operations' := by
  unfold reserveGrant at h
  split at h
  · rename_i hresult
    cases h
    exact .granted rfl hresult
  · rename_i hresult
    cases h
    exact .refused rfl hresult

/-- To the registry, the service is one holder of reservations among others. -/
theorem Step.operations_step (hs : Step debugText s action t) (h : Accounted s) :
    t.operations = s.operations ∨ ∃ request, Operations.Step debugText s.operations request t.operations := by
  cases hs with
  | reserve granted => exact .inr ⟨_, reserveGrant_step granted⟩
  | drop held =>
    have hlive := h.mem_live (List.mem_append_right _ held)
    exact .inr ⟨_, dropGrant_step hlive⟩
  | @finish n id claim call =>
    have hcalls := Table.count_gather_erase ReleaseCall.grants call claim.reservation
    have hone : (ReleaseCall.grants ⟨id, .dropping claim⟩).count claim.reservation = 1 := List.count_singleton_self
    have howned : claim.reservation ∈ s.owned := by
      apply List.count_pos_iff.mp
      rw [count_owned]
      omega
    exact .inr ⟨_, dropGrant_step (h.mem_live howned)⟩
  | @dropWorking grant doomed scanning working =>
    have howned : grant ∈ s.owned := by
      simp [System.owned, working, ScanPhase.grants]
    exact .inr ⟨_, dropGrant_step (h.mem_live howned)⟩
  | @dropFailing grant doomed error failing =>
    have howned : grant ∈ s.owned := by
      simp [System.owned, failing, ScanPhase.grants]
    exact .inr ⟨_, dropGrant_step (h.mem_live howned)⟩
  | scanReserve working next asked => exact .inr ⟨_, reserveGrant_step asked⟩
  | _ => exact .inl rfl

end Owners

section Failures

/-- A failed call leaves its claim, for another call to take up. -/
structure FailedRelease (s t : System) (n : ℕ) (id : DeploymentId) : Prop where
  holds : ∀ grant, s.Holds id grant → t.Holds id grant
  accepted : n ∈ s.calls → ∃ claim, t.unresolved.lookup id = some claim ∧ claim.releaseInProgress = false
  refused : n ∉ s.calls → t.unresolved = s.unresolved

theorem FailedRelease.of_running (h : ∀ id, Stage s id) {n : ℕ} {id : DeploymentId} {phase : ReleasePhase}
    (hn : s.calls.lookup n = some ⟨id, phase⟩) (hrunning : phase.running = true) (error : DeploymentError) :
    FailedRelease s ({ s with unresolved := endRelease s.unresolved id }.setCall n id (.returned (.error error))) n id := by
  obtain ⟨claim, -, held, -⟩ := (h id).of_running hn hrunning
  have hheld : (endRelease s.unresolved id).lookup id = some { claim with releaseInProgress := false } :=
    (lookup_update _ _ _).trans (by rw [if_pos rfl, held]; rfl)
  constructor
  · intro grant hgrant
    rcases hgrant with ⟨found, hfound, hreservation⟩ | ⟨m, found, hm, -⟩
    · rw [held] at hfound
      cases hfound
      exact .inl ⟨_, hheld, hreservation⟩
    · have hgone := ((h id).of_dropping hm).2.1
      rw [held] at hgone
      cases hgone
  · exact fun _ => ⟨_, hheld, rfl⟩
  · exact fun hfresh => absurd (Table.mem_of_lookup hn) hfresh

theorem Step.failed (hs : Step debugText s action t) (h : ∀ id, Stage s id) {n : ℕ} {id : DeploymentId}
    {error : DeploymentError} (ht : t.calls.lookup n = some ⟨id, .returned (.error error)⟩)
    (hsn : s.calls.lookup n ≠ some ⟨id, .returned (.error error)⟩) : FailedRelease s t n id := by
  have hat : ∀ m other phase (u : System), u.calls = s.calls →
      (u.setCall m other phase).calls.lookup n = some ⟨id, .returned (.error error)⟩ →
      n = m ∧ id = other ∧ phase = .returned (.error error) := by
    intro m other phase u hcalls hlookup
    rw [System.lookup_setCall, hcalls] at hlookup
    split_ifs at hlookup with hnm
    · cases hlookup
      exact ⟨hnm, rfl, rfl⟩
    · exact absurd hlookup hsn
  cases hs with
  | @release m other confirmed fresh =>
    obtain ⟨rfl, rfl, hphase⟩ := hat _ _ _ _ rfl ht
    rcases beginRelease_eq s.unresolved id confirmed with ⟨refusal, heq⟩ | ⟨claim, -, -, -, heq⟩
    · have hsame : (beginRelease s.unresolved id confirmed).2 = s.unresolved := by rw [heq]
      constructor
      · intro grant hgrant
        rcases hgrant with ⟨claim, hclaim, hreservation⟩ | ⟨m, claim, hm, hreservation⟩
        · exact .inl ⟨claim, (congrArg (AList.lookup id) hsame).trans hclaim, hreservation⟩
        · have hne : m ≠ n := fun heq => fresh (heq ▸ Table.mem_of_lookup hm)
          exact .inr ⟨m, claim, by rw [System.lookup_setCall, if_neg hne]; exact hm, hreservation⟩
      · exact fun hmem => absurd hmem fresh
      · exact fun _ => hsame
    · rw [heq] at hphase
      cases hphase
  | readFailed call =>
    obtain ⟨rfl, rfl, -⟩ := hat _ _ _ _ rfl ht
    exact .of_running h call rfl _
  | @read m other releaseAuthority manifests call =>
    obtain ⟨rfl, rfl, hphase⟩ := hat _ _ _ _ rfl ht
    split at hphase
    · cases hphase
    · cases hrevision : durableRevision manifests id <;> rw [hrevision] at hphase <;> cases hphase
  | authorityFailed call =>
    obtain ⟨rfl, rfl, -⟩ := hat _ _ _ _ rfl ht
    exact .of_running h call rfl _
  | @authority m other revision call =>
    obtain ⟨rfl, rfl, hphase⟩ := hat _ _ _ _ rfl ht
    cases revision <;> cases hphase
  | removeFailed call =>
    obtain ⟨rfl, rfl, -⟩ := hat _ _ _ _ rfl ht
    exact .of_running h call rfl _
  | remove call =>
    obtain ⟨rfl, rfl, hphase⟩ := hat _ _ _ _ rfl ht
    cases hphase
  | @takeFailed m other call missing =>
    obtain ⟨claim, -, held, -⟩ := (h other).of_running call rfl
    rw [held] at missing
    cases missing
  | take call found =>
    obtain ⟨rfl, rfl, hphase⟩ := hat _ _ _ _ rfl ht
    cases hphase
  | finish call =>
    obtain ⟨rfl, rfl, hphase⟩ := hat _ _ _ _ rfl ht
    cases hphase
  | _ => exact absurd ht hsn

end Failures

/-- What holds of the claims in a state that some run has reached. -/
structure ClaimsSettled (debugText : ResourceKey → String) (s : System) : Prop where
  released : ∀ id grant, s.retained.lookup id = some grant → (s.Released id ↔ ¬ s.Holds id grant)
  requested : ∀ n id revision, s.calls.lookup n = some ⟨id, .requesting revision⟩ → id ∉ s.authorized
  failed : ∀ action t n id error, Step debugText s action t →
    t.calls.lookup n = some ⟨id, .returned (.error error)⟩ →
    s.calls.lookup n ≠ some ⟨id, .returned (.error error)⟩ → FailedRelease s t n id
  flagged : ∀ id claim, s.unresolved.lookup id = some claim → claim.releaseInProgress = true →
    ∃ n phase, s.calls.lookup n = some ⟨id, phase⟩ ∧ phase.running = true
  accepted : ∀ n id claim, s.unresolved.lookup id = some claim → claim.releaseInProgress = false → n ∉ s.calls →
    ∃ t, Step debugText s (.release n id true) t ∧ t.calls.lookup n = some ⟨id, .reading !claim.authorityReleased⟩
  recovered : ∀ manifests t, Step debugText s (.scanEnd (.ok manifests)) t →
    s.view = some manifests ∧ Recovered t.recovered manifests ∧ t.scan.grants = []
  unrecovered : ∀ error t, Step debugText s (.scanEnd (.error error)) t →
    FailedScan s.before s.view t.recovered ∧ t.scan.grants = []
  owned : s.operations.live.Perm s.owned
  operations : ∀ action t, Step debugText s action t →
    t.operations = s.operations ∨ ∃ request, Operations.Step debugText s.operations request t.operations

/-- A claim is released by a call that returns without an error and by no other, the
authority is not asked again, and the scans reserve what the manifests want. -/
theorem claims_settled (h : Run (Step debugText) {} actions s) : ClaimsSettled debugText s where
  released id _ hseen := (run_stages h id).released_iff hseen
  requested _ _ _ hn := run_requested h hn
  failed _ _ _ _ _ hstep ht hs := hstep.failed (run_stages h) ht hs
  flagged id _ hclaim hflag := (run_stages h id).flagged_running hclaim hflag
  accepted _ _ _ hclaim hidle hfresh := release_accepted hclaim hidle hfresh
  recovered manifests t hstep := by
    have hscanned := run_scanned h
    cases hstep with
    | scanEnd working complete =>
      obtain ⟨hview, hworking⟩ := hscanned.working _ _ working
      exact ⟨hview, hworking.ends complete hscanned.granted, rfl⟩
  unrecovered error t hstep := by
    cases hstep with
    | scanFailed failing => exact ⟨(run_scanned h).failing _ _ failing, rfl⟩
  owned := List.perm_iff_count.mpr (run_accounted h)
  operations _ _ hstep := hstep.operations_step (run_accounted h)

section Example

def vmTarget : MachineName := ⟨"vm", by decide +kernel⟩

def vmClaim : ResourceClaim := ⟨.forMachine vmTarget, .exclusive⟩

def vmGrant : Grant := ⟨⟨1, [.forMachine vmTarget]⟩, [vmClaim]⟩

/-- The rest of the program has reserved the machine, for a deployment that will end unresolved. -/
def vmReserved : System where
  operations := ⟨⟨1, { claims := (∅ : Holders ResourceKey (ResourceAccess × ℕ)).add vmClaim.key (.exclusive, 1) }⟩,
    [vmGrant]⟩
  foreign := [vmGrant]

theorem reserve_vm : Step debugName {} (.reserve (.stored _ _) [vmClaim]) vmReserved := by
  have hgranted : reserveGrant debugName (.stored _ _) [vmClaim] {} = (.ok vmGrant, vmReserved.operations) := by
    unfold reserveGrant reserveInner
    rw [canonicalize_singleton]
    rfl
  exact .reserve hgranted

def settleVm : List Action :=
  [.reserve (.stored _ _) [vmClaim], .retain "vm" vmGrant, .release 0 "vm" true, .read 0 (.ok []),
    .authority 0 (.ok ()), .take 0, .finish 0]

theorem claims_settled_released :
    ∃ s, Run (Step debugName) {} settleVm s ∧ ClaimsSettled debugName s ∧ s.Released "vm" := by
  have hreserved : Run (Step debugName) {} ([] ++ [.reserve (.stored _ _) [vmClaim]]) vmReserved := .snoc .nil reserve_vm
  have hretained := hreserved.snoc (a := .retain "vm" vmGrant) (.retain List.mem_cons_self (by simp [vmReserved]))
  have hreleasing := hretained.snoc (a := .release 0 "vm" true) (.release (by simp [vmReserved]))
  have hread := hreleasing.snoc (a := .read 0 (.ok [])) (.read rfl)
  have hauthorized := hread.snoc (a := .authority 0 (.ok ())) (.authority rfl)
  have htaken := hauthorized.snoc (a := .take 0) (.take rfl rfl)
  have hfinished := htaken.snoc (a := .finish 0) (.finish rfl)
  exact ⟨_, hfinished, claims_settled hfinished, 0, rfl⟩

end Example

end Lasper.Provisioning.Unresolved
