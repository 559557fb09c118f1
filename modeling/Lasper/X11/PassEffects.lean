import Lasper.X11.Pass

/-! Everything a reconcile pass can write: the phase of a concerned claim that it
observed, an unknown phase for the claims of an uncertain removal, and, for a
group whose claims all have their confirmed grant records, the end of these
claims and of their records. What survives each of these writes survives a pass. -/

namespace Lasper.X11

open Lib Traced

/-- The claim has its confirmed grant record in the catalog. -/
def Pass.Confirmed (pass : Pass) (claim : ManagedX11MachineClaim) : Prop :=
  ∃ record ∈ pass.records, record.recordId = claim.grantRecordId ∧ record.phase = .confirmedAdded ∧
    record.key = claim.key

/-- Every claim on the key that the pass has to deal with has its confirmed grant
record in the catalog. -/
def Pass.KeyConfirmed (pass : Pass) (key : ManagedX11GrantKey) : Prop :=
  ∀ claim ∈ pass.claims, pass.concerns claim → claim.key = key → pass.Confirmed claim

/-- A property of the stored files that no write of the pass for certain keys
destroys. -/
structure Pass.Keeping (pass : Pass) (on : ManagedX11GrantKey → Prop)
    (P : List ManagedX11GrantRecord → List ManagedX11MachineClaim → Prop) : Prop where
  mark : ∀ claim ∈ pass.claims, on claim.key → pass.concerns claim → ∀ phase, phase ≠ .ended →
    ∀ records claims, P records claims →
    P records (Directory.put (·.claimId) { claim with phase } claims)
  finish : ∀ claim ∈ pass.claims, on claim.key → pass.concerns claim → pass.KeyConfirmed claim.key →
    ∀ records claims, P records claims →
    P records (Directory.put (·.claimId) { claim with phase := .ended } claims)
  revoke : ∀ claim ∈ pass.claims, on claim.key → pass.concerns claim → pass.KeyConfirmed claim.key →
    ∀ records claims, ∀ found ∈ records, found.recordId = claim.grantRecordId → P records claims →
    P (Directory.put (·.recordId) { found with phase := .revoked } records) claims

section Matching

variable {pass : Pass} {key : ManagedX11GrantKey}

/-- The records that a group's claims were found to have. -/
structure Matches (pass : Pass) (key : ManagedX11GrantKey) (members : List ReconcileClaim)
    (records : List ManagedX11GrantRecord) : Prop where
  distinct : records.Nodup
  origin : ∀ record ∈ records, ∃ member ∈ members, pass.matchingRecord key member = .ok record
  complete : ∀ member ∈ members, ∃ record ∈ records, pass.matchingRecord key member = .ok record

theorem matchingRecord_spec {member : ReconcileClaim} {record : ManagedX11GrantRecord}
    (h : pass.matchingRecord key member = .ok record) :
    record ∈ pass.records ∧ record.recordId = member.recordId ∧ record.phase = .confirmedAdded ∧
      record.key = key := by
  unfold Pass.matchingRecord at h
  split at h
  · rename_i found hfound
    cases h
    have htest := List.find?_some hfound
    simp only [Bool.and_eq_true, decide_eq_true_eq] at htest
    exact ⟨List.mem_of_find?_eq_some hfound, htest.1.1, htest.1.2, htest.2⟩
  · cases h

theorem matches_foldlM (done members : List ReconcileClaim)
    {found records : List ManagedX11GrantRecord} (hf : Matches pass key done found)
    (h : members.foldlM (fun found member => do
      let record ← pass.matchingRecord key member
      return if record ∈ found then found else found ++ [record]) found = .ok records) :
    Matches pass key (done ++ members) records := by
  induction members generalizing done found with
  | nil =>
    cases h
    rwa [List.append_nil]
  | cons member members ih =>
    rw [List.foldlM_cons] at h
    cases hm : pass.matchingRecord key member with
    | error error => rw [hm] at h; cases h
    | ok record =>
      rw [hm] at h
      have hnext : Matches pass key (done ++ [member]) (if record ∈ found then found else found ++ [record]) := by
        split
        · rename_i hin
          refine ⟨hf.distinct, ?_, ?_⟩
          · intro r hr
            obtain ⟨m, hmem, hmatch⟩ := hf.origin r hr
            exact ⟨m, List.mem_append_left _ hmem, hmatch⟩
          · intro m hmem
            rcases List.mem_append.mp hmem with hmem | hmem
            · exact hf.complete m hmem
            · rw [List.mem_singleton.mp hmem]
              exact ⟨record, hin, hm⟩
        · rename_i hout
          refine ⟨?_, ?_, ?_⟩
          · refine List.nodup_append.mpr ⟨hf.distinct, List.nodup_singleton _, ?_⟩
            intro a ha b hb he
            rw [List.mem_singleton.mp hb] at he
            exact hout (he ▸ ha)
          · intro r hr
            rcases List.mem_append.mp hr with hr | hr
            · obtain ⟨m, hmem, hmatch⟩ := hf.origin r hr
              exact ⟨m, List.mem_append_left _ hmem, hmatch⟩
            · rw [List.mem_singleton.mp hr]
              exact ⟨member, List.mem_append_right _ (List.mem_singleton_self _), hm⟩
          · intro m hmem
            rcases List.mem_append.mp hmem with hmem | hmem
            · obtain ⟨r, hr, hmatch⟩ := hf.complete m hmem
              exact ⟨r, List.mem_append_left _ hr, hmatch⟩
            · rw [List.mem_singleton.mp hmem]
              exact ⟨record, List.mem_append_right _ (List.mem_singleton_self _), hm⟩
      have hrest := ih _ hnext h
      rwa [List.append_assoc] at hrest

theorem matchingRecords_matches {group : ReconcileGroup} {records : List ManagedX11GrantRecord}
    (h : pass.matchingRecords group = .ok records) : Matches pass group.key group.claims records :=
  matches_foldlM [] group.claims ⟨List.nodup_nil, by simp, by simp⟩ h

end Matching

section Keeping

variable {env : Environment} {pass : Pass} {groups : List ReconcileGroup} {group : ReconcileGroup}
  {P : List ManagedX11GrantRecord → List ManagedX11MachineClaim → Prop} {on : ManagedX11GrantKey → Prop}

/-- A property of the files, as a property of states. -/
abbrev OnFiles (P : List ManagedX11GrantRecord → List ManagedX11MachineClaim → Prop) (s : X11State) : Prop :=
  P s.records s.claims

theorem ask_onFiles {α : Type} (answer : ℕ → α) : Preserves (OnFiles P) (ask answer) :=
  preserves_bind preserves_read fun _ =>
    preserves_bind (preserves_update fun _ hs => hs) fun _ => preserves_pure

theorem askResult_onFiles {α : Type} (answer : ℕ → Except String α) :
    Preserves (OnFiles P) (askResult answer) :=
  preserves_bind (ask_onFiles answer) fun _ => preserves_ofExcept

theorem writeClaim_onFiles {available : Bool} {claim : ManagedX11MachineClaim} {note : Bool → List Event}
    (h : ∀ records claims, P records claims → P records (Directory.put (·.claimId) claim claims)) :
    Preserves (OnFiles P) (writeClaim env available claim note) := by
  refine preserves_bind (ask_onFiles _) fun outcome => preserves_bind ?_ fun _ => preserves_pure
  refine preserves_update fun s hs => ?_
  unfold OnFiles
  dsimp only
  split
  · exact h _ _ hs
  · exact hs

/-- A member stands for a concerned claim, with its key and its grant record. -/
def Pass.Stands (pass : Pass) (key : ManagedX11GrantKey) (member : ReconcileClaim) : Prop :=
  ∃ claim ∈ pass.claims, pass.concerns claim ∧ claim.claimId = member.claimId ∧
    claim.grantRecordId = member.recordId ∧ claim.key = key

/-- Every member stands for its claim. -/
def AllStand (pass : Pass) (groups : List ReconcileGroup) : Prop :=
  ∀ group ∈ groups, ∀ member ∈ group.claims, pass.Stands group.key member

theorem AllStand.insert {claim : ManagedX11MachineClaim}
    {status : ReconcileClaimStatus} (h : AllStand pass groups) (hc : claim ∈ pass.claims) (hcon : pass.concerns claim) :
    AllStand pass (ReconcileGroup.insert ⟨claim.claimId, claim.grantRecordId, claim.key, status⟩ groups) := by
  intro group hg member hm
  rcases mem_insert hg with hold | ⟨old, hold, hkey, rfl⟩ | rfl
  · exact h group hold member hm
  · rcases List.mem_append.mp hm with hm | hm
    · exact h old hold member hm
    · rw [List.mem_singleton.mp hm]
      exact ⟨claim, hc, hcon, rfl, rfl, hkey.symm⟩
  · rw [List.mem_singleton.mp hm]
    exact ⟨claim, hc, hcon, rfl, rfl, rfl⟩

theorem nextPhase_not_ended {claim : ManagedX11MachineClaim} {observation : MachineClaimObservation} {now : ℕ}
    {phase : MachineClaimPhase} (h : observation.nextPhase claim now = some phase) : phase ≠ .ended := by
  obtain ⟨hp, -⟩ := Option.filter_eq_some_iff.mp h
  rintro rfl
  cases observation <;> simp [MachineClaimObservation.proposedPhase] at hp

/-- Observing an unresolved claim gives it a status, never fails, and leaves the
records alone. -/
theorem reconcileClaim_effect {s : X11State} {E : String → X11State → Prop} (available : Bool)
    {claim : ManagedX11MachineClaim} (bootId : String)
    (registration : SystemMachineRegistration) (now : ℕ) (hp : claim.phase ≠ .ended) :
    Ensures (fun _ => True) (reconcileClaim env available claim bootId registration now)
      (fun status t => (∃ st, status = some st) ∧ t.records = s.records) E s := by
  obtain ⟨observation, ho⟩ := observeMachineClaim_of_unresolved bootId registration now hp
  unfold reconcileClaim
  rw [ho]
  refine ensures_bind (Q := fun _ t => t.records = s.records) ?_ fun result t ht => ?_
  · cases observation.nextPhase claim now with
    | none =>
      exact ensures_bind (ensures_update (R := fun _ t => t.records = s.records) trivial rfl)
        fun _ t ht => ensures_pure ht
    | some phase =>
      refine ensures_bind (ensures_ask trivial) ?_
      rintro outcome t ⟨rfl, rfl⟩
      exact ensures_bind (ensures_update (R := fun _ t => t.records = s.records) trivial rfl)
        fun _ t ht => ensures_pure ht
  · cases result with
    | ok _ => exact ensures_pure ⟨⟨_, rfl⟩, ht⟩
    | error error => exact ensures_pure ⟨⟨_, rfl⟩, ht⟩

/-- An id that has not been filed. -/
theorem new_id {done rest : List ManagedX11MachineClaim} {claim : ManagedX11MachineClaim}
    (hd : (pass.claims.map (·.claimId)).Nodup) (hsplit : pass.claims = done ++ claim :: rest) :
    claim.claimId ∉ done.map (·.claimId) := by
  rw [hsplit, List.map_append, List.map_cons] at hd
  obtain ⟨-, -, hdisj⟩ := List.nodup_append.mp hd
  exact fun hm => hdisj _ hm _ List.mem_cons_self rfl

variable (hk : pass.Keeping on P)

include hk

theorem reconcileClaim_keeping {claim : ManagedX11MachineClaim} (hc : claim ∈ pass.claims)
    (hon : on claim.key) (hcon : pass.concerns claim) (bootId : String) (registration : SystemMachineRegistration) (now : ℕ) :
    Preserves (OnFiles P) (reconcileClaim env pass.available claim bootId registration now) := by
  unfold reconcileClaim
  split
  · exact preserves_pure
  · rename_i observation _
    refine preserves_bind ?_ fun result => ?_
    · cases hn : observation.nextPhase claim now with
      | none => exact preserves_bind (preserves_update fun _ hs => hs) fun _ => preserves_pure
      | some phase =>
        unfold storeTransition
        exact writeClaim_onFiles (hk.mark claim hc hon hcon phase (nextPhase_not_ended hn))
    · split
      · exact preserves_pure
      · exact preserves_pure

variable (hd : (pass.claims.map (·.claimId)).Nodup)

include hd

theorem observeClaims_keeping (hon : ∀ claim ∈ pass.claims, on claim.key) (rest : List ManagedX11MachineClaim) :
    ∀ (done : List ManagedX11MachineClaim) (groups : List ReconcileGroup) (s : X11State),
      pass.claims = done ++ rest → Filed pass done groups → AllStand pass groups → OnFiles P s →
      Ensures (OnFiles P) (observeClaims env pass rest groups)
        (fun groups t => OnFiles P t ∧ Filed pass pass.claims groups ∧ AllStand pass groups)
        (fun _ => OnFiles P) s := by
  induction rest with
  | nil =>
    intro done groups s hsplit hf hstand hs
    rw [List.append_nil] at hsplit
    exact ensures_pure ⟨hs, hsplit ▸ hf, hstand⟩
  | cons claim rest ih =>
    intro done groups s hsplit hf hstand hs
    have hsplit' : pass.claims = (done ++ [claim]) ++ rest := by rw [hsplit]; simp
    have hc : claim ∈ pass.claims := by rw [hsplit]; simp
    have hbefore := new_id hd hsplit
    unfold observeClaims
    split
    · rename_i hcon
      refine ensures_bind (ask_onFiles _ s hs) fun registration t ht => ?_
      have hall : Preserves (OnFiles P) (reconcileClaim env pass.available claim pass.currentBootId registration
          pass.now) := reconcileClaim_keeping hk hc (hon claim hc) hcon pass.currentBootId registration pass.now
      have hkept := hall t ht
      have hstatus : Ensures (fun _ => True) (reconcileClaim env pass.available claim pass.currentBootId registration
          pass.now) (fun status u => (∃ st, status = some st) ∧ u.records = t.records) (fun _ _ => True) t :=
        reconcileClaim_effect _ _ registration _ (concerns_unresolved hcon)
      refine ensures_bind (Q := fun status u => OnFiles P u ∧ ∃ st, status = some st)
        ⟨hkept.always, fun a ha => ⟨hkept.returned a ha, (hstatus.returned a ha).1⟩, hkept.failed⟩ ?_
      rintro status u ⟨hu, st, rfl⟩
      exact ih _ _ u hsplit' (hf.insert hcon hbefore) (hstand.insert hc hcon) hu
    · rename_i hcon
      exact ih _ _ s hsplit' (hf.skip hcon) hstand hs

theorem recheckMembers_keeping {key : ManagedX11GrantKey} (hon : on key) (members : List ReconcileClaim)
    (hm : ∀ member ∈ members, pass.Stands key member) (ready : Bool) (progress : Progress) :
    Preserves (OnFiles P) (recheckMembers env pass members ready progress) := by
  induction members generalizing ready progress with
  | nil => exact preserves_pure
  | cons member members ih =>
    obtain ⟨claim, hc, hcon, hid, -, hkey⟩ := hm member List.mem_cons_self
    refine preserves_bind ?_ fun status => ih (fun other ho => hm other (List.mem_cons_of_mem _ ho)) _ _
    unfold recheckMember
    rw [catalogClaim_eq hd hc hid, ofExcept_ok_bind]
    refine preserves_bind (ask_onFiles _) fun registration => preserves_bind (askResult_onFiles _) fun now => ?_
    exact reconcileClaim_keeping hk hc (hkey ▸ hon) hcon _ _ _

variable (hf : Filed pass pass.claims groups) (hstand : AllStand pass groups) (hg : group ∈ groups) (hon : on group.key)

omit hk in
include hf hstand hg in
/-- A group that has its records has all the claims on its key confirmed. -/
theorem Matches.confirmed {records : List ManagedX11GrantRecord}
    (hr : Matches pass group.key group.claims records) : pass.KeyConfirmed group.key := by
  intro claim hc hcon hkey
  obtain ⟨member, hmem, hmid⟩ := hf.member hg hc hcon hkey
  obtain ⟨other, ho, -, hoid, hgrant, -⟩ := hstand group hg member hmem
  have hsame : other = claim := Directory.eq_of_name_eq hd ho hc (hoid.trans hmid)
  obtain ⟨record, -, hmatch⟩ := hr.complete member hmem
  obtain ⟨hin, hid, hphase, hrkey⟩ := matchingRecord_spec hmatch
  exact ⟨record, hin, hid.trans (hgrant.symm.trans (congrArg _ hsame)), hphase, hrkey.trans hkey.symm⟩

include hf hstand hg hon

theorem finishGroup_keeping {records : List ManagedX11GrantRecord}
    (hr : Matches pass group.key group.claims records) (progress : Progress) :
    Preserves (OnFiles P) (finishGroup env pass group records progress) := by
  refine preserves_bind (fun s hs => ?_) fun _ => preserves_bind (fun s hs => ?_) fun _ => preserves_pure
  · refine ensures_forEach (fun record hrec t ht => ?_) hs
    obtain ⟨member, hmem, hmatch⟩ := hr.origin record hrec
    obtain ⟨-, hid, -, -⟩ := matchingRecord_spec hmatch
    obtain ⟨claim, hc, hcon, -, hgrant, hkey⟩ := hstand group hg member hmem
    have hall : pass.KeyConfirmed claim.key := hkey ▸ hr.confirmed hd hf hstand hg
    refine preserves_bind (askResult_onFiles _) (fun _ u hu => ?_) t ht
    refine ensures_bind (ensures_read (Q := fun found v => v = u ∧
      found = u.records.find? (·.recordId = record.recordId)) ⟨rfl, rfl⟩) ?_
    rintro found v ⟨rfl, hfound⟩
    cases found with
    | none => exact ensures_fail hu
    | some found =>
      have hin : found ∈ v.records := List.mem_of_find?_eq_some hfound.symm
      have hfid : found.recordId = record.recordId := by simpa using List.find?_some hfound.symm
      have hput := hk.revoke claim hc (hkey ▸ hon) hcon hall _ _ found hin
        (hfid.trans (hid.trans hgrant.symm)) hu
      refine ensures_bind (Q := fun _ w => w.records = v.records ∧ w.claims = v.claims)
        ((ensures_ask hu).post fun _ w hw => by rw [hw.2]; exact ⟨rfl, rfl⟩) ?_
      rintro outcome w ⟨hwr, hwc⟩
      refine ensures_bind (ensures_update (R := fun _ => OnFiles P) ?_ ?_) fun _ x hx =>
        ensures_ofExcept (fun _ _ => hx) fun _ _ => hx
      all_goals
        unfold OnFiles
        dsimp only
        rw [hwr, hwc]
        split
        · exact hput
        · exact hu
  · refine ensures_forEach (fun member hmem t ht => ?_) hs
    obtain ⟨claim, hc, hcon, hid, -, hkey⟩ := hstand group hg member hmem
    have hall : pass.KeyConfirmed claim.key := hkey ▸ hr.confirmed hd hf hstand hg
    unfold markEnded markMember
    rw [catalogClaim_eq hd hc hid, ofExcept_ok_bind]
    refine preserves_bind ?_ (fun _ => preserves_ofExcept) t ht
    exact writeClaim_onFiles (hk.finish claim hc (hkey ▸ hon) hcon hall)

theorem revokeGroup_keeping {records : List ManagedX11GrantRecord}
    (hr : Matches pass group.key group.claims records) (progress : Progress) :
    Preserves (OnFiles P) (revokeGroup env pass group records progress) := by
  unfold revokeGroup
  split
  · refine preserves_bind ?_ fun answers => ?_
    · refine preserves_bind (preserves_update fun _ hs => hs) fun _ => ?_
      exact preserves_bind (ask_onFiles _) fun _ => preserves_bind (ask_onFiles _) fun _ => preserves_pure
    · refine preserves_bind (ask_onFiles _) fun _ => preserves_bind (ask_onFiles _) fun _ => ?_
      unfold concludeRemoval
      split
      · refine preserves_bind preserves_ofExcept fun acl => ?_
        split
        · exact preserves_pure
        · exact finishGroup_keeping hk hd hf hstand hg hon hr _
      · refine preserves_bind (fun s hs => ?_) fun _ => preserves_pure
        refine ensures_forEach (fun member hmem t ht => ?_) hs
        obtain ⟨claim, hc, hcon, hid, -, hkey⟩ := hstand group hg member hmem
        unfold markUncertain markMember
        rw [catalogClaim_eq hd hc hid, ofExcept_ok_bind]
        refine preserves_bind ?_ (fun _ => preserves_pure) t ht
        exact writeClaim_onFiles (hk.mark claim hc (hkey ▸ hon) hcon _ (by simp))
  · exact finishGroup_keeping hk hd hf hstand hg hon hr _

theorem reconcileGroup_keeping (progress : Progress) :
    Preserves (OnFiles P) (reconcileGroup env pass group progress) := by
  unfold reconcileGroup
  dsimp only
  split
  · exact preserves_pure
  · split
    · exact preserves_pure
    · rename_i records hrecords
      refine preserves_bind (recheckMembers_keeping hk hd hon group.claims (hstand group hg) _ _) fun result => ?_
      dsimp only
      split
      · exact revokeGroup_keeping hk hd hf hstand hg hon (matchingRecords_matches hrecords) _
      · exact preserves_pure

omit hg hon in
theorem reconcileGroups_keeping (rest : List ReconcileGroup) (hsub : rest ⊆ groups)
    (hon : ∀ group ∈ rest, on group.key) (progress : Progress) :
    Preserves (OnFiles P) (reconcileGroups env pass rest progress) := by
  induction rest generalizing progress with
  | nil => exact preserves_pure
  | cons group rest ih =>
    refine preserves_bind (reconcileGroup_keeping hk hd hf hstand (hsub List.mem_cons_self)
      (hon group List.mem_cons_self) _) fun progress' => ?_
    exact ih (fun other ho => hsub (List.mem_cons_of_mem _ ho))
      (fun other ho => hon other (List.mem_cons_of_mem _ ho)) progress'

omit hf hstand hg hon in
/-- What no write of a pass destroys, the pass keeps. -/
theorem reconcileEnabled_keeping (hall : ∀ key, on key) (acl : X11AclSnapshot) :
    Preserves (OnFiles P) (reconcileEnabled env pass acl) := by
  intro s hs
  refine ensures_bind (observeClaims_keeping hk hd (fun _ _ => hall _) pass.claims [] [] s rfl .nil
    (fun _ hg => absurd hg List.not_mem_nil) hs) ?_
  rintro groups t ⟨ht, hf, hstand⟩
  exact preserves_bind (reconcileGroups_keeping hk hd hf hstand groups (List.Subset.refl _) (fun _ _ => hall _) _)
    (fun _ => preserves_pure) t ht

end Keeping

section Whole

variable {env : Environment} {s : X11State} {P : List ManagedX11GrantRecord → List ManagedX11MachineClaim → Prop}

/-- A pass over the files of a state. -/
structure Pass.Loads (pass : Pass) (s : X11State) : Prop where
  claims : ∀ claim ∈ pass.claims, claim ∈ s.claims
  complete : pass.claims ≠ [] → ∀ claim ∈ s.claims, claim ∈ pass.claims
  records : ∀ record ∈ pass.records, record ∈ s.records

theorem reconcileSync_keeping (socket : HostX11Socket) (hd : (s.claims.map (·.claimId)).Nodup)
    (hk : ∀ pass : Pass, pass.Loads s → pass.Keeping (fun _ => True) P) (hs : OnFiles P s) :
    Ensures (OnFiles P) (reconcileSync env socket) (fun _ => OnFiles P) (fun _ => OnFiles P) s := by
  refine ensures_bind (ensures_askResult hs fun _ => hs) ?_
  rintro opened t ⟨_, rfl⟩
  cases opened with
  | none => exact ensures_pure hs
  | some available =>
    refine ensures_bind (ensures_askResult hs fun _ => hs) ?_
    rintro _ t ⟨_, rfl⟩
    refine ensures_bind (loadClaims_spec available hs) ?_
    rintro catalog t ⟨rfl, hcatalog⟩
    refine ensures_bind (require_spec hcatalog fun _ => hs) ?_
    rintro claims t ⟨rfl, rfl⟩
    refine ensures_bind (loadRecords_spec hs) ?_
    rintro recordCatalog t ⟨rfl, hrecords⟩
    refine ensures_bind (require_spec hrecords fun _ => hs) ?_
    rintro records t ⟨rfl, rfl⟩
    split
    · have hdistinct : ((s.listedClaims available).map (·.claimId)).Nodup := by
        unfold X11State.listedClaims
        split
        · exact Directory.nodup_list hd
        · exact List.nodup_nil
      have hload : Preserves (OnFiles P) (reconcileLoaded env socket available (s.listedClaims available)
          s.listedRecords) := by
        refine preserves_bind (askResult_onFiles _) fun _ => preserves_bind (askResult_onFiles _) fun start => ?_
        refine preserves_bind (askResult_onFiles _) fun bootId => preserves_bind (askResult_onFiles _) fun now => ?_
        refine preserves_bind (askResult_onFiles _) fun acl => preserves_bind (askResult_onFiles _) fun _ => ?_
        split
        · refine reconcileEnabled_keeping (hk _ ⟨?_, ?_, ?_⟩) hdistinct (fun _ => trivial) _
          · exact fun claim hc => X11State.mem_of_listedClaims hc
          · intro hne claim hc
            unfold X11State.listedClaims at hne ⊢
            split_ifs at hne ⊢
            · exact Directory.mem_list.mpr hc
            · exact absurd rfl hne
          · exact fun record hr => Directory.mem_list.mp hr
        · exact preserves_fail
      exact hload s.asked.asked.asked.asked hs
    · exact ensures_pure hs

end Whole

end Lasper.X11
