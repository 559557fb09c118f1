import Lasper.X11.Resumption

/-! A finalization that was cut short by failed writes, and the pass that comes
after it. The pass makes it whole exactly when no file had been replaced and it
finds every claim on the key with its confirmed record, or when every file had
been replaced. -/

namespace Lasper.X11

open Lib

namespace Finalization

/-- The key whose entry has been removed. -/
def key : Finalization → ManagedX11GrantKey
  | .byPass _ group _ _ => group.key
  | .byRevocation _ _ record _ _ => record.key

/-- What the code has established when it starts to finalize: in a pass the
members of the group are its claims as they are stored, and each has its
confirmed record; a revocation has found the confirmed record it was asked for. -/
def Starts (s : X11State) : Finalization → Prop
  | .byPass pass group records _ => pass.available = true ∧ pass.records = s.listedRecords ∧
      pass.matchingRecords group = .ok records ∧ group.claims ≠ [] ∧ (group.claims.map (·.claimId)).Nodup ∧
      ∀ member ∈ group.claims, ∃ claim ∈ s.claims, pass.catalogClaim member = .ok claim ∧
        claim.grantRecordId = member.recordId ∧ claim.key = group.key ∧ claim.phase ≠ .ended
  | .byRevocation available claims record _ _ => claims = s.listedClaims available ∧
      (available = false → s.claims = []) ∧ record ∈ s.records ∧ record.phase = .confirmedAdded

/-- The writes that went through leave the removal to be finished, or leave
nothing to do: no file has been replaced, there is a claim to resume from, and
each claim that the pass will find on the key has its confirmed record; or every
file has been replaced. -/
def Resumable (s : X11State) (env : Environment) (finalization : Finalization) : Prop :=
  (effects (finalization.outcomes env s.calls) = 0 ∧ finalization.claims ≠ [] ∧
    (∀ claim ∈ finalization.claims, claim.key = finalization.key) ∧
    ∀ claim ∈ s.claims, claim.key = finalization.key → claim.phase ≠ .ended → s.Confirmed claim) ∨
  effects (finalization.outcomes env s.calls) = finalization.records.length + finalization.claims.length

end Finalization

/-- Time passes: claims move between unresolved phases. -/
structure Waited (s t : X11State) : Prop where
  records : t.records = s.records
  ids : t.claims.map (·.claimId) = s.claims.map (·.claimId)
  claims : ∀ later ∈ t.claims, ∃ claim ∈ s.claims, later.claimId = claim.claimId ∧ later.key = claim.key ∧
    later.grantRecordId = claim.grantRecordId ∧ (later.phase = .ended ↔ claim.phase = .ended)

/-- How the records and claims of a finalization stand in the store. -/
structure Withdrawal (records : List ManagedX11GrantRecord) (claims : List ManagedX11MachineClaim)
    (key : ManagedX11GrantKey) (s : X11State) : Prop where
  nonempty : records ≠ []
  confirmed : ∀ record ∈ records, record ∈ s.records ∧ record.phase = .confirmedAdded ∧ record.key = key
  recordIds : (records.map (·.recordId)).Nodup
  unresolved : ∀ claim ∈ claims, claim ∈ s.claims ∧ claim.phase ≠ .ended ∧
    ∃ record ∈ records, record.recordId = claim.grantRecordId
  claimIds : (claims.map (·.claimId)).Nodup
  owned : claims ≠ [] → ∀ record ∈ records, ∃ claim ∈ claims, claim.grantRecordId = record.recordId
  unowned : claims = [] → records.length = 1 ∧ ∀ record ∈ records, ∀ claim ∈ s.claims, claim.phase ≠ .ended →
    claim.grantRecordId ≠ record.recordId

section Start

variable {s : X11State}

theorem Finalization.Starts.loaded {finalization : Finalization} (hs : s.Stored) (h : finalization.Starts s) :
    finalization.Loaded s := by
  cases finalization with
  | byPass pass group records progress =>
    obtain ⟨havailable, -, -, -, -, hmembers⟩ := h
    refine ⟨havailable, fun member hm => ?_⟩
    obtain ⟨claim, -, hc, -⟩ := hmembers member hm
    exact ⟨claim, hc⟩
  | byRevocation available claims record unfinalized unended => exact ⟨h.1, hs.fewClaims⟩

theorem withdrawal_of_group {pass : Pass} {group : ReconcileGroup} {records : List ManagedX11GrantRecord}
    {progress : Progress} (hs : s.Stored) (h : (Finalization.byPass pass group records progress).Starts s) :
    Withdrawal records (Finalization.byPass pass group records progress).claims group.key s := by
  obtain ⟨-, hrecords, hmatching, hne, hids, hmembers⟩ := h
  have hmatches := matchingRecords_matches hmatching
  have hfound : ∀ record ∈ records, record ∈ s.records ∧ record.phase = .confirmedAdded ∧ record.key = group.key := by
    intro record hr
    obtain ⟨member, -, hmatch⟩ := hmatches.origin record hr
    obtain ⟨hin, -, hphase, hkey⟩ := matchingRecord_spec hmatch
    rw [hrecords] at hin
    exact ⟨Directory.mem_list.mp hin, hphase, hkey⟩
  have hclaim : ∀ claim ∈ (Finalization.byPass pass group records progress).claims, ∃ member ∈ group.claims,
      pass.catalogClaim member = .ok claim := by
    intro claim hc
    obtain ⟨member, hm, hopt⟩ := List.mem_filterMap.mp hc
    obtain ⟨stored, -, hcatalog, -⟩ := hmembers member hm
    rw [hcatalog] at hopt
    cases hopt
    exact ⟨member, hm, hcatalog⟩
  have hof : ∀ member ∈ group.claims, ∃ claim ∈ (Finalization.byPass pass group records progress).claims,
      claim.grantRecordId = member.recordId := by
    intro member hm
    obtain ⟨claim, -, hcatalog, hrid, -⟩ := hmembers member hm
    refine ⟨claim, List.mem_filterMap.mpr ⟨member, hm, ?_⟩, hrid⟩
    rw [hcatalog]
    rfl
  obtain ⟨member, hmember⟩ := List.exists_mem_of_ne_nil _ hne
  refine ⟨?_, hfound, ?_, ?_, ?_, ?_, ?_⟩
  · obtain ⟨record, hr, -⟩ := hmatches.complete member hmember
    exact List.ne_nil_of_mem hr
  · exact Directory.nodup_names hs.recordIds hmatches.distinct fun record hr => (hfound record hr).1
  · intro claim hc
    obtain ⟨other, hother, hcatalog⟩ := hclaim claim hc
    obtain ⟨stored, hstored, hcatalog', hrid, -, hphase⟩ := hmembers other hother
    rw [hcatalog] at hcatalog'
    cases hcatalog'
    obtain ⟨record, hr, hmatch⟩ := hmatches.complete other hother
    exact ⟨hstored, hphase, record, hr, (matchingRecord_spec hmatch).2.1.trans hrid.symm⟩
  · have hnames : (Finalization.byPass pass group records progress).claims.map (·.claimId) =
        group.claims.map (·.claimId) := by
      refine catalogClaims_ids group.claims fun other hother => ?_
      obtain ⟨claim, -, hcatalog, -⟩ := hmembers other hother
      exact ⟨claim, hcatalog⟩
    rw [hnames]
    exact hids
  · intro _ record hr
    obtain ⟨other, hother, hmatch⟩ := hmatches.origin record hr
    obtain ⟨claim, hc, hrid⟩ := hof other hother
    exact ⟨claim, hc, hrid.trans (matchingRecord_spec hmatch).2.1.symm⟩
  · intro hempty
    obtain ⟨claim, hc, -⟩ := hof member hmember
    rw [hempty] at hc
    cases hc

theorem withdrawal_of_revocation {available : Bool} {claims : List ManagedX11MachineClaim}
    {record : ManagedX11GrantRecord} {unfinalized unended : String → String} (hs : s.Stored)
    (h : (Finalization.byRevocation available claims record unfinalized unended).Starts s) :
    Withdrawal [record] (unresolvedClaims claims record.recordId) record.key s := by
  obtain ⟨hclaims, havailable, hr, hphase⟩ := h
  have hlisted : ∀ claim, claim ∈ claims ↔ claim ∈ s.claims := by
    intro claim
    rw [hclaims]
    cases available with
    | true => exact Directory.mem_list
    | false =>
      rw [havailable rfl]
      exact Iff.rfl
  have hmem : ∀ claim, claim ∈ unresolvedClaims claims record.recordId ↔
      claim ∈ s.claims ∧ claim.grantRecordId = record.recordId ∧ claim.phase ≠ .ended := by
    intro claim
    unfold unresolvedClaims
    rw [List.mem_filter, hlisted]
    simp [MachineClaimPhase.requiresReconcile]
  refine ⟨List.cons_ne_nil _ _, ?_, by simp, ?_, ?_, ?_, ?_⟩
  · intro other ho
    rw [List.mem_singleton.mp ho]
    exact ⟨hr, hphase, rfl⟩
  · intro claim hc
    obtain ⟨hin, hrid, hunresolved⟩ := (hmem claim).mp hc
    exact ⟨hin, hunresolved, record, List.mem_singleton_self _, hrid.symm⟩
  · have hnodup : (claims.map (·.claimId)).Nodup := by
      rw [hclaims]
      cases available with
      | true => exact Directory.nodup_list hs.claimIds
      | false => exact List.nodup_nil
    exact hnodup.sublist (List.filter_sublist.map _)
  · intro hne other ho
    obtain ⟨claim, hc⟩ := List.exists_mem_of_ne_nil _ hne
    rw [List.mem_singleton.mp ho]
    exact ⟨claim, hc, ((hmem claim).mp hc).2.1⟩
  · intro hempty
    refine ⟨rfl, fun other ho claim hin hunresolved hrid => ?_⟩
    rw [List.mem_singleton.mp ho] at hrid
    have hc := (hmem claim).mpr ⟨hin, hrid, hunresolved⟩
    rw [hempty] at hc
    cases hc

theorem Finalization.Starts.withdrawal {finalization : Finalization} (hs : s.Stored) (h : finalization.Starts s) :
    Withdrawal finalization.records finalization.claims finalization.key s := by
  cases finalization with
  | byPass pass group records progress => exact withdrawal_of_group hs h
  | byRevocation available claims record unfinalized unended => exact withdrawal_of_revocation hs h

end Start

section Resumed

variable {env resume : Environment} {socket : HostX11Socket} {key : ManagedX11GrantKey} {s u v : X11State}
  {records : List ManagedX11GrantRecord} {claims : List ManagedX11MachineClaim} {n : ℕ}

/-- Every file has been replaced. -/
theorem done_of_finalized (hs : s.Stored) (hu : Finalized records claims s n u)
    (hn : records.length + claims.length ≤ n) : Done records claims u.records u.claims := by
  refine ⟨fun record hr hid => ?_, fun claim hc hid => ?_⟩
  · rw [hu.revoked, List.take_of_length_le (by omega)] at hr
    rcases Directory.of_mem_putAll hs.recordIds hr with hr | ⟨-, hother⟩
    · obtain ⟨found, -, rfl⟩ := List.mem_map.mp hr
      rfl
    · rw [List.map_map] at hother
      exact absurd hid hother
  · rw [hu.ended, List.take_of_length_le (by omega)] at hc
    rcases Directory.of_mem_putAll hs.claimIds hc with hc | ⟨-, hother⟩
    · obtain ⟨found, -, rfl⟩ := List.mem_map.mp hc
      rfl
    · rw [List.map_map] at hother
      exact absurd hid hother

/-- Some files have been replaced but not all: a claim is unresolved while its
record is revoked already. -/
theorem stranded_of_finalized (h : Withdrawal records claims key s) (hu : Finalized records claims s n u) (hpos : 0 < n)
    (hn : n < records.length + claims.length) :
    ∃ claim ∈ claims, claim ∈ u.claims ∧ ∃ record ∈ records, record.recordId = claim.grantRecordId ∧
      record.asRevoked ∈ u.records := by
  have hwritten : ∀ record ∈ records.take n, record.asRevoked ∈ u.records := by
    intro record hr
    rw [hu.revoked]
    refine Directory.mem_putAll_of_mem ?_ (List.mem_map_of_mem hr)
    rw [List.map_map]
    exact h.recordIds.sublist ((List.take_sublist _ _).map _)
  by_cases hle : n ≤ records.length
  · have hne : claims ≠ [] := by
      intro hempty
      have hlength := (h.unowned hempty).1
      rw [hempty, hlength] at hn
      simp only [List.length_nil] at hn
      omega
    have htake : records.take n ≠ [] := by
      intro hempty
      rcases List.take_eq_nil_iff.mp hempty with hzero | hnil
      · omega
      · exact h.nonempty hnil
    obtain ⟨record, hr⟩ := List.exists_mem_of_ne_nil _ htake
    obtain ⟨claim, hc, hrid⟩ := h.owned hne record (List.mem_of_mem_take hr)
    refine ⟨claim, hc, ?_, record, List.mem_of_mem_take hr, hrid.symm, hwritten record hr⟩
    rw [hu.ended, Nat.sub_eq_zero_of_le hle]
    exact (h.unresolved claim hc).1
  · -- all records are revoked; the claim the sequence stopped at is not ended
    have hrest : claims.drop (n - records.length) ≠ [] := by
      intro hempty
      have := List.drop_eq_nil_iff.mp hempty
      omega
    obtain ⟨claim, hdrop⟩ := List.exists_mem_of_ne_nil _ hrest
    have hc := List.mem_of_mem_drop hdrop
    obtain ⟨hin, -, record, hr, hrid⟩ := h.unresolved claim hc
    refine ⟨claim, hc, ?_, record, hr, hrid, hwritten record ?_⟩
    · have hsplit : ((claims.take (n - records.length)).map (·.claimId) ++
          (claims.drop (n - records.length)).map (·.claimId)).Nodup := by
        rw [← List.map_append, List.take_append_drop]
        exact h.claimIds
      rw [hu.ended]
      refine Directory.mem_putAll_of_not_mem _ hin fun hmem => ?_
      rw [List.map_map] at hmem
      exact List.disjoint_of_nodup_append hsplit hmem (List.mem_map_of_mem hdrop)
    · rw [List.take_of_length_le (by omega)]
      exact hr

/-- A claim that waited is stored under its name. -/
theorem Waited.later (hw : Waited u v) (hd : (u.claims.map (·.claimId)).Nodup) {claim : ManagedX11MachineClaim}
    (hc : claim ∈ u.claims) : ∃ later ∈ v.claims, later.claimId = claim.claimId ∧ later.key = claim.key ∧
      later.grantRecordId = claim.grantRecordId ∧ (later.phase = .ended ↔ claim.phase = .ended) := by
  have hname : claim.claimId ∈ v.claims.map (·.claimId) := by
    rw [hw.ids]
    exact List.mem_map_of_mem hc
  obtain ⟨later, hl, hid⟩ := List.mem_map.mp hname
  obtain ⟨before, hb, hbid, hrest⟩ := hw.claims later hl
  have hsame : before = claim := Directory.eq_of_name_eq hd hb hc (hbid.symm.trans hid)
  rw [hsame] at hrest
  exact ⟨later, hl, hid, hrest⟩

theorem Waited.done (hw : Waited u v) (h : Done records claims u.records u.claims) :
    Done records claims v.records v.claims := by
  refine ⟨hw.records ▸ h.revoked, fun later hl hid => ?_⟩
  obtain ⟨claim, hc, hcid, -, -, hphase⟩ := hw.claims later hl
  exact hphase.mpr (h.ended claim hc (hcid ▸ hid))

/-- A claim on a key that the pass cannot finish is not ended. -/
theorem unconfirmed_stays (resume : Environment) (socket : HostX11Socket) (records : List ManagedX11GrantRecord)
    (hw : Waited u v) (hd : (u.claims.map (·.claimId)).Nodup) {claim other : ManagedX11MachineClaim}
    (hc : claim ∈ claims) (hin : claim ∈ u.claims) (hp : claim.phase ≠ .ended) (ho : other ∈ u.claims)
    (hop : other.phase ≠ .ended) (hkey : other.key = claim.key) (hnot : ¬ u.Confirmed other) :
    ¬ Done records claims (reconcileSync resume socket v).state.records
      (reconcileSync resume socket v).state.claims := by
  obtain ⟨later, hl, hid, hlkey, -, hphase⟩ := hw.later hd hin
  obtain ⟨other', ho', -, hokey, hogrant, hophase⟩ := hw.later hd ho
  have hdv : (v.claims.map (·.claimId)).Nodup := hw.ids ▸ hd
  have hnot' : ¬ v.Confirmed other' := by
    rintro ⟨record, hr, hrid, hconfirmed, hrkey⟩
    exact hnot ⟨record, hw.records ▸ hr, hrid.trans hogrant, hconfirmed, hrkey.trans hokey⟩
  obtain ⟨stored, hstored, hsid, hsp⟩ := unconfirmed_key_stays resume socket hdv hl (fun he => hp (hphase.mp he)) ho'
    (fun he => hop (hophase.mp he)) (hokey.trans (hkey.trans hlkey.symm)) hnot'
  intro hdone
  refine hsp (hdone.ended stored hstored ?_)
  rw [hsid, hid]
  exact List.mem_map_of_mem hc

theorem stranded_stays (resume : Environment) (socket : HostX11Socket) (records : List ManagedX11GrantRecord)
    (hw : Waited u v) (hd : (u.claims.map (·.claimId)).Nodup) (hdr : (u.records.map (·.recordId)).Nodup)
    {claim : ManagedX11MachineClaim} (hc : claim ∈ claims) (hin : claim ∈ u.claims) (hp : claim.phase ≠ .ended)
    {record : ManagedX11GrantRecord} (hrid : record.recordId = claim.grantRecordId)
    (hr : record.asRevoked ∈ u.records) :
    ¬ Done records claims (reconcileSync resume socket v).state.records
      (reconcileSync resume socket v).state.claims := by
  refine unconfirmed_stays resume socket records hw hd hc hin hp hin hp rfl ?_
  rintro ⟨other, ho, hoid, hconfirmed, -⟩
  have hsame : other = record.asRevoked := Directory.eq_of_name_eq hdr ho hr (hoid.trans hrid.symm)
  rw [hsame] at hconfirmed
  cases hconfirmed

/-- Nothing has been replaced, and no claim leads to the record. -/
theorem unowned_stays (resume : Environment) (socket : HostX11Socket) (hs : s.Stored)
    (h : Withdrawal records claims key s) (hempty : claims = [])
    (hur : u.records = s.records) (huc : u.claims = s.claims) (hw : Waited u v) :
    ¬ Done records claims (reconcileSync resume socket v).state.records
      (reconcileSync resume socket v).state.claims := by
  obtain ⟨record, hr⟩ := List.exists_mem_of_ne_nil _ h.nonempty
  obtain ⟨hin, hconfirmed, -⟩ := h.confirmed record hr
  have hunclaimed : ∀ later ∈ v.claims, later.phase ≠ .ended → later.grantRecordId ≠ record.recordId := by
    intro later hl hp
    obtain ⟨claim, hc, -, -, hgrant, hphase⟩ := hw.claims later hl
    rw [hgrant]
    exact (h.unowned hempty).2 record hr claim (huc ▸ hc) fun he => hp (hphase.mpr he)
  have hdv : (v.claims.map (·.claimId)).Nodup := by
    rw [hw.ids, huc]
    exact hs.claimIds
  have hrv : record ∈ v.records := by
    rw [hw.records, hur]
    exact hin
  have hstays := unclaimed_record_stays resume socket hdv hrv hunclaimed
  intro hdone
  have hrevoked := hdone.revoked record hstays (List.mem_map_of_mem hr)
  rw [hconfirmed] at hrevoked
  cases hrevoked

/-- Nothing has been replaced, and a later pass has finished: it found the claims
on the key, and each with its confirmed record. -/
theorem untouched_of_done (hs : s.Stored) (h : Withdrawal records claims key s) (hne : claims ≠ [])
    (hur : u.records = s.records) (huc : u.claims = s.claims) (hw : Waited u v)
    (hdone : Done records claims (reconcileSync resume socket v).state.records
      (reconcileSync resume socket v).state.claims) :
    (∀ claim ∈ claims, claim.key = key) ∧
      ∀ claim ∈ s.claims, claim.key = key → claim.phase ≠ .ended → s.Confirmed claim := by
  have hd : (u.claims.map (·.claimId)).Nodup := huc ▸ hs.claimIds
  have hconfirmed : ∀ claim ∈ claims, ∀ other ∈ s.claims, other.phase ≠ .ended → other.key = claim.key →
      s.Confirmed other := by
    intro claim hc other ho hop hkey
    obtain ⟨hin, hp, -⟩ := h.unresolved claim hc
    by_contra hnot
    have hstays := unconfirmed_stays resume socket records hw hd hc (huc ▸ hin) hp (huc ▸ ho) hop hkey (by
      rwa [X11State.Confirmed, hur])
    exact hstays hdone
  have hkeys : ∀ claim ∈ claims, claim.key = key := by
    intro claim hc
    obtain ⟨hin, hp, record, hr, hrid⟩ := h.unresolved claim hc
    obtain ⟨found, hfound, hfid, -, hfkey⟩ := hconfirmed claim hc claim hin hp rfl
    obtain ⟨hrin, -, hrkey⟩ := h.confirmed record hr
    have hsame : found = record := Directory.eq_of_name_eq hs.recordIds hfound hrin (hfid.trans hrid.symm)
    rw [← hfkey, hsame, hrkey]
  obtain ⟨claim, hc⟩ := List.exists_mem_of_ne_nil _ hne
  exact ⟨hkeys, fun other ho hkey hop => hconfirmed claim hc other ho hop (hkey.trans (hkeys claim hc).symm)⟩

/-- Nothing has been replaced: the next pass starts over. -/
theorem untouched_resumes (hs : s.Stored) (h : Withdrawal records claims key s) (hne : claims ≠ [])
    (hkeys : ∀ claim ∈ claims, claim.key = key)
    (hcons : ∀ claim ∈ s.claims, claim.key = key → claim.phase ≠ .ended → s.Confirmed claim)
    (hur : u.records = s.records) (huc : u.claims = s.claims) (hw : Waited u v) (hv : v.Stored)
    (henv : Answering resume socket key) (hwait : Waiting resume key v.claims) :
    Done records claims (reconcileSync resume socket v).state.records
      (reconcileSync resume socket v).state.claims := by
  have hd : (u.claims.map (·.claimId)).Nodup := huc ▸ hs.claimIds
  have hlater : ∀ claim ∈ claims, ∃ later ∈ v.claims, later.claimId = claim.claimId ∧ later.key = key ∧
      later.grantRecordId = claim.grantRecordId ∧ later.phase ≠ .ended := by
    intro claim hc
    obtain ⟨hin, hp, -⟩ := h.unresolved claim hc
    obtain ⟨later, hl, hid, hlkey, hgrant, hphase⟩ := hw.later hd (huc ▸ hin)
    exact ⟨later, hl, hid, hlkey.trans (hkeys claim hc), hgrant, fun he => hp (hphase.mp he)⟩
  have hconfirmed : ∀ later ∈ v.claims, later.key = key → later.phase ≠ .ended → v.Confirmed later := by
    intro later hl hkey hp
    obtain ⟨claim, hc, -, hckey, hgrant, hphase⟩ := hw.claims later hl
    obtain ⟨record, hr, hrid, hrphase, hrkey⟩ :=
      hcons claim (huc ▸ hc) (hckey.symm.trans hkey) fun he => hp (hphase.mpr he)
    refine ⟨record, ?_, hrid.trans hgrant.symm, hrphase, hrkey.trans hckey.symm⟩
    rw [hw.records, hur]
    exact hr
  have hsome : ∃ later ∈ v.claims, later.key = key ∧ later.phase ≠ .ended := by
    obtain ⟨claim, hc⟩ := List.exists_mem_of_ne_nil _ hne
    obtain ⟨later, hl, -, hkey, -, hp⟩ := hlater claim hc
    exact ⟨later, hl, hkey, hp⟩
  have hpass := reconcileSync_resumes henv hv hwait hsome hconfirmed
  refine ⟨fun record hr hid => ?_, fun claim hc hid => ?_⟩
  · obtain ⟨ours, hours, hrid⟩ := List.mem_map.mp hid
    obtain ⟨claim, hc, hgrant⟩ := h.owned hne ours hours
    obtain ⟨later, hl, -, hkey, hlgrant, hp⟩ := hlater claim hc
    exact (hpass later hl hkey hp).2 record hr (hrid.symm.trans (hgrant.symm.trans hlgrant.symm))
  · obtain ⟨ours, hours, hcid⟩ := List.mem_map.mp hid
    obtain ⟨later, hl, hlid, hkey, -, hp⟩ := hlater ours hours
    exact (hpass later hl hkey hp).1 claim hc (hcid.symm.trans hlid.symm)

theorem length_outcomes_le (env : Environment) (n : ℕ) (finalization : Finalization) :
    effects (finalization.outcomes env n) ≤ finalization.records.length + finalization.claims.length := by
  refine (effects_le _).trans ?_
  cases finalization with
  | byPass pass group records progress =>
    unfold Finalization.outcomes
    dsimp only
    rw [List.length_append, length_recordOutcomes, length_claimOutcomes]
  | byRevocation available claims record unfinalized unended =>
    unfold Finalization.outcomes revocationOutcomes
    dsimp only
    rw [List.length_append]
    refine Nat.add_le_add_left ?_ 1
    split_ifs with hempty
    · exact Nat.zero_le _
    · split
      · rw [length_claimOutcomes]
      · exact List.length_pos_iff.mpr fun hnil => hempty (List.isEmpty_iff.mpr hnil)

/-- A finalization that its failed writes cut short is made whole by a later pass
that finds the machines absent and whose writes succeed, if and only if no file
had been replaced and each claim on the key has its confirmed record, or every
file had been. -/
theorem finalization_resumed_iff (finalization : Finalization) (hs : s.Stored) (hstart : finalization.Starts s)
    (hw : Waited (finalization.run env s).state v) (hv : v.Stored)
    (henv : Answering resume socket finalization.key) (hwait : Waiting resume finalization.key v.claims) :
    Done finalization.records finalization.claims (reconcileSync resume socket v).state.records
      (reconcileSync resume socket v).state.claims ↔ finalization.Resumable s env := by
  have h := hstart.withdrawal hs
  have hu : Finalized _ _ s _ (finalization.run env s).state := finalization.run_effect (hstart.loaded hs) hs.recordIds
    (fun record hr => (h.confirmed record hr).1) h.recordIds
    fun claim hc => hs.valid claim (h.unresolved claim hc).1
  have hle := length_outcomes_le env s.calls finalization
  have hlength := List.length_pos_iff.mpr h.nonempty
  unfold Finalization.Resumable
  rcases Nat.eq_zero_or_pos (effects (finalization.outcomes env s.calls)) with hzero | hpos
  · rw [hzero] at hu ⊢
    have hur : (finalization.run env s).state.records = s.records := hu.revoked
    have huc : (finalization.run env s).state.claims = s.claims := by
      have hended := hu.ended
      rw [Nat.zero_sub] at hended
      exact hended
    by_cases hempty : finalization.claims = []
    · have hstays := unowned_stays resume socket hs h hempty hur huc hw
      refine ⟨fun hdone => absurd hdone hstays, ?_⟩
      rintro (⟨-, hne, -⟩ | hall)
      · exact absurd hempty hne
      · omega
    · constructor
      · intro hdone
        exact .inl ⟨rfl, hempty, untouched_of_done hs h hempty hur huc hw hdone⟩
      · rintro (⟨-, -, hkeys, hcons⟩ | hall)
        · exact untouched_resumes hs h hempty hkeys hcons hur huc hw hv henv hwait
        · omega
  · have hd : ((finalization.run env s).state.claims.map (·.claimId)).Nodup := by
      rw [hu.ended]
      exact Directory.nodup_putAll _ hs.claimIds
    have hdr : ((finalization.run env s).state.records.map (·.recordId)).Nodup := by
      rw [hu.revoked]
      exact Directory.nodup_putAll _ hs.recordIds
    by_cases hall : effects (finalization.outcomes env s.calls) =
        finalization.records.length + finalization.claims.length
    · refine ⟨fun _ => .inr hall, fun _ => done_kept resume socket (hw.ids ▸ hd) (hw.done ?_)⟩
      exact done_of_finalized hs hu hall.ge
    · obtain ⟨claim, hc, hin, record, -, hrid, hr⟩ :=
        stranded_of_finalized h hu hpos (Nat.lt_of_le_of_ne hle hall)
      have hstays := stranded_stays resume socket finalization.records hw hd hdr hc hin
        (h.unresolved claim hc).2.1 hrid hr
      refine ⟨fun hdone => absurd hdone hstays, ?_⟩
      rintro (⟨hnone, -⟩ | hwhole)
      · omega
      · exact absurd hwhole hall

section AbsentMachine

/-- The machine is gone, the entry has left the ACL, and files are written as
given. -/
def absentMachine (write : ℕ → WriteOutcome) : Environment :=
  { twoEndpoints with
    write
    unixMillis := fun _ => .ok 9000
    readAcl := fun _ => .ok ⟨.enabled, []⟩
    systemMachineRegistration := fun _ _ => .absent }

/-- A disk that is full for one write. -/
def fullAt (question n : ℕ) : WriteOutcome :=
  if n = question then .rejected "No space left on device" else .written

def staleKey : ManagedX11GrantKey where
  hostUid := 1000
  display := 0
  alternateEndpoint := false
  source := "/tmp/.X11-unix/X0"
  canonicalSource := "/tmp/.X11-unix/X0"
  socketRevision := ⟨1, 10, 0, 0⟩
  serverPeer := (100, 1000, 1000)
  serverPeerStartTime := 77
  aclFamily := 5
  aclAddress := numericLocalUserAddress 1000

/-- The finalization that a pass over the stale store comes to. -/
def staleFinalization : Finalization :=
  .byPass ⟨endpoint false, true, staleStore.listedClaims true, staleStore.listedRecords, 77,
      "2b1f4c6e-8a3d-4e5f-9b7a-1c2d3e4f5a6b", 9000⟩
    ⟨staleKey, staleStore.claims.map fun claim => ⟨claim.claimId, claim.grantRecordId, claim.key, .ready⟩⟩
    staleStore.records ⟨⟨.enabled, []⟩, { display := 0 }⟩

private theorem absentMachine_answering :
    Answering (absentMachine fun _ => .written) (endpoint false) staleKey where
  opened _ := rfl
  lock _ := rfl
  readClaims _ := rfl
  readRecords _ := rfl
  readRecord _ := rfl
  write _ := rfl
  connect _ := rfl
  current _ := rfl
  start _ := rfl
  boot _ := ⟨_, rfl⟩
  clock _ := ⟨_, rfl⟩
  acl _ := ⟨_, rfl, rfl, rfl⟩
  endpoint := by decide +kernel

private theorem absentMachine_waiting {claims : List ManagedX11MachineClaim} (h : ∀ claim ∈ claims,
    claim.phase = .cleanupPending 1000 ∧ claim.bootId = "2b1f4c6e-8a3d-4e5f-9b7a-1c2d3e4f5a6b") :
    Waiting (absentMachine fun _ => .written) staleKey claims := by
  intro claim hc _ _
  obtain ⟨hphase, hboot⟩ := h claim hc
  refine ⟨1000, hphase, fun n now hnow => ?_, fun n bootId hb => ?_, fun _ => rfl⟩
  · cases hnow
    decide
  · cases hb
    exact hboot

instance (s : X11State) : Decidable s.Stored :=
  decidable_of_iff ((s.claims.map (·.claimId)).Nodup ∧ (s.records.map (·.recordId)).Nodup ∧
      (∀ claim ∈ s.claims, claim.validate = .ok ()) ∧ s.claims.length ≤ maxMachineClaims ∧
      s.records.length ≤ maxGrantRecords)
    ⟨fun ⟨hc, hr, hv, hfc, hfr⟩ => ⟨hc, hr, hv, hfc, hfr⟩, fun ⟨hc, hr, hv, hfc, hfr⟩ => ⟨hc, hr, hv, hfc, hfr⟩⟩

private theorem stored_staleStore : staleStore.Stored := by decide +kernel

private theorem confirmed_staleStore : ∀ claim ∈ staleStore.claims, staleStore.Confirmed claim := by
  have hall : ∀ claim ∈ staleStore.claims, ∃ record ∈ staleStore.records,
      record.recordId = claim.grantRecordId ∧ record.phase = .confirmedAdded ∧ record.key = claim.key := by
    decide +kernel
  exact hall

/-- The finalization starts from what is stored, and its only claim waits. -/
private theorem staleFinalization_facts : staleFinalization.Starts staleStore ∧ staleFinalization.claims ≠ [] ∧
    (∀ claim ∈ staleFinalization.claims,
      claim ∈ staleStore.claims ∧ claim.key = staleFinalization.key ∧ claim.phase ≠ .ended) ∧
    ∀ claim ∈ staleStore.claims,
      claim.phase = .cleanupPending 1000 ∧ claim.bootId = "2b1f4c6e-8a3d-4e5f-9b7a-1c2d3e4f5a6b" := by
  refine ⟨⟨rfl, rfl, ?_⟩, ?_⟩
  all_goals decide +kernel

private theorem waited_refl (s : X11State) : Waited s s :=
  ⟨rfl, rfl, fun claim hc => ⟨claim, hc, rfl, rfl, rfl, Iff.rfl⟩⟩

private theorem stored_of_ids {s : X11State} (hclaims : s.claims = staleStore.claims)
    (hrecords : s.records.map (·.recordId) = staleStore.records.map (·.recordId)) : s.Stored := by
  have h := stored_staleStore
  refine ⟨hclaims ▸ h.claimIds, hrecords ▸ h.recordIds, hclaims ▸ h.valid, hclaims ▸ h.fewClaims, ?_⟩
  rw [← List.length_map (·.recordId), hrecords, List.length_map]
  exact h.fewRecords

/-- The record could not be written; the next pass does it all. -/
theorem finalization_resumed_stale :
    staleFinalization.Resumable staleStore (absentMachine (fullAt 1)) ∧
      Done staleFinalization.records staleFinalization.claims
        (reconcileSync (absentMachine fun _ => .written) (endpoint false)
          (staleFinalization.run (absentMachine (fullAt 1)) staleStore).state).state.records
        (reconcileSync (absentMachine fun _ => .written) (endpoint false)
          (staleFinalization.run (absentMachine (fullAt 1)) staleStore).state).state.claims := by
  obtain ⟨hstarts, hne, hkeys, hwaits⟩ := staleFinalization_facts
  obtain ⟨hnone, hclaims, hrecords⟩ :
      effects (staleFinalization.outcomes (absentMachine (fullAt 1)) staleStore.calls) = 0 ∧
        (staleFinalization.run (absentMachine (fullAt 1)) staleStore).state.claims = staleStore.claims ∧
        (staleFinalization.run (absentMachine (fullAt 1)) staleStore).state.records.map (·.recordId) =
          staleStore.records.map (·.recordId) := by
    decide +kernel
  have hresumable : staleFinalization.Resumable staleStore (absentMachine (fullAt 1)) :=
    .inl ⟨hnone, hne, fun claim hc => (hkeys claim hc).2.1, fun claim hc _ _ => confirmed_staleStore claim hc⟩
  have hwaiting : Waiting (absentMachine fun _ => .written) staleKey
      (staleFinalization.run (absentMachine (fullAt 1)) staleStore).state.claims :=
    absentMachine_waiting (hclaims ▸ hwaits)
  exact ⟨hresumable, (finalization_resumed_iff staleFinalization stored_staleStore hstarts (waited_refl _)
    (stored_of_ids hclaims hrecords) absentMachine_answering hwaiting).mpr hresumable⟩

/-- The pass revokes the record and cannot write the claim. The next pass, in
which everything succeeds, does not end the claim. -/
theorem half_finalized_claim_stays :
    ∃ u t : X11State, u = (reconcileSync (absentMachine (fullAt 15)) (endpoint false) staleStore).state ∧
      t = (reconcileSync (absentMachine fun _ => .written) (endpoint false) u).state ∧
      staleStore.Stored ∧ (∀ claim ∈ staleStore.claims, staleStore.Confirmed claim) ∧ u.Stored ∧
      Answering (absentMachine fun _ => .written) (endpoint false) staleKey ∧
      Waiting (absentMachine fun _ => .written) staleKey u.claims ∧
      (∀ record ∈ u.records, record.phase = .revoked) ∧
      ¬ Done staleFinalization.records staleFinalization.claims t.records t.claims := by
  obtain ⟨hstarts, hne, hkeys, hwaits⟩ := staleFinalization_facts
  obtain ⟨hclaims, hrecords, hrevoked⟩ :
      (reconcileSync (absentMachine (fullAt 15)) (endpoint false) staleStore).state.claims = staleStore.claims ∧
        (reconcileSync (absentMachine (fullAt 15)) (endpoint false) staleStore).state.records.map (·.recordId) =
          staleStore.records.map (·.recordId) ∧
        ∀ record ∈ (reconcileSync (absentMachine (fullAt 15)) (endpoint false) staleStore).state.records,
          record.phase = .revoked := by
    decide +kernel
  have hstored := stored_of_ids hclaims hrecords
  refine ⟨_, _, rfl, rfl, stored_staleStore, confirmed_staleStore, hstored, absentMachine_answering,
    absentMachine_waiting (hclaims ▸ hwaits), hrevoked, ?_⟩
  -- the claim is found with its record, which is not confirmed any more
  obtain ⟨claim, hc⟩ := List.exists_mem_of_ne_nil _ hne
  obtain ⟨hin, -, hunresolved⟩ := hkeys claim hc
  rw [← hclaims] at hin
  refine unconfirmed_stays _ _ _ (waited_refl _) hstored.claimIds hc hin hunresolved hin hunresolved rfl ?_
  rintro ⟨record, hr, -, hconfirmed, -⟩
  rw [hrevoked record hr] at hconfirmed
  cases hconfirmed

end AbsentMachine

end Resumed

end Lasper.X11
