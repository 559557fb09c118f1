import Lasper.X11.Finalization

/-! Whether a later pass completes a finalization that was cut short. The pass
works on claims whose grant records are all still confirmed: it completes what
had not replaced a file yet, and never ends a claim whose record is revoked. -/

namespace Lasper.X11

open Lib Traced

/-- The given records are revoked and the given claims ended. -/
structure Done (records : List ManagedX11GrantRecord) (claims : List ManagedX11MachineClaim)
    (storedRecords : List ManagedX11GrantRecord) (storedClaims : List ManagedX11MachineClaim) : Prop where
  revoked : ∀ record ∈ storedRecords, record.recordId ∈ records.map (·.recordId) → record.phase = .revoked
  ended : ∀ claim ∈ storedClaims, claim.claimId ∈ claims.map (·.claimId) → claim.phase = .ended

/-- The claim has its confirmed grant record in the store. -/
def X11State.Confirmed (s : X11State) (claim : ManagedX11MachineClaim) : Prop :=
  ∃ record ∈ s.records, record.recordId = claim.grantRecordId ∧ record.phase = .confirmedAdded ∧
    record.key = claim.key

section Never

variable {s : X11State}

theorem reconcileSync_state {env : Environment} {P : X11State → Prop} {socket : HostX11Socket}
    (h : Ensures P (reconcileSync env socket) (fun _ => P) (fun _ => P) s) :
    P (reconcileSync env socket s).state := by
  cases hr : (reconcileSync env socket s).result with
  | ok report => exact h.returned report hr
  | error error => exact h.failed error hr

variable (env : Environment)

/-- What is done stays done. -/
theorem done_kept {records : List ManagedX11GrantRecord} {claims : List ManagedX11MachineClaim}
    (socket : HostX11Socket) (hd : (s.claims.map (·.claimId)).Nodup)
    (hs : Done records claims s.records s.claims) :
    Done records claims (reconcileSync env socket s).state.records (reconcileSync env socket s).state.claims := by
  refine reconcileSync_state (P := OnFiles (Done records claims)) (reconcileSync_keeping socket hd ?_ hs)
  intro pass hload
  have hother : ∀ claim ∈ pass.claims, pass.concerns claim → claim.claimId ∉ claims.map (·.claimId) :=
    fun claim hc hcon hin => concerns_unresolved hcon (hs.ended claim (hload.claims claim hc) hin)
  refine ⟨?_, ?_, ?_⟩
  · intro claim hc _ hcon phase _ rs cs h
    refine ⟨h.revoked, fun other ho hin => ?_⟩
    rcases Directory.eq_or_mem_of_mem_put ho with rfl | ho
    · exact absurd hin (hother claim hc hcon)
    · exact h.ended other ho hin
  · intro claim hc _ hcon _ rs cs h
    refine ⟨h.revoked, fun other ho hin => ?_⟩
    rcases Directory.eq_or_mem_of_mem_put ho with rfl | ho
    · rfl
    · exact h.ended other ho hin
  · intro claim hc _ hcon _ rs cs found _ _ h
    refine ⟨fun record hr hin => ?_, h.ended⟩
    rcases Directory.eq_or_mem_of_mem_put hr with rfl | hr
    · rfl
    · exact h.revoked record hr hin

/-- While an unresolved claim on the key lacks its confirmed grant record, no claim
on the key is ended. -/
theorem unconfirmed_key_stays (socket : HostX11Socket) (hd : (s.claims.map (·.claimId)).Nodup)
    {claim other : ManagedX11MachineClaim} (hc : claim ∈ s.claims) (hp : claim.phase ≠ .ended) (ho : other ∈ s.claims)
    (hop : other.phase ≠ .ended) (hkey : other.key = claim.key) (hnot : ¬ s.Confirmed other) :
    ∃ stored ∈ (reconcileSync env socket s).state.claims, stored.claimId = claim.claimId ∧ stored.phase ≠ .ended := by
  refine reconcileSync_state (P := OnFiles fun _ claims => ∃ stored ∈ claims, stored.claimId = claim.claimId ∧
    stored.phase ≠ .ended) (reconcileSync_keeping socket hd ?_ ⟨claim, hc, rfl, hp⟩)
  intro pass hload
  refine ⟨?_, ?_, ?_⟩
  · rintro member hm _ _ phase hphase rs cs ⟨stored, hs, hid, hsp⟩
    by_cases he : stored.claimId = member.claimId
    · exact ⟨_, Directory.mem_put_self, he.symm.trans hid, hphase⟩
    · exact ⟨stored, Directory.mem_put_of_ne hs he, hid, hsp⟩
  · rintro member hm _ hcon hall rs cs ⟨stored, hs, hid, hsp⟩
    refine ⟨stored, Directory.mem_put_of_ne hs fun he => hnot ?_, hid, hsp⟩
    have hid' : stored.claimId = member.claimId := he
    have hsame : member = claim := Directory.eq_of_name_eq hd (hload.claims member hm) hc (hid'.symm.trans hid)
    have hsk : other.key = member.key := hkey.trans (congrArg _ hsame.symm)
    have hin := hload.complete (List.ne_nil_of_mem hm) other ho
    obtain ⟨record, hrecord, hrest⟩ := hall other hin (concerns_of_key hcon hop hsk) hsk
    exact ⟨record, hload.records record hrecord, hrest⟩
  · exact fun _ _ _ _ _ _ _ _ _ _ h => h

/-- A grant record that no unresolved claim names is left alone. -/
theorem unclaimed_record_stays (socket : HostX11Socket) (hd : (s.claims.map (·.claimId)).Nodup)
    {record : ManagedX11GrantRecord} (hr : record ∈ s.records)
    (hc : ∀ claim ∈ s.claims, claim.phase ≠ .ended → claim.grantRecordId ≠ record.recordId) :
    record ∈ (reconcileSync env socket s).state.records := by
  refine reconcileSync_state (P := OnFiles fun records _ => record ∈ records)
    (reconcileSync_keeping socket hd ?_ hr)
  intro pass hload
  refine ⟨fun _ _ _ _ _ _ _ _ h => h, fun _ _ _ _ _ _ _ h => h, ?_⟩
  intro claim hmem _ hcon _ rs cs found _ hfound h
  refine Directory.mem_put_of_ne h fun he => ?_
  have hid : record.recordId = found.recordId := he
  exact hc claim (hload.claims claim hmem) (concerns_unresolved hcon) (hfound.symm.trans hid.symm)

end Never

/-- Everything the pass asks for is answered, every write succeeds, and the entry
of the key is not in the ACL. -/
structure Answering (env : Environment) (socket : HostX11Socket) (key : ManagedX11GrantKey) : Prop where
  opened : ∀ n, env.openExisting n = .ok (some true)
  lock : ∀ n, env.lock n = .ok ()
  readClaims : ∀ n, env.readClaims n = .ok ()
  readRecords : ∀ n, env.readRecords n = .ok ()
  readRecord : ∀ n, env.readRecord n = .ok ()
  write : ∀ n, env.write n = .written
  connect : ∀ n, env.connectCurrentSocket n = .ok ()
  current : ∀ n, env.requireCurrentSocket n = .ok ()
  start : ∀ n, env.peerStartTime n = .ok key.serverPeerStartTime
  boot : ∀ n, ∃ bootId, env.hostBootId n = .ok bootId
  clock : ∀ n, ∃ now, env.unixMillis n = .ok now
  acl : ∀ n, ∃ acl, env.readAcl n = .ok acl ∧ acl.mode = .enabled ∧ acl.contains key.aclEntry = false
  endpoint : claimKeyMatchesSocket key socket key.serverPeerStartTime = true

/-- The machines of the key's unresolved claims are still absent, past the grace
period and in the same boot. -/
def Waiting (env : Environment) (key : ManagedX11GrantKey) (claims : List ManagedX11MachineClaim) : Prop :=
  ∀ claim ∈ claims, claim.key = key → claim.phase ≠ .ended → ∃ since, claim.phase = .cleanupPending since ∧
    (∀ n now, env.unixMillis n = .ok now → since + claimReconcileGraceMillis ≤ now) ∧
    (∀ n bootId, env.hostBootId n = .ok bootId → claim.bootId = bootId) ∧
    ∀ n, env.systemMachineRegistration n claim.machine = .absent

section Answered

variable {env : Environment} {socket : HostX11Socket} {key : ManagedX11GrantKey} {s : X11State}
  {E : String → X11State → Prop} {I : X11State → Prop}

theorem ensures_askOk {α : Type} {answer : ℕ → Except String α} {a : α} (h : answer s.calls = .ok a)
    (hI : I s.asked) : Ensures I (askResult answer) (fun b t => b = a ∧ t = s.asked) E s := by
  refine ensures_bind (ensures_ask hI) ?_
  rintro result t ⟨rfl, rfl⟩
  rw [h]
  exact ensures_pure ⟨rfl, rfl⟩

/-- A claim past its grace period is found ready and left as it is. -/
theorem reconcileClaim_ready (available : Bool) {claim : ManagedX11MachineClaim} {bootId : String} {since now : ℕ}
    (hp : claim.phase = .cleanupPending since) (hb : claim.bootId = bootId)
    (hg : since + claimReconcileGraceMillis ≤ now) :
    Ensures (fun _ => True) (reconcileClaim env available claim bootId .absent now)
      (fun status t => status = some .ready ∧ t.records = s.records ∧ t.claims = s.claims) E s := by
  have hready : observeMachineClaim claim (some bootId) .absent now = some .cleanupReady := by
    unfold observeMachineClaim
    rw [hp]
    have hge : now - since ≥ claimReconcileGraceMillis := Nat.le_sub_of_add_le (by rw [Nat.add_comm]; exact hg)
    simp only [checkBoot, observePending, hb, ne_eq, not_true_eq_false, if_false, if_pos hge]
  unfold reconcileClaim
  rw [hready]
  refine ensures_bind (Q := fun result t => result = .ok () ∧ t.records = s.records ∧ t.claims = s.claims)
    (ensures_bind (ensures_update (R := fun _ t => t.records = s.records ∧ t.claims = s.claims) trivial
      ⟨rfl, rfl⟩) fun _ t ht => ensures_pure ⟨rfl, ht⟩) ?_
  rintro result t ⟨rfl, ht⟩
  exact ensures_pure ⟨rfl, ht⟩

/-- The records that were loaded are still there, in whatever phase. -/
def Names (pass : Pass) (records : List ManagedX11GrantRecord) : Prop :=
  ∀ record ∈ pass.records, record.recordId ∈ records.map (·.recordId)

theorem markRecordPhaseSync_answers (henv : Answering env socket key) {recordId : String}
    (h : recordId ∈ s.records.map (·.recordId)) :
    Ensures (fun _ => True) (markRecordPhaseSync env recordId .revoked)
      (fun _ t => ∀ id ∈ s.records.map (·.recordId), id ∈ t.records.map (·.recordId)) E s := by
  refine ensures_bind (ensures_askOk (henv.readRecord _) trivial) ?_
  rintro _ t ⟨_, rfl⟩
  refine ensures_bind (ensures_read (Q := fun found t => t = s.asked ∧
    found = s.records.find? (·.recordId = recordId)) ⟨rfl, rfl⟩) ?_
  rintro found t ⟨rfl, hfound⟩
  cases found with
  | none =>
    obtain ⟨record, hr, hid⟩ := List.mem_map.mp h
    have := List.find?_eq_none.mp hfound.symm record hr
    simp [hid] at this
  | some found =>
    refine ensures_bind (ensures_ask trivial) ?_
    rintro outcome t ⟨rfl, rfl⟩
    rw [henv.write]
    refine ensures_bind (ensures_update (R := fun _ t => ∀ id ∈ s.records.map (·.recordId),
      id ∈ t.records.map (·.recordId)) trivial ?_) fun _ t ht => ensures_pure ht
    exact fun id hid => Directory.name_mem_put_of_mem hid

theorem endOne_answers (henv : Answering env socket key) {claim : ManagedX11MachineClaim}
    (hv : claim.validate = .ok ()) :
    Ensures (fun _ => True) (endOne env claim) (fun _ t => t.records = s.records) E s := by
  refine (endOne_effect hv).mono (fun _ _ h => h.2.2.1) ?_
  rintro _ _ ⟨hne, -⟩
  exact absurd (henv.write _) hne

theorem catalogClaim_mem {pass : Pass} {member : ReconcileClaim} {claim : ManagedX11MachineClaim}
    (h : (pass.catalogClaim member).toOption = some claim) :
    claim ∈ pass.claims ∧ claim.claimId = member.claimId := by
  unfold Pass.catalogClaim at h
  split at h
  · rename_i found hf
    cases h
    exact ⟨List.mem_of_find?_eq_some hf, by simpa using List.find?_some hf⟩
  · cases h

/-- The claim files of a group carry the ids of its members. -/
theorem catalogClaims_ids {pass : Pass} (members : List ReconcileClaim)
    (hm : ∀ member ∈ members, ∃ claim, pass.catalogClaim member = .ok claim) :
    (members.filterMap fun member => (pass.catalogClaim member).toOption).map (·.claimId) =
      members.map (·.claimId) := by
  induction members with
  | nil => rfl
  | cons member members ih =>
    obtain ⟨claim, hc⟩ := hm member List.mem_cons_self
    have hfound : (pass.catalogClaim member).toOption = some claim := by
      rw [hc]
      rfl
    have hid := (catalogClaim_mem hfound).2
    rw [List.filterMap_cons]
    simp only [hfound, List.map_cons, hid, ih fun other ho => hm other (List.mem_cons_of_mem _ ho)]

section Group

variable {pass : Pass} {group : ReconcileGroup}
  (henv : Answering env socket key) (havailable : pass.available = true)
  (hd : (pass.claims.map (·.claimId)).Nodup) (hv : ∀ claim ∈ pass.claims, claim.validate = .ok ())
  (hm : ∀ member ∈ group.claims, pass.Stands group.key member)

include henv havailable hd hv hm

theorem finishGroup_answers {records : List ManagedX11GrantRecord} (hr : ∀ record ∈ records, record ∈ pass.records)
    (progress : Progress) (hs : Names pass s.records) :
    Ensures (fun _ => True) (finishGroup env pass group records progress)
      (fun result t => Names pass t.records ∧ result.acl = progress.acl) E s := by
  refine ensures_bind (ensures_forEach (K := fun t => Names pass t.records) (fun record hrec t ht => ?_) hs) ?_
  · refine (markRecordPhaseSync_answers henv (ht record (hr record hrec))).post fun _ u hu => ?_
    exact fun other ho => hu _ (ht other ho)
  · intro _ t ht
    have hcatalog : ∀ member ∈ group.claims, ∃ claim, pass.catalogClaim member = .ok claim := by
      intro member hmem
      obtain ⟨claim, hc, -, hid, -, -⟩ := hm member hmem
      exact ⟨claim, catalogClaim_eq hd hc hid⟩
    rw [forEach_markEnded havailable group.claims hcatalog]
    refine ensures_bind (ensures_forEach (K := fun t => Names pass t.records) (fun claim hc u hu => ?_) ht)
      fun _ u hu => ensures_pure ⟨hu, rfl⟩
    obtain ⟨member, -, hfound⟩ := List.mem_filterMap.mp hc
    exact (endOne_answers henv (hv claim (catalogClaim_mem hfound).1)).post fun _ w hw => by rw [hw]; exact hu

omit havailable hv hm in
theorem recheckMembers_answers {otherKey : ManagedX11GrantKey} (members : List ReconcileClaim)
    (hmembers : ∀ member ∈ members, pass.Stands otherKey member) (ready : Bool) (progress : Progress) :
    Ensures (fun _ => True) (recheckMembers env pass members ready progress)
      (fun result t => t.records = s.records ∧ result.2.acl = progress.acl) E s := by
  induction members generalizing ready progress s with
  | nil => exact ensures_pure ⟨rfl, rfl⟩
  | cons member members ih =>
    obtain ⟨claim, hc, hcon, hid, -, -⟩ := hmembers member List.mem_cons_self
    refine ensures_bind (Q := fun _ t => t.records = s.records) ?_ fun status t ht => ?_
    · unfold recheckMember
      rw [catalogClaim_eq hd hc hid, ofExcept_ok_bind]
      refine ensures_bind (ensures_ask trivial) ?_
      rintro registration t ⟨rfl, rfl⟩
      obtain ⟨now, hnow⟩ := henv.clock s.asked.calls
      refine ensures_bind (ensures_askOk hnow trivial) ?_
      rintro _ t ⟨rfl, rfl⟩
      exact (reconcileClaim_effect _ _ _ _ (concerns_unresolved hcon)).post fun _ _ h => h.2
    · rw [← ht]
      exact ih (fun other ho => hmembers other (List.mem_cons_of_mem _ ho)) _ _

theorem revokeGroup_answers {records : List ManagedX11GrantRecord} (hr : ∀ record ∈ records, record ∈ pass.records)
    (progress : Progress) (hacl : progress.acl.contains key.aclEntry = false) (hs : Names pass s.records) :
    Ensures (fun _ => True) (revokeGroup env pass group records progress)
      (fun result t => Names pass t.records ∧ result.acl.contains key.aclEntry = false) E s := by
  have hfinish : ∀ (t : X11State) (next : Progress), Names pass t.records →
      next.acl.contains key.aclEntry = false → Ensures (fun _ => True) (finishGroup env pass group records next)
        (fun result u => Names pass u.records ∧ result.acl.contains key.aclEntry = false) E t :=
    fun t next ht hnext => (finishGroup_answers henv havailable hd hv hm hr next ht).post
      fun result u hu => ⟨hu.1, hu.2 ▸ hnext⟩
  unfold revokeGroup
  split
  · obtain ⟨acl, hread, -, hlacks⟩ := henv.acl (s.calls + 1)
    refine ensures_bind (Q := fun answers t => Names pass t.records ∧ answers.2 = .ok acl) ?_ ?_
    · refine ensures_bind (ensures_update (R := fun _ t => t.calls = s.calls ∧ t.records = s.records)
        trivial ⟨rfl, rfl⟩) ?_
      rintro _ t ⟨hcalls, hrecords⟩
      refine ensures_bind (ensures_ask trivial) ?_
      rintro change u ⟨rfl, rfl⟩
      refine ensures_bind (ensures_ask trivial) ?_
      rintro observed u ⟨rfl, rfl⟩
      refine ensures_pure ⟨?_, ?_⟩
      · unfold X11State.asked
        rw [hrecords]
        exact hs
      · simp only [X11State.asked, hcalls]
        exact hread
    · rintro ⟨change, observed⟩ t ⟨ht, rfl⟩
      refine ensures_bind (ensures_ask trivial) ?_
      rintro socketResult u ⟨rfl, rfl⟩
      refine ensures_bind (ensures_ask trivial) ?_
      rintro current u ⟨rfl, rfl⟩
      unfold concludeRemoval
      split
      · rw [ofExcept_ok_bind]
        split
        · exact ensures_pure ⟨ht, hlacks⟩
        · exact hfinish _ _ ht hlacks
      · refine ensures_bind (ensures_forEach (K := fun w => Names pass w.records)
          (fun member hmem w hw => ?_) ht) fun _ w hw => ensures_pure ⟨hw, hacl⟩
        obtain ⟨claim, hc, -, hid, -, -⟩ := hm member hmem
        unfold markUncertain markMember
        rw [catalogClaim_eq hd hc hid, ofExcept_ok_bind]
        refine ensures_bind (Q := fun _ x => Names pass x.records) ?_ fun _ x hx => ensures_pure hx
        refine ensures_bind (ensures_ask trivial) ?_
        rintro outcome x ⟨rfl, rfl⟩
        exact ensures_bind (ensures_update (R := fun _ x => Names pass x.records) trivial hw)
          fun _ x hx => ensures_pure hx
  · exact hfinish s progress hs hacl

/-- Under these answers no group fails the pass. -/
theorem reconcileGroup_answers (progress : Progress) (hacl : progress.acl.contains key.aclEntry = false)
    (hs : Names pass s.records) :
    Ensures (fun _ => True) (reconcileGroup env pass group progress)
      (fun result t => Names pass t.records ∧ result.acl.contains key.aclEntry = false) E s := by
  unfold reconcileGroup
  dsimp only
  split
  · exact ensures_pure ⟨hs, hacl⟩
  · split
    · exact ensures_pure ⟨hs, hacl⟩
    · rename_i records hrecords
      have hmatches := matchingRecords_matches hrecords
      have hr : ∀ record ∈ records, record ∈ pass.records := by
        intro record hrec
        obtain ⟨member, -, hmatch⟩ := hmatches.origin record hrec
        exact (matchingRecord_spec hmatch).1
      refine ensures_bind (recheckMembers_answers henv hd group.claims hm _ _) ?_
      rintro ⟨stillReady, next⟩ t ⟨ht, hnext⟩
      have hlacks : next.acl.contains key.aclEntry = false := by
        rw [show next.acl = progress.acl from hnext]
        exact hacl
      dsimp only
      split
      · exact revokeGroup_answers henv havailable hd hv hm hr next hlacks (ht ▸ hs)
      · exact ensures_pure ⟨ht ▸ hs, hlacks⟩

end Group

section Resume

variable {pass : Pass} {claims : List ManagedX11MachineClaim} {records : List ManagedX11GrantRecord}
  {f : ManagedX11MachineClaim → ManagedX11MachineClaim} {g : ManagedX11GrantRecord → ManagedX11GrantRecord}

/-- The given claims and records stand in the store in the given form. -/
structure Stand (f : ManagedX11MachineClaim → ManagedX11MachineClaim)
    (g : ManagedX11GrantRecord → ManagedX11GrantRecord) (claims : List ManagedX11MachineClaim)
    (records : List ManagedX11GrantRecord) (storedRecords : List ManagedX11GrantRecord)
    (storedClaims : List ManagedX11MachineClaim) : Prop where
  claims : ∀ claim ∈ claims, f claim ∈ storedClaims
  records : ∀ record ∈ records, g record ∈ storedRecords
  claimIds : (storedClaims.map (·.claimId)).Nodup
  recordIds : (storedRecords.map (·.recordId)).Nodup

/-- Writes for other keys do not touch them. -/
theorem stand_keeping (hf : ∀ claim, (f claim).claimId = claim.claimId)
    (hg : ∀ record, (g record).recordId = record.recordId) (hd : (pass.claims.map (·.claimId)).Nodup)
    (hdr : (pass.records.map (·.recordId)).Nodup) (hc : ∀ claim ∈ claims, claim ∈ pass.claims ∧ claim.key = key)
    (hr : ∀ record ∈ records, record ∈ pass.records ∧ record.key = key) :
    pass.Keeping (· ≠ key) (Stand f g claims records) := by
  have hclaim : ∀ other ∈ pass.claims, other.key ≠ key → ∀ phase rs cs, Stand f g claims records rs cs →
      Stand f g claims records rs (Directory.put (·.claimId) { other with phase } cs) := by
    intro other ho hkey phase rs cs h
    refine { h with claims := fun claim hin => ?_, claimIds := Directory.nodup_put h.claimIds }
    refine Directory.mem_put_of_ne (h.claims claim hin) fun he => hkey ?_
    have hid : claim.claimId = other.claimId := (hf claim).symm.trans he
    rw [← Directory.eq_of_name_eq hd (hc claim hin).1 ho hid]
    exact (hc claim hin).2
  refine ⟨?_, ?_, ?_⟩
  · exact fun other ho hkey _ phase _ rs cs h => hclaim other ho hkey phase rs cs h
  · exact fun other ho hkey _ _ rs cs h => hclaim other ho hkey .ended rs cs h
  · intro other ho hkey hcon hall rs cs found _ hfound h
    obtain ⟨mine, hmine, hid, -, hmkey⟩ := hall other ho hcon rfl
    refine { h with records := fun record hin => ?_, recordIds := Directory.nodup_put h.recordIds }
    refine Directory.mem_put_of_ne (h.records record hin) fun he => hkey ?_
    have hsame : record.recordId = mine.recordId := by
      have hmark : (g record).recordId = found.recordId := he
      rw [← hg record, hmark, hfound, hid]
    rw [← hmkey, ← Directory.eq_of_name_eq hdr (hr record hin).1 hmine hsame]
    exact (hr record hin).2

/-- A step that keeps the files and never fails. -/
theorem Ensures.unfailing {α : Type} {p : Desktop α} {P : X11State → Prop} {Q : α → X11State → Prop}
    (h : Ensures P p (fun _ => P) (fun _ => P) s) (hn : Ensures (fun _ => True) p Q (fun _ _ => False) s) :
    Ensures (fun _ => True) p (fun a t => P t ∧ Q a t) E s where
  always _ _ := trivial
  returned a ha := ⟨h.returned a ha, hn.returned a ha⟩
  failed e he := (hn.failed e he).elim

/-- The group of the key, once all claims have been observed: every member ready. -/
def AllReady (key : ManagedX11GrantKey) (groups : List ReconcileGroup) : Prop :=
  ∀ group ∈ groups, group.key = key → ∀ member ∈ group.claims, member.status = .ready

theorem AllReady.insert {groups : List ReconcileGroup} {member : ReconcileClaim} (h : AllReady key groups)
    (hm : member.key = key → member.status = .ready) : AllReady key (ReconcileGroup.insert member groups) := by
  intro group hg hk other ho
  rcases mem_insert hg with hg | ⟨old, hold, hkey, rfl⟩ | rfl
  · exact h group hg hk other ho
  · rcases List.mem_append.mp ho with ho | ho
    · exact h old hold hk other ho
    · rw [List.mem_singleton.mp ho]
      exact hm (hkey.symm.trans hk)
  · rw [List.mem_singleton.mp ho]
    exact hm hk

theorem observeClaims_answers (hd : (pass.claims.map (·.claimId)).Nodup)
    (hk : pass.Keeping (· ≠ key) (Stand f g claims records)) (hw : Waiting env key pass.claims)
    (hnow : ∃ n, env.unixMillis n = .ok pass.now) (hboot : ∃ n, env.hostBootId n = .ok pass.currentBootId)
    (rest : List ManagedX11MachineClaim) :
    ∀ (done : List ManagedX11MachineClaim) (groups : List ReconcileGroup) (s : X11State),
      pass.claims = done ++ rest → Filed pass done groups → AllReady key groups → AllStand pass groups →
      OnFiles (Stand f g claims records) s → Names pass s.records →
      Ensures (fun _ => True) (observeClaims env pass rest groups)
        (fun groups t => Filed pass pass.claims groups ∧ AllReady key groups ∧ AllStand pass groups ∧
          OnFiles (Stand f g claims records) t ∧ Names pass t.records) E s := by
  induction rest with
  | nil =>
    intro done groups s hsplit hf hready hstand hs hnames
    rw [List.append_nil] at hsplit
    exact ensures_pure ⟨hsplit ▸ hf, hready, hstand, hs, hnames⟩
  | cons claim rest ih =>
    intro done groups s hsplit hf hready hstand hs hnames
    have hsplit' : pass.claims = (done ++ [claim]) ++ rest := by rw [hsplit]; simp
    have hmem : claim ∈ pass.claims := by rw [hsplit]; simp
    have hbefore := new_id hd hsplit
    unfold observeClaims
    split
    · rename_i hcon
      have hp := concerns_unresolved hcon
      refine ensures_bind (ensures_ask trivial) ?_
      rintro registration t ⟨rfl, rfl⟩
      by_cases hkey : claim.key = key
      · obtain ⟨since, hphase, hgrace, hbootId, habsent⟩ := hw claim hmem hkey hp
        obtain ⟨n, hn⟩ := hnow
        obtain ⟨m, hm⟩ := hboot
        rw [habsent]
        refine ensures_bind (reconcileClaim_ready _ hphase (hbootId m _ hm) (hgrace n _ hn)) ?_
        rintro status u ⟨rfl, hrecords, hclaims⟩
        refine ih _ _ u hsplit' (hf.insert hcon hbefore) (hready.insert fun _ => rfl) (hstand.insert hmem hcon) ?_ ?_
        · unfold OnFiles
          rw [hrecords, hclaims]
          exact hs
        · rw [hrecords]
          exact hnames
      · refine ensures_bind (Ensures.unfailing (reconcileClaim_keeping hk hmem hkey hcon _ _ _ s.asked hs)
          (reconcileClaim_effect _ _ _ _ hp)) ?_
        rintro status u ⟨hu, ⟨st, rfl⟩, hrecords⟩
        refine ih _ _ u hsplit' (hf.insert hcon hbefore) (hready.insert fun h => absurd h hkey)
          (hstand.insert hmem hcon) hu ?_
        rw [hrecords]
        exact hnames
    · rename_i hcon
      exact ih _ _ s hsplit' (hf.skip hcon) hready hstand hs hnames

theorem matchingRecords_ok {group : ReconcileGroup}
    (h : ∀ member ∈ group.claims, ∃ record, pass.matchingRecord group.key member = .ok record) :
    ∃ records, pass.matchingRecords group = .ok records := by
  have hfold : ∀ (members : List ReconcileClaim) (found : List ManagedX11GrantRecord),
      (∀ member ∈ members, ∃ record, pass.matchingRecord group.key member = .ok record) →
      ∃ records, members.foldlM (fun found member => do
        let record ← pass.matchingRecord group.key member
        return if record ∈ found then found else found ++ [record]) found = Except.ok (ε := String) records := by
    intro members
    induction members with
    | nil => exact fun found _ => ⟨found, rfl⟩
    | cons member members ih =>
      intro found hm
      obtain ⟨record, hrecord⟩ := hm member List.mem_cons_self
      obtain ⟨records, hrest⟩ := ih (if record ∈ found then found else found ++ [record])
        fun other ho => hm other (List.mem_cons_of_mem _ ho)
      refine ⟨records, ?_⟩
      rw [List.foldlM_cons, hrecord]
      exact hrest
  exact hfold group.claims [] h

/-- A confirmed claim of the catalog finds its record. -/
theorem matchingRecord_ok {member : ReconcileClaim} {claim : ManagedX11MachineClaim} (hc : pass.Confirmed claim)
    (hid : claim.grantRecordId = member.recordId) (hkey : claim.key = key) :
    ∃ record, pass.matchingRecord key member = .ok record := by
  obtain ⟨record, hr, hrid, hphase, hrkey⟩ := hc
  unfold Pass.matchingRecord
  split
  · exact ⟨_, rfl⟩
  · rename_i hnone
    have := List.find?_eq_none.mp hnone record hr
    simp [hrid, hid, hphase, hrkey, hkey] at this

theorem effects_all {outcomes : List WriteOutcome} (h : ∀ outcome ∈ outcomes, outcome = .written) :
    effects outcomes = outcomes.length := by
  have happend : effects (outcomes ++ []) = outcomes.length + effects [] := effects_written h
  rwa [List.append_nil] at happend

theorem recordOutcomes_answers (henv : Answering env socket key) (n count : ℕ) :
    ∀ outcome ∈ recordOutcomes env n count, outcome = .written := by
  induction count generalizing n with
  | zero => exact fun _ ho => absurd ho List.not_mem_nil
  | succ count ih =>
    intro outcome ho
    rcases List.mem_cons.mp ho with rfl | ho
    · unfold recordOutcome
      rw [henv.readRecord]
      exact henv.write _
    · exact ih _ outcome ho

theorem claimOutcomes_answers (henv : Answering env socket key) (n count : ℕ) :
    ∀ outcome ∈ claimOutcomes env n count, outcome = .written := by
  induction count generalizing n with
  | zero => exact fun _ ho => absurd ho List.not_mem_nil
  | succ count ih =>
    intro outcome ho
    rcases List.mem_cons.mp ho with rfl | ho
    · exact henv.write _
    · exact ih _ outcome ho

/-- A group that is ready stays ready when it is looked at again. -/
theorem recheckMembers_ready (henv : Answering env socket key) (hd : (pass.claims.map (·.claimId)).Nodup)
    (hw : Waiting env key pass.claims) (hboot : ∃ n, env.hostBootId n = .ok pass.currentBootId)
    (members : List ReconcileClaim) (hm : ∀ member ∈ members, pass.Stands key member) (progress : Progress) :
    Ensures (fun _ => True) (recheckMembers env pass members true progress)
      (fun result t => result.1 = true ∧ result.2.acl = progress.acl ∧ t.records = s.records ∧ t.claims = s.claims)
      E s := by
  induction members generalizing progress s with
  | nil => exact ensures_pure ⟨rfl, rfl, rfl, rfl⟩
  | cons member members ih =>
    obtain ⟨claim, hc, hcon, hid, -, hkey⟩ := hm member List.mem_cons_self
    obtain ⟨since, hphase, hgrace, hbootId, habsent⟩ := hw claim hc hkey (concerns_unresolved hcon)
    obtain ⟨m, hboot'⟩ := hboot
    refine ensures_bind (Q := fun status t => status = some .ready ∧ t.records = s.records ∧ t.claims = s.claims)
      ?_ ?_
    · unfold recheckMember
      rw [catalogClaim_eq hd hc hid, ofExcept_ok_bind]
      refine ensures_bind (ensures_ask trivial) ?_
      rintro registration t ⟨rfl, rfl⟩
      obtain ⟨now, hnow⟩ := henv.clock s.asked.calls
      refine ensures_bind (ensures_askOk hnow trivial) ?_
      rintro _ t ⟨rfl, rfl⟩
      rw [habsent]
      exact reconcileClaim_ready (s := s.asked.asked) _ hphase (hbootId m _ hboot') (hgrace _ _ hnow)
    · rintro status t ⟨rfl, hrecords, hclaims⟩
      refine (ih (s := t) (fun other ho => hm other (List.mem_cons_of_mem _ ho)) _).post ?_
      rintro result u ⟨hready, hacl, hur, huc⟩
      exact ⟨hready, hacl, hur.trans hrecords, huc.trans hclaims⟩

/-- The unresolved claims of the catalog on a key. -/
def Pass.unresolvedOn (pass : Pass) (key : ManagedX11GrantKey) : List ManagedX11MachineClaim :=
  pass.claims.filter fun claim => claim.key = key && claim.phase.requiresReconcile

theorem mem_unresolvedOn {claim : ManagedX11MachineClaim} :
    claim ∈ pass.unresolvedOn key ↔ claim ∈ pass.claims ∧ claim.key = key ∧ claim.phase ≠ .ended := by
  simp [Pass.unresolvedOn, MachineClaimPhase.requiresReconcile]

theorem outcomes_answers (henv : Answering env socket key) (n : ℕ) (group : ReconcileGroup)
    (records : List ManagedX11GrantRecord) (progress : Progress) :
    effects (Finalization.outcomes env n (.byPass pass group records progress)) =
      records.length + (Finalization.claims (.byPass pass group records progress)).length := by
  have hall : ∀ outcome ∈ Finalization.outcomes env n (.byPass pass group records progress), outcome = .written := by
    intro outcome ho
    rcases List.mem_append.mp ho with ho | ho
    · exact recordOutcomes_answers henv _ _ outcome ho
    · exact claimOutcomes_answers henv _ _ outcome ho
  rw [effects_all hall]
  unfold Finalization.outcomes
  rw [List.length_append, length_recordOutcomes, length_claimOutcomes]
  rfl

/-- Finishing a group of standing records and claims leaves them revoked and ended. -/
theorem finishGroup_stands {group : ReconcileGroup} (henv : Answering env socket key)
    (havailable : pass.available = true) (hd : (pass.claims.map (·.claimId)).Nodup)
    (hdr : (pass.records.map (·.recordId)).Nodup) (hv : ∀ claim ∈ pass.claims, claim.validate = .ok ())
    (hm : ∀ member ∈ group.claims, pass.Stands group.key member) (hids : (group.claims.map (·.claimId)).Nodup)
    {records : List ManagedX11GrantRecord} (hmatches : Matches pass group.key group.claims records)
    (hmember : ∀ claim ∈ claims, claim ∈ pass.claims ∧ ∃ member ∈ group.claims, member.claimId = claim.claimId)
    (progress : Progress) (hnames : Names pass s.records) (hstored : ∀ record ∈ records, record ∈ s.records)
    (hsc : (s.claims.map (·.claimId)).Nodup) (hsr : (s.records.map (·.recordId)).Nodup) :
    Ensures (fun _ => True) (finishGroup env pass group records progress)
      (fun _ t => OnFiles (Stand (·.asEnded) (·.asRevoked) claims records) t) E s := by
  have hin : ∀ record ∈ records, record ∈ pass.records := by
    intro record hr
    obtain ⟨member, -, hmatch⟩ := hmatches.origin record hr
    exact (matchingRecord_spec hmatch).1
  have hcatalog : ∀ member ∈ group.claims, ∃ claim, pass.catalogClaim member = .ok claim := by
    intro member hmem
    obtain ⟨claim, hc, -, hid, -, -⟩ := hm member hmem
    exact ⟨claim, catalogClaim_eq hd hc hid⟩
  have hvalid : ∀ claim ∈ Finalization.claims (.byPass pass group records progress), claim.validate = .ok () := by
    intro claim hc
    obtain ⟨member, -, hfound⟩ := List.mem_filterMap.mp hc
    exact hv claim (catalogClaim_mem hfound).1
  have hrn : (records.map (·.recordId)).Nodup := Directory.nodup_names hdr hmatches.distinct hin
  have hfiles : Ensures (fun _ => True) (finishGroup env pass group records progress) _ _ s :=
    finishGroup_effect hsr progress havailable hcatalog hstored hrn hvalid
  rw [outcomes_answers henv] at hfiles
  have hok := finishGroup_answers (E := fun _ _ => False) henv havailable hd hv hm hin progress hnames
  refine ⟨fun _ _ => trivial, fun a ha => ?_, fun e he => (hok.failed e he).elim⟩
  obtain ⟨hrevoked, hended⟩ := hfiles.returned a ha
  rw [List.take_of_length_le (Nat.le_add_right _ _)] at hrevoked
  rw [Nat.add_sub_cancel_left, List.take_of_length_le (Nat.le_refl _)] at hended
  unfold OnFiles
  rw [hrevoked, hended]
  refine ⟨fun claim hc => ?_, fun record hr => ?_, Directory.nodup_putAll _ hsc, Directory.nodup_putAll _ hsr⟩
  · refine Directory.mem_putAll_of_mem ?_ (List.mem_map_of_mem ?_)
    · rw [List.map_map]
      exact (catalogClaims_ids group.claims hcatalog).symm ▸ hids
    · obtain ⟨hcin, member, hmem, hid⟩ := hmember claim hc
      refine List.mem_filterMap.mpr ⟨member, hmem, ?_⟩
      rw [catalogClaim_eq hd hcin hid.symm]
      rfl
  · refine Directory.mem_putAll_of_mem ?_ (List.mem_map_of_mem hr)
    rw [List.map_map]
    exact hrn

section Own

variable {groups : List ReconcileGroup} {group : ReconcileGroup}
  (henv : Answering env socket key) (havailable : pass.available = true) (hsocket : pass.socket = socket)
  (hstart : pass.serverPeerStartTime = key.serverPeerStartTime)
  (hd : (pass.claims.map (·.claimId)).Nodup) (hdr : (pass.records.map (·.recordId)).Nodup)
  (hv : ∀ claim ∈ pass.claims, claim.validate = .ok ()) (hw : Waiting env key pass.claims)
  (hboot : ∃ n, env.hostBootId n = .ok pass.currentBootId)
  (hconfirmed : ∀ claim ∈ pass.unresolvedOn key, pass.Confirmed claim)
  (hf : Filed pass pass.claims groups) (hready : AllReady key groups) (hstand : AllStand pass groups)

include henv havailable hsocket hstart hd hdr hv hw hboot hconfirmed hf hready hstand

omit henv havailable hsocket hstart hd hdr hv hw hboot hf hready in
/-- The group of the key finds its records. -/
theorem ownGroup_records (hg : group ∈ groups) (hkey : group.key = key) :
    ∃ records, pass.matchingRecords group = .ok records := by
  subst hkey
  refine matchingRecords_ok fun member hmem => ?_
  obtain ⟨claim, hc, hcon, -, hgrant, hck⟩ := hstand group hg member hmem
  exact matchingRecord_ok (hconfirmed claim (mem_unresolvedOn.mpr ⟨hc, hck, concerns_unresolved hcon⟩)) hgrant hck

omit havailable hdr hv hw hboot hconfirmed hready in
/-- Every unresolved claim on the key is a member of its group. -/
theorem ownGroup_member (hg : group ∈ groups) (hkey : group.key = key) {claim : ManagedX11MachineClaim}
    (hc : claim ∈ pass.unresolvedOn key) :
    ∃ member ∈ group.claims, member.claimId = claim.claimId ∧ member.recordId = claim.grantRecordId := by
  obtain ⟨hin, hck, hp⟩ := mem_unresolvedOn.mp hc
  have hcon : pass.concerns claim := by
    simp only [Pass.concerns, Bool.and_eq_true]
    refine ⟨by simp [MachineClaimPhase.requiresReconcile, hp], ?_⟩
    rw [hck, hsocket, hstart]
    exact henv.endpoint
  obtain ⟨member, hmem, hid⟩ := hf.member hg hin hcon (hck.trans hkey.symm)
  obtain ⟨other, ho, -, hoid, hogrant, -⟩ := hstand group hg member hmem
  rw [Directory.eq_of_name_eq hd ho hin (hoid.trans hid)] at hogrant
  exact ⟨member, hmem, hid, hogrant.symm⟩

omit henv havailable hsocket hstart hd hdr hv hw hboot hconfirmed hf hstand in
theorem ownGroup_open (hg : group ∈ groups) (hkey : group.key = key) (hne : group.claims ≠ []) :
    (group.blocked || group.pending || !group.ready) = false := by
  have hall : ∀ member ∈ group.claims, member.status = .ready := hready group hg hkey
  have hb : group.blocked = false := by
    refine List.any_eq_false.mpr fun member hmem => ?_
    rw [hall member hmem]
    simp
  have hp : group.pending = false := by
    refine List.any_eq_false.mpr fun member hmem => ?_
    rw [hall member hmem]
    simp
  have hr : group.ready = true := by
    unfold ReconcileGroup.ready
    rw [Bool.and_eq_true]
    refine ⟨by simpa using hne, List.all_eq_true.mpr fun member hmem => ?_⟩
    rw [hall member hmem]
    rfl
  rw [hb, hp, hr]
  rfl

omit hconfirmed in
/-- The pass finishes the group of the key: all its claims end, and their records
are revoked. -/
theorem ownGroup_finished (hg : group ∈ groups) (hkey : group.key = key) (hne : group.claims ≠ [])
    {records : List ManagedX11GrantRecord} (hrecords : pass.matchingRecords group = .ok records)
    (progress : Progress) (hacl : progress.acl.contains key.aclEntry = false) (hnames : Names pass s.records)
    (hs : OnFiles (Stand id id (pass.unresolvedOn key) records) s) :
    Ensures (fun _ => True) (reconcileGroup env pass group progress)
      (fun result t => OnFiles (Stand (·.asEnded) (·.asRevoked) (pass.unresolvedOn key) records) t ∧
        Names pass t.records ∧ result.acl.contains key.aclEntry = false) E s := by
  have hm : ∀ member ∈ group.claims, pass.Stands group.key member := hstand group hg
  have hrun : Ensures (fun _ => True) (reconcileGroup env pass group progress)
      (fun _ t => OnFiles (Stand (·.asEnded) (·.asRevoked) (pass.unresolvedOn key) records) t) E s := by
    unfold reconcileGroup
    dsimp only
    rw [if_neg (by rw [ownGroup_open hready hg hkey hne]; simp), hrecords]
    refine ensures_bind (recheckMembers_ready henv hd hw hboot group.claims (hkey ▸ hm) _) ?_
    rintro ⟨still, next⟩ t ⟨hstill, hnext, htr, htc⟩
    have hstill' : still = true := hstill
    have hlacks : next.acl.contains group.key.aclEntry = false := by
      rw [show next.acl = progress.acl from hnext, hkey]
      exact hacl
    dsimp only
    rw [if_pos hstill']
    unfold revokeGroup
    rw [if_neg (by rw [hlacks]; simp)]
    have ht : OnFiles (Stand id id (pass.unresolvedOn key) records) t := by
      unfold OnFiles
      rw [htr, htc]
      exact hs
    refine finishGroup_stands henv havailable hd hdr hv hm (hf.ids group hg) (matchingRecords_matches hrecords) ?_
      next (htr ▸ hnames) ht.records ht.claimIds ht.recordIds
    intro claim hc
    obtain ⟨member, hmem, hid, -⟩ := ownGroup_member henv hsocket hstart hd hf hstand hg hkey hc
    exact ⟨(mem_unresolvedOn.mp hc).1, member, hmem, hid⟩
  have hok := reconcileGroup_answers (E := fun _ _ => False) henv havailable hd hv hm progress hacl hnames
  exact ⟨fun _ _ => trivial, fun a ha => ⟨hrun.returned a ha, hok.returned a ha⟩, fun e he => (hok.failed e he).elim⟩

omit hsocket hstart hdr hw hboot hconfirmed hready in
/-- The other groups neither fail nor touch what stands. -/
theorem otherGroup_stands (hg : group ∈ groups) (hkey : group.key ≠ key)
    (hk : pass.Keeping (· ≠ key) (Stand f g claims records)) (progress : Progress)
    (hacl : progress.acl.contains key.aclEntry = false) (hnames : Names pass s.records)
    (hs : OnFiles (Stand f g claims records) s) :
    Ensures (fun _ => True) (reconcileGroup env pass group progress)
      (fun result t => OnFiles (Stand f g claims records) t ∧
        Names pass t.records ∧ result.acl.contains key.aclEntry = false) E s :=
  Ensures.unfailing (reconcileGroup_keeping hk hd hf hstand hg hkey progress s hs)
    (reconcileGroup_answers henv havailable hd hv (hstand group hg) progress hacl hnames)

omit hsocket hstart hdr hw hboot hconfirmed hready in
theorem otherGroups_stand (rest : List ReconcileGroup) (hsub : rest ⊆ groups) (hkey : key ∉ rest.map (·.key))
    (hk : pass.Keeping (· ≠ key) (Stand f g claims records)) (progress : Progress)
    (hacl : progress.acl.contains key.aclEntry = false) (hnames : Names pass s.records)
    (hs : OnFiles (Stand f g claims records) s) :
    Ensures (fun _ => True) (reconcileGroups env pass rest progress)
      (fun _ t => OnFiles (Stand f g claims records) t) E s := by
  induction rest generalizing progress s with
  | nil => exact ensures_pure hs
  | cons group rest ih =>
    simp only [List.map_cons, List.mem_cons, not_or] at hkey
    refine ensures_bind (otherGroup_stands henv havailable hd hv hf hstand (hsub List.mem_cons_self)
      (fun he => hkey.1 he.symm) hk progress hacl hnames hs) ?_
    rintro progress' t ⟨ht, htnames, htacl⟩
    exact ih (fun other ho => hsub (List.mem_cons_of_mem _ ho)) hkey.2 progress' htacl htnames ht

omit hconfirmed in
theorem reconcileGroups_finished {own : ReconcileGroup} (hown : own ∈ groups) (hkey : own.key = key)
    (hne : own.claims ≠ []) {records : List ManagedX11GrantRecord}
    (hrecords : pass.matchingRecords own = .ok records)
    (hmine : ∀ record ∈ records, record ∈ pass.records ∧ record.key = key) (rest : List ReconcileGroup)
    (hsub : rest ⊆ groups) (hn : (rest.map (·.key)).Nodup) (hin : own ∈ rest) (progress : Progress)
    (hacl : progress.acl.contains key.aclEntry = false) (hnames : Names pass s.records)
    (hs : OnFiles (Stand id id (pass.unresolvedOn key) records) s) :
    Ensures (fun _ => True) (reconcileGroups env pass rest progress)
      (fun _ t => OnFiles (Stand (·.asEnded) (·.asRevoked) (pass.unresolvedOn key) records) t) E s := by
  have hclaims : ∀ claim ∈ pass.unresolvedOn key, claim ∈ pass.claims ∧ claim.key = key :=
    fun claim hc => ⟨(mem_unresolvedOn.mp hc).1, (mem_unresolvedOn.mp hc).2.1⟩
  induction rest generalizing progress s with
  | nil => cases hin
  | cons group rest ih =>
    obtain ⟨hfresh, hn'⟩ := List.nodup_cons.mp hn
    have hrest : rest ⊆ groups := fun other ho => hsub (List.mem_cons_of_mem _ ho)
    by_cases hgk : group.key = key
    · have hsame : own = group := hf.group_eq hown (hsub List.mem_cons_self) (hkey.trans hgk.symm)
      subst hsame
      refine ensures_bind (ownGroup_finished henv havailable hsocket hstart hd hdr hv hw hboot hf hready hstand hown
        hkey hne hrecords progress hacl hnames hs) ?_
      rintro progress' t ⟨ht, htnames, htacl⟩
      have hk : pass.Keeping (· ≠ key) (Stand (·.asEnded) (·.asRevoked) (pass.unresolvedOn key) records) :=
        stand_keeping (fun _ => rfl) (fun _ => rfl) hd hdr hclaims hmine
      exact otherGroups_stand henv havailable hd hv hf hstand rest hrest (hkey ▸ hfresh) hk progress' htacl htnames ht
    · refine ensures_bind (otherGroup_stands henv havailable hd hv hf hstand (hsub List.mem_cons_self) hgk
        (stand_keeping (fun _ => rfl) (fun _ => rfl) hd hdr hclaims hmine) progress hacl hnames hs) ?_
      rintro progress' t ⟨ht, htnames, htacl⟩
      have hin' : own ∈ rest := by
        rcases List.mem_cons.mp hin with he | hin
        · exact absurd (he ▸ hkey) hgk
        · exact hin
      exact ih hrest hn' hin' progress' htacl htnames ht

end Own

theorem catalogOf_ok {α : Type} {name : α → String} {limit : ℕ} {exceeded : ℕ → String} {files : List α}
    (h : files.length ≤ limit) :
    catalogOf name limit exceeded (.ok ()) files = ⟨Directory.list name files, [], true⟩ := by
  unfold catalogOf
  dsimp only
  rw [if_neg (Nat.not_lt.mpr h)]

theorem complete_require {α : Type} (entries : List α) (describe : String → String) (missing : String) :
    (⟨entries, [], true⟩ : Catalog α).require describe missing = .ok entries := rfl

theorem loadClaims_ok (henv : Answering env socket key) (hfew : s.claims.length ≤ maxMachineClaims) (hI : I s.asked) :
    Ensures I (loadClaims env true)
      (fun catalog t => t = s.asked ∧ catalog = ⟨s.listedClaims true, [], true⟩) E s := by
  refine ensures_bind (ensures_ask hI) ?_
  rintro answer t ⟨rfl, rfl⟩
  rw [henv.readClaims]
  refine ensures_read ⟨rfl, ?_⟩
  rw [if_pos rfl]
  exact catalogOf_ok hfew

theorem loadRecords_ok (henv : Answering env socket key) (hfew : s.records.length ≤ maxGrantRecords)
    (hI : I s.asked) :
    Ensures I (loadRecords env) (fun catalog t => t = s.asked ∧ catalog = ⟨s.listedRecords, [], true⟩) E s := by
  refine ensures_bind (ensures_ask hI) ?_
  rintro answer t ⟨rfl, rfl⟩
  rw [henv.readRecords]
  exact ensures_read ⟨rfl, catalogOf_ok hfew⟩

/-- A store that a pass can read. -/
structure X11State.Stored (s : X11State) : Prop where
  claimIds : (s.claims.map (·.claimId)).Nodup
  recordIds : (s.records.map (·.recordId)).Nodup
  valid : ∀ claim ∈ s.claims, claim.validate = .ok ()
  fewClaims : s.claims.length ≤ maxMachineClaims
  fewRecords : s.records.length ≤ maxGrantRecords

/-- The pass lists what the store held at its start. -/
structure Lists (pass : Pass) (start : X11State) : Prop where
  claims : ∀ claim, claim ∈ pass.claims ↔ claim ∈ start.claims
  records : ∀ record, record ∈ pass.records ↔ record ∈ start.records
  claimIds : (pass.claims.map (·.claimId)).Nodup
  recordIds : (pass.records.map (·.recordId)).Nodup

theorem lists_of_listed {start : X11State} (h : start.Stored) (hclaims : pass.claims = start.listedClaims true)
    (hrecords : pass.records = start.listedRecords) : Lists pass start := by
  refine ⟨fun claim => ?_, fun record => ?_, ?_, ?_⟩
  · rw [hclaims]
    exact Directory.mem_list
  · rw [hrecords]
    exact Directory.mem_list
  · rw [hclaims]
    exact Directory.nodup_list h.claimIds
  · rw [hrecords]
    exact Directory.nodup_list h.recordIds

namespace Lists

variable {start : X11State}

/-- Writes for other keys do not touch what the pass lists on the key. -/
theorem keeping (h : Lists pass start) :
    pass.Keeping (· ≠ key) (Stand id id (pass.unresolvedOn key) (pass.records.filter (·.key = key))) := by
  refine stand_keeping (fun _ => rfl) (fun _ => rfl) h.claimIds h.recordIds ?_ ?_
  · exact fun claim hc => ⟨(mem_unresolvedOn.mp hc).1, (mem_unresolvedOn.mp hc).2.1⟩
  · intro record hr
    obtain ⟨hin, hk⟩ := List.mem_filter.mp hr
    exact ⟨hin, by simpa using hk⟩

theorem stand (h : Lists pass start) (hstored : start.Stored) (hsr : s.records = start.records)
    (hsc : s.claims = start.claims) :
    OnFiles (Stand id id (pass.unresolvedOn key) (pass.records.filter (·.key = key))) s := by
  unfold OnFiles
  rw [hsr, hsc]
  refine ⟨?_, ?_, hstored.claimIds, hstored.recordIds⟩
  · exact fun claim hc => (h.claims claim).mp (mem_unresolvedOn.mp hc).1
  · exact fun record hr => (h.records record).mp (List.mem_filter.mp hr).1

theorem names (h : Lists pass start) (hsr : s.records = start.records) : Names pass s.records := by
  intro record hr
  rw [hsr]
  exact List.mem_map_of_mem ((h.records record).mp hr)

theorem confirmed (h : Lists pass start)
    (hconfirmed : ∀ claim ∈ start.claims, claim.key = key → claim.phase ≠ .ended → start.Confirmed claim) :
    ∀ claim ∈ pass.unresolvedOn key, pass.Confirmed claim := by
  intro claim hc
  obtain ⟨hin, hck, hp⟩ := mem_unresolvedOn.mp hc
  obtain ⟨record, hr, hrest⟩ := hconfirmed claim ((h.claims claim).mp hin) hck hp
  exact ⟨record, (h.records record).mpr hr, hrest⟩

end Lists

theorem reconcileEnabled_resumes (henv : Answering env socket key) {start : X11State} (hstored : start.Stored)
    (pass : Pass) (hpass : pass.available = true ∧ pass.socket = socket ∧
      pass.serverPeerStartTime = key.serverPeerStartTime ∧ pass.claims = start.listedClaims true ∧
      pass.records = start.listedRecords)
    (hnow : ∃ n, env.unixMillis n = .ok pass.now) (hboot : ∃ n, env.hostBootId n = .ok pass.currentBootId)
    (hw : Waiting env key start.claims) (hsome : ∃ claim ∈ start.claims, claim.key = key ∧ claim.phase ≠ .ended)
    (hconfirmed : ∀ claim ∈ start.claims, claim.key = key → claim.phase ≠ .ended → start.Confirmed claim)
    {acl : X11AclSnapshot} (hacl : acl.contains key.aclEntry = false) (hsr : s.records = start.records)
    (hsc : s.claims = start.claims) :
    Ensures (fun _ => True) (reconcileEnabled env pass acl)
      (fun _ t => ∃ records, (∀ claim ∈ pass.unresolvedOn key, ∃ record ∈ records,
          record ∈ start.records ∧ record.recordId = claim.grantRecordId) ∧
        OnFiles (Stand (·.asEnded) (·.asRevoked) (pass.unresolvedOn key) records) t) E s := by
  obtain ⟨havailable, hsocket, hstart, hclaims, hrecords⟩ := hpass
  have hl := lists_of_listed hstored hclaims hrecords
  have hv : ∀ claim ∈ pass.claims, claim.validate = .ok () :=
    fun claim hc => hstored.valid claim ((hl.claims claim).mp hc)
  have hw' : Waiting env key pass.claims := fun claim hc => hw claim ((hl.claims claim).mp hc)
  refine ensures_bind (observeClaims_answers hl.claimIds hl.keeping hw' hnow hboot pass.claims [] [] s rfl .nil
    (fun _ hg => absurd hg List.not_mem_nil) (fun _ hg => absurd hg List.not_mem_nil) (hl.stand hstored hsr hsc)
    (hl.names hsr)) ?_
  rintro groups t ⟨hf, hready, hstand, ht, htnames⟩
  -- the key has a group, since one of its claims is unresolved
  obtain ⟨first, hfirst, hfkey, hfphase⟩ := hsome
  have hfcon : pass.concerns first := by
    simp only [Pass.concerns, Bool.and_eq_true]
    refine ⟨by simp [MachineClaimPhase.requiresReconcile, hfphase], ?_⟩
    rw [hfkey, hsocket, hstart]
    exact henv.endpoint
  obtain ⟨own, hown, hokey, member, hmember, -⟩ := hf.complete first ((hl.claims first).mpr hfirst) hfcon
  have hokey' : own.key = key := hokey.trans hfkey
  obtain ⟨records, hmatching⟩ := ownGroup_records (hl.confirmed hconfirmed) hstand hown hokey'
  have hmatches := matchingRecords_matches hmatching
  have hmine : ∀ record ∈ records, record ∈ pass.records ∧ record.key = key := by
    intro record hr
    obtain ⟨other, -, hmatch⟩ := hmatches.origin record hr
    obtain ⟨hin, -, -, hrk⟩ := matchingRecord_spec hmatch
    exact ⟨hin, hrk.trans hokey'⟩
  have hcovered : ∀ claim ∈ pass.unresolvedOn key, ∃ record ∈ records,
      record ∈ start.records ∧ record.recordId = claim.grantRecordId := by
    intro claim hc
    obtain ⟨other, hother, -, hrid⟩ := ownGroup_member henv hsocket hstart hl.claimIds hf hstand hown hokey' hc
    obtain ⟨record, hr, hmatch⟩ := hmatches.complete other hother
    exact ⟨record, hr, (hl.records record).mp (hmine record hr).1, (matchingRecord_spec hmatch).2.1.trans hrid⟩
  have hstands : OnFiles (Stand id id (pass.unresolvedOn key) records) t := by
    refine ⟨ht.claims, fun record hr => ht.records record ?_, ht.claimIds, ht.recordIds⟩
    exact List.mem_filter.mpr ⟨(hmine record hr).1, by simpa using (hmine record hr).2⟩
  refine ensures_bind (reconcileGroups_finished henv havailable hsocket hstart hl.claimIds hl.recordIds hv hw' hboot hf
    hready hstand hown hokey' (List.ne_nil_of_mem hmember) hmatching hmine groups (List.Subset.refl _) hf.keys hown _
    hacl htnames hstands) ?_
  intro progress u hu
  exact ensures_pure ⟨records, hcovered, hu⟩

/-- A pass that is answered, over a store whose claims on the key all have their
confirmed records, ends these claims and revokes their records. -/
theorem reconcileSync_resumes (henv : Answering env socket key) (hstored : s.Stored) (hw : Waiting env key s.claims)
    (hsome : ∃ claim ∈ s.claims, claim.key = key ∧ claim.phase ≠ .ended)
    (hconfirmed : ∀ claim ∈ s.claims, claim.key = key → claim.phase ≠ .ended → s.Confirmed claim) :
    ∀ claim ∈ s.claims, claim.key = key → claim.phase ≠ .ended →
      (∀ stored ∈ (reconcileSync env socket s).state.claims, stored.claimId = claim.claimId → stored.phase = .ended) ∧
      ∀ stored ∈ (reconcileSync env socket s).state.records, stored.recordId = claim.grantRecordId →
        stored.phase = .revoked := by
  have hrun : Ensures (fun _ => True) (reconcileSync env socket)
      (fun _ t => ∃ pass : Pass, pass.claims = s.listedClaims true ∧ ∃ records,
        (∀ claim ∈ pass.unresolvedOn key, ∃ record ∈ records,
          record ∈ s.records ∧ record.recordId = claim.grantRecordId) ∧
        OnFiles (Stand (·.asEnded) (·.asRevoked) (pass.unresolvedOn key) records) t) (fun _ _ => False) s := by
    refine ensures_bind (ensures_askOk (henv.opened _) trivial) ?_
    rintro _ t ⟨rfl, rfl⟩
    refine ensures_bind (ensures_askOk (henv.lock _) trivial) ?_
    rintro _ t ⟨_, rfl⟩
    refine ensures_bind (loadClaims_ok (s := s.asked.asked) henv hstored.fewClaims trivial) ?_
    rintro _ t ⟨rfl, rfl⟩
    rw [complete_require, ofExcept_ok_bind]
    refine ensures_bind (loadRecords_ok (s := s.asked.asked.asked) henv hstored.fewRecords trivial) ?_
    rintro _ t ⟨rfl, rfl⟩
    rw [complete_require, ofExcept_ok_bind]
    have hneed : claimsNeedActivation (s.asked.asked.listedClaims true) s.asked.asked.asked.listedRecords = true := by
      obtain ⟨claim, hc, -, hp⟩ := hsome
      unfold claimsNeedActivation
      rw [Bool.or_eq_true, List.any_eq_true]
      exact .inl ⟨claim, Directory.mem_list.mpr hc, by simp [MachineClaimPhase.requiresReconcile, hp]⟩
    rw [if_pos hneed]
    refine ensures_bind (ensures_askOk (henv.connect _) trivial) ?_
    rintro _ t ⟨_, rfl⟩
    refine ensures_bind (ensures_askOk (henv.start _) trivial) ?_
    rintro _ t ⟨rfl, rfl⟩
    obtain ⟨bootId, hboot⟩ := henv.boot s.asked.asked.asked.asked.asked.asked.calls
    refine ensures_bind (ensures_askOk hboot trivial) ?_
    rintro bootId t ⟨rfl, rfl⟩
    obtain ⟨now, hnow⟩ := henv.clock s.asked.asked.asked.asked.asked.asked.asked.calls
    refine ensures_bind (ensures_askOk hnow trivial) ?_
    rintro now t ⟨rfl, rfl⟩
    obtain ⟨acl, hread, hmode, hacl⟩ := henv.acl s.asked.asked.asked.asked.asked.asked.asked.asked.calls
    refine ensures_bind (ensures_askOk hread trivial) ?_
    rintro acl t ⟨rfl, rfl⟩
    refine ensures_bind (ensures_askOk (henv.current _) trivial) ?_
    rintro _ t ⟨_, ht⟩
    have htr : t.records = s.records := by rw [ht]; rfl
    have htc : t.claims = s.claims := by rw [ht]; rfl
    rw [if_pos hmode]
    have hpass : Ensures (fun _ => True) (reconcileEnabled env ⟨socket, true, s.listedClaims true, s.listedRecords,
        key.serverPeerStartTime, bootId, now⟩ acl) _ (fun _ _ => False) t :=
      reconcileEnabled_resumes henv hstored _ ⟨rfl, rfl, rfl, rfl, rfl⟩ ⟨_, hnow⟩ ⟨_, hboot⟩ hw hsome hconfirmed hacl
        htr htc
    refine hpass.post ?_
    rintro report u ⟨records, hcovered, hu⟩
    exact ⟨_, rfl, records, hcovered, hu⟩
  cases hr : (reconcileSync env socket s).result with
  | error e => exact (hrun.failed e hr).elim
  | ok report =>
    obtain ⟨pass, hpass, records, hcovered, hstand⟩ := hrun.returned report hr
    intro claim hc hk hp
    have hin : claim ∈ pass.unresolvedOn key := by
      refine mem_unresolvedOn.mpr ⟨?_, hk, hp⟩
      rw [hpass]
      exact Directory.mem_list.mpr hc
    refine ⟨fun stored hs hid => ?_, fun stored hs hid => ?_⟩
    · have hsame : stored = claim.asEnded :=
        Directory.eq_of_name_eq hstand.claimIds hs (hstand.claims claim hin) hid
      rw [hsame]
      rfl
    · obtain ⟨record, hrec, -, hrid⟩ := hcovered claim hin
      have hsame : stored = record.asRevoked :=
        Directory.eq_of_name_eq hstand.recordIds hs (hstand.records record hrec) (hid.trans hrid.symm)
      rw [hsame]
      rfl

end Resume

end Answered

end Lasper.X11
