import Lasper.X11.Transition

/-! One reconcile pass. It works from the claims it loaded, so its proof follows
which of these still stand in the store as they were loaded: a group that is
ready has had none of its claims rewritten. -/

namespace Lasper.X11

open Lib Traced

section Grouping

variable {pass : Pass} {done : List ManagedX11MachineClaim} {groups : List ReconcileGroup}
  {member : ReconcileClaim} {group : ReconcileGroup}

theorem insert_nil : ReconcileGroup.insert member [] = [.new member] := rfl

theorem insert_cons : ReconcileGroup.insert member (group :: groups) =
    if group.key = member.key then group.add member :: groups
    else group :: ReconcileGroup.insert member groups := rfl

theorem key_mem_insert {key : ManagedX11GrantKey}
    (h : key ∈ (ReconcileGroup.insert member groups).map (·.key)) :
    key = member.key ∨ key ∈ groups.map (·.key) := by
  induction groups with
  | nil => exact .inl (by simpa [insert_nil, ReconcileGroup.new] using h)
  | cons g gs ih =>
    simp only [insert_cons] at h
    split_ifs at h with hg
    · exact .inr (by simpa [ReconcileGroup.add] using h)
    · simp only [List.map_cons, List.mem_cons] at h ⊢
      rcases h with rfl | h
      · exact .inr (.inl rfl)
      · rcases ih h with h | h
        · exact .inl h
        · exact .inr (.inr h)

theorem nodup_insert (h : (groups.map (·.key)).Nodup) :
    ((ReconcileGroup.insert member groups).map (·.key)).Nodup := by
  induction groups with
  | nil => simp [insert_nil, ReconcileGroup.new]
  | cons g gs ih =>
    obtain ⟨hg, hgs⟩ := List.nodup_cons.mp h
    simp only [insert_cons]
    split_ifs with he
    · exact h
    · refine List.nodup_cons.mpr ⟨?_, ih hgs⟩
      intro hm
      rcases key_mem_insert hm with hm | hm
      · exact he hm
      · exact hg hm

/-- A group after filing a member: an old one, or the one of the member's key. -/
theorem mem_insert (h : group ∈ ReconcileGroup.insert member groups) :
    group ∈ groups ∨ (∃ old ∈ groups, old.key = member.key ∧ group = old.add member) ∨
      group = .new member := by
  induction groups with
  | nil => exact .inr (.inr (by simpa [insert_nil] using h))
  | cons g gs ih =>
    simp only [insert_cons] at h
    split_ifs at h with hg
    · rcases List.mem_cons.mp h with rfl | h
      · exact .inr (.inl ⟨g, List.mem_cons_self, hg, rfl⟩)
      · exact .inl (List.mem_cons_of_mem _ h)
    · rcases List.mem_cons.mp h with rfl | h
      · exact .inl List.mem_cons_self
      · rcases ih h with h | ⟨old, ho, hk, rfl⟩ | h
        · exact .inl (List.mem_cons_of_mem _ h)
        · exact .inr (.inl ⟨old, List.mem_cons_of_mem _ ho, hk, rfl⟩)
        · exact .inr (.inr h)

theorem exists_insert_self :
    ∃ group ∈ ReconcileGroup.insert member groups, group.key = member.key ∧ member ∈ group.claims := by
  induction groups with
  | nil => exact ⟨.new member, by simp [insert_nil], rfl, by simp [ReconcileGroup.new]⟩
  | cons g gs ih =>
    simp only [insert_cons]
    split_ifs with hg
    · exact ⟨g.add member, List.mem_cons_self, hg, by simp [ReconcileGroup.add]⟩
    · obtain ⟨group, hm, hk, hc⟩ := ih
      exact ⟨group, List.mem_cons_of_mem _ hm, hk, hc⟩

/-- Filing a member only adds to the groups. -/
theorem exists_insert_of_mem (h : group ∈ groups) :
    ∃ group' ∈ ReconcileGroup.insert member groups, group'.key = group.key ∧
      group.claims ⊆ group'.claims := by
  induction groups with
  | nil => cases h
  | cons g gs ih =>
    simp only [insert_cons]
    split_ifs with hg
    · rcases List.mem_cons.mp h with rfl | h
      · exact ⟨group.add member, List.mem_cons_self, rfl, by simp [ReconcileGroup.add]⟩
      · exact ⟨group, List.mem_cons_of_mem _ h, rfl, List.Subset.refl _⟩
    · rcases List.mem_cons.mp h with rfl | h
      · exact ⟨group, List.mem_cons_self, rfl, List.Subset.refl _⟩
      · obtain ⟨group', hm, hk, hc⟩ := ih h
        exact ⟨group', List.mem_cons_of_mem _ hm, hk, hc⟩

/-- The claims looked at so far are filed: one group for each key, every
concerned claim in the group of its key, and nothing else. -/
structure Filed (pass : Pass) (done : List ManagedX11MachineClaim) (groups : List ReconcileGroup) :
    Prop where
  keys : (groups.map (·.key)).Nodup
  ids : ∀ group ∈ groups, (group.claims.map (·.claimId)).Nodup
  origin : ∀ group ∈ groups, ∀ member ∈ group.claims,
    ∃ claim ∈ done, pass.concerns claim ∧ claim.claimId = member.claimId ∧ claim.key = group.key
  complete : ∀ claim ∈ done, pass.concerns claim →
    ∃ group ∈ groups, group.key = claim.key ∧ ∃ member ∈ group.claims, member.claimId = claim.claimId

theorem Filed.nil : Filed pass [] [] :=
  ⟨List.nodup_nil, by simp, by simp, by simp⟩

/-- A claim that is not concerned is passed over. -/
theorem Filed.skip {claim : ManagedX11MachineClaim} (h : Filed pass done groups)
    (hc : pass.concerns claim ≠ true) : Filed pass (done ++ [claim]) groups where
  keys := h.keys
  ids := h.ids
  origin := by
    intro group hg member hm
    obtain ⟨c, hd, hrest⟩ := h.origin group hg member hm
    exact ⟨c, List.mem_append_left _ hd, hrest⟩
  complete := by
    intro c hm hcc
    rcases List.mem_append.mp hm with hm | hm
    · exact h.complete c hm hcc
    · rw [List.mem_singleton.mp hm] at hcc
      exact absurd hcc hc

theorem Filed.insert {claim : ManagedX11MachineClaim} (h : Filed pass done groups)
    (hc : pass.concerns claim) (hn : claim.claimId ∉ done.map (·.claimId)) {recordId : String}
    {status : ReconcileClaimStatus} :
    Filed pass (done ++ [claim])
      (ReconcileGroup.insert ⟨claim.claimId, recordId, claim.key, status⟩ groups) where
  keys := nodup_insert h.keys
  ids := by
    intro group hg
    rcases mem_insert hg with hg | ⟨old, ho, hk, rfl⟩ | rfl
    · exact h.ids group hg
    · simp only [ReconcileGroup.add, List.map_append, List.map_cons, List.map_nil]
      refine List.nodup_append.mpr ⟨h.ids old ho, List.nodup_singleton _, ?_⟩
      intro id hid id' hid' he
      rw [List.mem_singleton.mp hid'] at he
      obtain ⟨member, hm, rfl⟩ := List.mem_map.mp hid
      obtain ⟨c, hd, -, hci, -⟩ := h.origin old ho member hm
      exact hn (List.mem_map.mpr ⟨c, hd, hci.trans he⟩)
    · simp [ReconcileGroup.new]
  origin := by
    intro group hg member hm
    have hnew : ∃ c ∈ done ++ [claim], pass.concerns c ∧ c.claimId = claim.claimId ∧ c.key = claim.key :=
      ⟨claim, List.mem_append_right _ (List.mem_singleton.mpr rfl), hc, rfl, rfl⟩
    rcases mem_insert hg with hg | ⟨old, ho, hk, rfl⟩ | rfl
    · obtain ⟨c, hd, hrest⟩ := h.origin group hg member hm
      exact ⟨c, List.mem_append_left _ hd, hrest⟩
    · rcases List.mem_append.mp hm with hm | hm
      · obtain ⟨c, hd, hrest⟩ := h.origin old ho member hm
        exact ⟨c, List.mem_append_left _ hd, hrest⟩
      · rw [List.mem_singleton.mp hm]
        obtain ⟨c, hd, hcc, hci, hck⟩ := hnew
        exact ⟨c, hd, hcc, hci, hck.trans hk.symm⟩
    · rw [List.mem_singleton.mp hm]
      exact hnew
  complete := by
    intro c hm hcc
    rcases List.mem_append.mp hm with hm | hm
    · obtain ⟨group, hg, hk, member, hmem, hid⟩ := h.complete c hm hcc
      obtain ⟨group', hg', hk', hsub⟩ := exists_insert_of_mem hg
      exact ⟨group', hg', hk'.trans hk, member, hsub hmem, hid⟩
    · rw [List.mem_singleton.mp hm]
      obtain ⟨group, hg, hk, hmem⟩ := exists_insert_self
      exact ⟨group, hg, hk, _, hmem, rfl⟩

end Grouping

/-- The store is the loaded catalog with some claims rewritten, and those named
by `kept` untouched. -/
structure Tracks (pass : Pass) (kept : ManagedX11MachineClaim → Prop)
    (claims : List ManagedX11MachineClaim) : Prop where
  covered : ∀ stored ∈ claims, ∃ claim ∈ pass.claims, claim.claimId = stored.claimId ∧
    claim.key = stored.key ∧ (claim.phase = .ended → stored.phase = .ended)
  kept : ∀ claim ∈ pass.claims, kept claim → claim ∈ claims

section Tracking

variable {pass : Pass} {kept kept' : ManagedX11MachineClaim → Prop}
  {claims : List ManagedX11MachineClaim} {claim : ManagedX11MachineClaim}

theorem Tracks.mono (h : Tracks pass kept claims) (hk : ∀ c ∈ pass.claims, kept' c → kept c) :
    Tracks pass kept' claims :=
  ⟨h.covered, fun c hc hkc => h.kept c hc (hk c hc hkc)⟩

/-- Rewriting an unresolved claim of the catalog touches that claim only. -/
theorem Tracks.put (h : Tracks pass kept claims) (hd : (claims.map (·.claimId)).Nodup)
    (hc : claim ∈ pass.claims) (hp : claim.phase ≠ .ended) {phase : MachineClaimPhase}
    (hk : ∀ c ∈ pass.claims, kept' c → kept c ∧ c.claimId ≠ claim.claimId) :
    Tracks pass kept' (Directory.put (·.claimId) { claim with phase } claims) where
  covered := by
    intro stored hs
    rcases Directory.mem_put hd hs with rfl | ⟨hs, -⟩
    · exact ⟨claim, hc, rfl, rfl, fun he => absurd he hp⟩
    · exact h.covered stored hs
  kept := by
    intro c hm hkc
    obtain ⟨hkept, hn⟩ := hk c hm hkc
    exact Directory.mem_put_of_ne (h.kept c hm hkept) hn

/-- An observation that was stored or not touches its claim only. -/
theorem Stored.tracks {s t : X11State} (hst : Stored claim s.claims s.log t) (hs : s.Sound)
    (h : Tracks pass kept s.claims) (hc : claim ∈ pass.claims) (hp : claim.phase ≠ .ended)
    (hk : ∀ c ∈ pass.claims, kept' c → kept c ∧ c.claimId ≠ claim.claimId) :
    Tracks pass kept' t.claims := by
  rcases hst.written with hw | ⟨phase, hw⟩
  · rw [hw]
    exact h.mono fun c hm hkc => (hk c hm hkc).1
  · rw [hw]
    exact h.put hs.distinct hc hp hk

theorem concerns_unresolved (h : pass.concerns claim) : claim.phase ≠ .ended := by
  simp only [Pass.concerns, MachineClaimPhase.requiresReconcile, Bool.and_eq_true, decide_eq_true_eq] at h
  exact h.1

end Tracking

section FirstLook

variable {env : Environment} {pass : Pass}

/-- While claims are being observed, the ones still to come and the ones found
ready stand as loaded. -/
def Untouched (rest : List ManagedX11MachineClaim) (groups : List ReconcileGroup)
    (claim : ManagedX11MachineClaim) : Prop :=
  claim ∈ rest ∨ ∃ group ∈ groups, ∃ member ∈ group.claims,
    member.status = .ready ∧ member.claimId = claim.claimId

theorem untouched_insert {rest : List ManagedX11MachineClaim} {groups : List ReconcileGroup}
    {member : ReconcileClaim} {claim : ManagedX11MachineClaim}
    (h : Untouched rest (ReconcileGroup.insert member groups) claim) :
    Untouched rest groups claim ∨ (member.status = .ready ∧ member.claimId = claim.claimId) := by
  rcases h with h | ⟨group, hg, m, hm, hr, hid⟩
  · exact .inl (.inl h)
  · rcases mem_insert hg with hg | ⟨old, ho, -, rfl⟩ | rfl
    · exact .inl (.inr ⟨group, hg, m, hm, hr, hid⟩)
    · rcases List.mem_append.mp hm with hm | hm
      · exact .inl (.inr ⟨old, ho, m, hm, hr, hid⟩)
      · rw [List.mem_singleton.mp hm] at hr hid
        exact .inr ⟨hr, hid⟩
    · rw [List.mem_singleton.mp hm] at hr hid
      exact .inr ⟨hr, hid⟩

theorem observeClaims_spec (hd : (pass.claims.map (·.claimId)).Nodup)
    (rest : List ManagedX11MachineClaim) :
    ∀ (done : List ManagedX11MachineClaim) (groups : List ReconcileGroup) (s : X11State),
      pass.claims = done ++ rest → Filed pass done groups → s.Sound →
      Tracks pass (Untouched rest groups) s.claims →
      Ensures X11State.Sound (observeClaims env pass rest groups)
        (fun groups t => t.Sound ∧ Filed pass pass.claims groups ∧
          Tracks pass (Untouched [] groups) t.claims) (fun _ => X11State.Sound) s := by
  induction rest with
  | nil =>
    intro done groups s hsplit hf hs ht
    rw [List.append_nil] at hsplit
    exact ensures_pure ⟨hs, hsplit ▸ hf, ht⟩
  | cons claim rest ih =>
    intro done groups s hsplit hf hs ht
    have hsplit' : pass.claims = (done ++ [claim]) ++ rest := by rw [hsplit]; simp
    have hmem : claim ∈ pass.claims := by rw [hsplit]; simp
    -- the id of the claim at hand occurs neither before nor after it
    have hids := hd
    rw [hsplit, List.map_append, List.map_cons] at hids
    obtain ⟨-, hrest, hdisj⟩ := List.nodup_append.mp hids
    have hbefore : claim.claimId ∉ done.map (·.claimId) :=
      fun hm => hdisj _ hm _ List.mem_cons_self rfl
    have hafter : ∀ c ∈ rest, c.claimId ≠ claim.claimId := fun c hc he =>
      (List.nodup_cons.mp hrest).1 (he ▸ List.mem_map_of_mem hc)
    unfold observeClaims
    split
    · rename_i hcon
      refine ensures_bind (ask_holds (P := fun claims _ => Tracks pass (Untouched (claim :: rest) groups) claims)
        _ hs ht) ?_
      rintro registration t ⟨hts, htt⟩
      have hstore : claim ∈ t.claims := htt.kept claim hmem (.inl List.mem_cons_self)
      have hp := concerns_unresolved hcon
      refine ensures_bind (reconcileClaim_spec hts hstore hp) ?_
      rintro status u ⟨st, rfl, hst, hready⟩
      refine ih _ _ u hsplit' (hf.insert hcon hbefore) hst.sound ?_
      by_cases hr : st = .ready
      · rw [(hready hr).1]
        refine htt.mono fun c hc hu => ?_
        rcases untouched_insert hu with hu | ⟨-, hid⟩
        · exact hu.imp (List.mem_cons_of_mem _) id
        · exact .inl (Directory.eq_of_name_eq hd hc hmem hid.symm ▸ List.mem_cons_self)
      · refine hst.tracks hts htt hmem hp fun c hc hu => ?_
        rcases untouched_insert hu with (hu | ⟨group, hg, m, hm, hmr, hid⟩) | ⟨hmr, -⟩
        · exact ⟨.inl (List.mem_cons_of_mem _ hu), hafter c hu⟩
        · refine ⟨.inr ⟨group, hg, m, hm, hmr, hid⟩, ?_⟩
          intro he
          obtain ⟨c', hc', -, hid', -⟩ := hf.origin group hg m hm
          exact hbefore (List.mem_map.mpr ⟨c', hc', hid'.trans (hid.trans he)⟩)
        · exact absurd hmr hr
    · rename_i hcon
      exact ih _ _ s hsplit' (hf.skip hcon) hs
        (ht.mono fun c _ hu => hu.imp (List.mem_cons_of_mem _) id)

end FirstLook

section SecondLook

variable {env : Environment} {pass : Pass} {s : X11State} {claim : ManagedX11MachineClaim}
  {member : ReconcileClaim} {rest : ManagedX11MachineClaim → Prop}

theorem catalogClaim_eq (hd : (pass.claims.map (·.claimId)).Nodup) (hc : claim ∈ pass.claims)
    (hid : claim.claimId = member.claimId) : pass.catalogClaim member = .ok claim := by
  unfold Pass.catalogClaim
  cases hf : pass.claims.find? (·.claimId = member.claimId) with
  | none =>
    have := List.find?_eq_none.mp hf claim hc
    simp [hid] at this
  | some found =>
    have hfound : found.claimId = member.claimId := by simpa using List.find?_some hf
    rw [Directory.eq_of_name_eq hd (List.mem_of_find?_eq_some hf) hc (hfound.trans hid.symm)]

theorem recheckMember_spec (hd : (pass.claims.map (·.claimId)).Nodup) (hc : claim ∈ pass.claims)
    (hcon : pass.concerns claim) (hid : claim.claimId = member.claimId) (hs : s.Sound)
    (hstore : claim ∈ s.claims) :
    Ensures X11State.Sound (recheckMember env pass member)
      (fun status t => ∃ st, status = some st ∧ Stored claim s.claims s.log t ∧
        (st = .ready → t.claims = s.claims ∧ Ready pass.currentBootId t.log claim))
      (fun _ => X11State.Sound) s := by
  unfold recheckMember
  rw [catalogClaim_eq hd hc hid, ofExcept_ok_bind]
  refine ensures_bind (ask_holds (P := fun claims log => claims = s.claims ∧ log = s.log) _ hs
    ⟨rfl, rfl⟩) ?_
  rintro registration u ⟨hu, huc, hul⟩
  refine ensures_bind (askResult_holds (P := fun claims log => claims = s.claims ∧ log = s.log) _ hu
    ⟨huc, hul⟩) ?_
  rintro now v ⟨hv, hvc, hvl⟩
  rw [← hvc, ← hvl]
  exact reconcileClaim_spec hv (by rw [hvc]; exact hstore) (concerns_unresolved hcon)

/-- While a ready group is looked at again, its members still to come stand as
loaded, and so do the ones already looked at as long as all were ready. -/
def Standing (rest : ManagedX11MachineClaim → Prop) (ready : Bool) (done members : List ReconcileClaim)
    (claim : ManagedX11MachineClaim) : Prop :=
  rest claim ∨ claim.claimId ∈ members.map (·.claimId) ∨
    (ready = true ∧ claim.claimId ∈ done.map (·.claimId))

theorem recheckMembers_spec (hd : (pass.claims.map (·.claimId)).Nodup) (members : List ReconcileClaim) :
    ∀ (done : List ReconcileClaim) (ready : Bool) (progress : Progress) (s : X11State),
      ((done ++ members).map (·.claimId)).Nodup →
      (∀ member ∈ members, ∃ claim ∈ pass.claims, pass.concerns claim ∧ claim.claimId = member.claimId) →
      (∀ claim ∈ pass.claims, rest claim → claim.claimId ∉ (done ++ members).map (·.claimId)) →
      s.Sound → Tracks pass (Standing rest ready done members) s.claims →
      (ready = true → ∀ claim ∈ pass.claims, claim.claimId ∈ done.map (·.claimId) →
        Ready pass.currentBootId s.log claim) →
      Ensures X11State.Sound (recheckMembers env pass members ready progress)
        (fun result t => t.Sound ∧ Tracks pass (Standing rest result.1 (done ++ members) []) t.claims ∧
          (result.1 = true → ∀ claim ∈ pass.claims, claim.claimId ∈ (done ++ members).map (·.claimId) →
            Ready pass.currentBootId t.log claim)) (fun _ => X11State.Sound) s := by
  induction members with
  | nil =>
    intro done ready progress s _ _ _ hs ht hr
    rw [List.append_nil]
    exact ensures_pure ⟨hs, ht, hr⟩
  | cons member members ih =>
    intro done ready progress s hn horigin hrest hs ht hr
    obtain ⟨claim, hc, hcon, hid⟩ := horigin member List.mem_cons_self
    have hstore : claim ∈ s.claims := ht.kept claim hc (.inr (.inl (by simp [hid])))
    have happ : (done ++ [member]) ++ members = done ++ member :: members := by simp
    have hn' := hn
    rw [List.map_append, List.map_cons] at hn'
    obtain ⟨-, hmem, hdisj⟩ := List.nodup_append.mp hn'
    have hdone : ∀ c : ManagedX11MachineClaim, c.claimId ∈ done.map (·.claimId) → c.claimId ≠ claim.claimId :=
      fun c hm => hid ▸ hdisj _ hm _ List.mem_cons_self
    have hlater : ∀ c : ManagedX11MachineClaim, c.claimId ∈ members.map (·.claimId) →
        c.claimId ≠ claim.claimId := fun c hm he =>
      (List.nodup_cons.mp hmem).1 (hid ▸ he ▸ hm)
    refine ensures_bind (recheckMember_spec hd hc hcon hid hs hstore) ?_
    rintro status t ⟨st, rfl, hst, hready⟩
    rw [← happ]
    refine ih (done ++ [member]) _ _ t (happ ▸ hn) (fun m hm => horigin m (List.mem_cons_of_mem _ hm))
      (happ ▸ hrest) hst.sound ?_ ?_
    · by_cases hr' : st = .ready
      · rw [(hready hr').1]
        refine ht.mono fun c _ hkept => ?_
        rcases hkept with hkept | hkept | ⟨hready', hkept⟩
        · exact .inl hkept
        · exact .inr (.inl (by simp [hkept]))
        · rw [List.map_append, List.mem_append] at hkept
          rcases hkept with hkept | hkept
          · exact .inr (.inr ⟨(Bool.and_eq_true_iff.mp hready').1, hkept⟩)
          · refine .inr (.inl ?_)
            rw [List.mem_singleton.mp hkept]
            exact List.mem_cons_self
      · refine hst.tracks hs ht hc (concerns_unresolved hcon) fun c hm hkept => ?_
        rcases hkept with hkept | hkept | ⟨hready', -⟩
        · refine ⟨.inl hkept, fun he => hrest c hm hkept ?_⟩
          rw [he, hid]
          simp
        · exact ⟨.inr (.inl (by simp [hkept])), hlater c hkept⟩
        · simp [hr'] at hready'
    · intro hready' c hm hin
      obtain ⟨hready', hst'⟩ := Bool.and_eq_true_iff.mp hready'
      have hst'' : st = .ready := by simpa using hst'
      rw [List.map_append, List.mem_append] at hin
      rcases hin with hin | hin
      · obtain ⟨registration, now, stored, hlog⟩ := hst.logged
        rw [hlog]
        exact (hr hready' c hm hin).observed (hdone c hin)
      · have hce : c = claim := Directory.eq_of_name_eq hd hm hc (by
          rw [hid]; simpa using hin)
        rw [hce]
        exact (hready hst'').2

end SecondLook

section Cleanup

variable {env : Environment} {pass : Pass} {s : X11State} {groups : List ReconcileGroup}
  {group : ReconcileGroup} {kept : ManagedX11MachineClaim → Prop}

/-- The store is sound and the named claims stand as loaded. -/
def Tracked (pass : Pass) (kept : ManagedX11MachineClaim → Prop) (claims : List ManagedX11MachineClaim)
    (log : List Event) : Prop :=
  Sound claims log ∧ Tracks pass kept claims

/-- Rewriting a member of the group leaves the claims of other keys alone. -/
theorem markMember_tracked (hd : (pass.claims.map (·.claimId)).Nodup) {phase : MachineClaimPhase}
    (hp : ∀ since, phase ≠ .cleanupPending since)
    (hk : ∀ claim ∈ pass.claims, kept claim → claim.key ≠ group.key) {member : ReconcileClaim}
    (horigin : ∃ claim ∈ pass.claims, pass.concerns claim ∧ claim.claimId = member.claimId ∧
      claim.key = group.key) :
    Preserves (fun t => Tracked pass kept t.claims t.log) (markMember env pass phase member) := by
  obtain ⟨claim, hc, hcon, hid, hkey⟩ := horigin
  unfold markMember
  rw [catalogClaim_eq hd hc hid, ofExcept_ok_bind]
  refine preserves_bind (ask_keeps _) fun outcome => preserves_bind ?_ fun _ => preserves_pure
  refine preserves_update fun t ht => ?_
  rw [List.append_nil]
  dsimp only
  split
  · refine ⟨ht.1.put hp, ht.2.put ht.1.distinct hc (concerns_unresolved hcon) ?_⟩
    intro c hm hkept
    refine ⟨hkept, fun he => hk c hm hkept ?_⟩
    rw [Directory.eq_of_name_eq hd hm hc he]
    exact hkey
  · exact ht

variable (hd : (pass.claims.map (·.claimId)).Nodup) (hf : Filed pass pass.claims groups)
  (hg : group ∈ groups) (hk : ∀ claim ∈ pass.claims, kept claim → claim.key ≠ group.key)

include hd hf hg hk

theorem finishGroup_tracked (records : List ManagedX11GrantRecord) (progress : Progress)
    (hs : Tracked pass kept s.claims s.log) :
    Ensures X11State.Sound (finishGroup env pass group records progress)
      (fun _ t => Tracked pass kept t.claims t.log) (fun _ => X11State.Sound) s := by
  have hmembers : ∀ t, Tracked pass kept t.claims t.log →
      Ensures (fun t => Tracked pass kept t.claims t.log) (forEach (markEnded env pass) group.claims)
        (fun _ t => Tracked pass kept t.claims t.log) (fun _ t => Tracked pass kept t.claims t.log) t := by
    intro t ht
    refine ensures_forEach (fun member hm u hu => ?_) ht
    refine ensures_bind (markMember_tracked hd (by simp) hk (hf.origin group hg member hm) u hu) ?_
    intro result v hv
    exact ensures_ofExcept (fun _ _ => hv) fun _ _ => hv
  have hall : Ensures (fun t => Tracked pass kept t.claims t.log)
      (finishGroup env pass group records progress) (fun _ t => Tracked pass kept t.claims t.log)
      (fun _ t => Tracked pass kept t.claims t.log) s := by
    refine ensures_bind (preserves_forEach (fun record => markRecordPhaseSync_keeps _ _) s hs) ?_
    intro _ t ht
    refine ensures_bind (hmembers t ht) ?_
    intro _ u hu
    exact ensures_pure hu
  exact hall.weaken (fun _ ht => ht.1) (fun _ _ ht => ht) fun _ _ ht => ht.1

theorem concludeRemoval_tracked (records : List ManagedX11GrantRecord) (progress : Progress)
    (change : Except String Unit) (observed : Except String X11AclSnapshot)
    (socketResult serverResult : Except String Unit) (hs : Tracked pass kept s.claims s.log) :
    Ensures X11State.Sound (concludeRemoval env pass group records progress change observed
      socketResult serverResult) (fun _ t => Tracked pass kept t.claims t.log)
      (fun _ => X11State.Sound) s := by
  unfold concludeRemoval
  split
  · cases observed with
    | error error => exact ensures_fail hs.1
    | ok acl =>
      rw [ofExcept_ok_bind]
      split
      · exact ensures_pure hs
      · exact finishGroup_tracked hd hf hg hk records _ hs
  · have hmembers : ∀ reason, Ensures (fun t => Tracked pass kept t.claims t.log)
        (forEach (markUncertain env pass reason) group.claims)
        (fun _ t => Tracked pass kept t.claims t.log) (fun _ t => Tracked pass kept t.claims t.log) s := by
      intro reason
      refine ensures_forEach (fun member hm u hu => ?_) hs
      refine ensures_bind (markMember_tracked hd (by simp) hk (hf.origin group hg member hm) u hu) ?_
      intro result v hv
      exact ensures_pure hv
    refine ensures_bind ((hmembers _).weaken (fun _ ht => ht.1) (fun _ _ ht => ht) fun _ _ ht => ht.1) ?_
    intro _ t ht
    exact ensures_pure ht

/-- The removal itself: every claim on the grant's key has to be ready. -/
theorem revokeGroup_tracked (records : List ManagedX11GrantRecord) (progress : Progress)
    (hs : Tracked pass kept s.claims s.log)
    (hready : ∀ claim ∈ s.claims, claim.key = group.key → claim.phase ≠ .ended →
      Ready pass.currentBootId s.log claim) :
    Ensures X11State.Sound (revokeGroup env pass group records progress)
      (fun _ t => Tracked pass kept t.claims t.log) (fun _ => X11State.Sound) s := by
  unfold revokeGroup
  split
  · have hremoved : Sound s.claims
        (s.log ++ [.removed group.key pass.currentBootId s.claims, .sent s.calls]) := by
      have hlogged := Sound.sent s.calls (hs.1.removed hready)
      rwa [List.append_assoc] at hlogged
    have hsent : Ensures X11State.Sound (removeAndObserve env pass group.key)
        (fun _ t => Tracked pass kept t.claims t.log) (fun _ => X11State.Sound) s := by
      have hupdate : Ensures X11State.Sound
          (update fun u => { u with
            log := u.log ++ [.removed group.key pass.currentBootId u.claims, .sent u.calls] } : Desktop Unit)
          (fun _ t => Tracked pass kept t.claims t.log) (fun _ => X11State.Sound) s :=
        ensures_update hremoved ⟨hremoved, hs.2⟩
      refine ensures_bind hupdate fun _ t ht => ?_
      refine ensures_bind (ask_holds (P := fun claims _ => Tracks pass kept claims) _ ht.1 ht.2)
        fun _ u hu => ?_
      refine ensures_bind (ask_holds (P := fun claims _ => Tracks pass kept claims) _ hu.1 hu.2)
        fun _ v hv => ?_
      exact ensures_pure hv
    refine ensures_bind hsent fun _ t ht => ?_
    refine ensures_bind (ask_holds (P := fun claims _ => Tracks pass kept claims) _ ht.1 ht.2)
      fun _ u hu => ?_
    refine ensures_bind (ask_holds (P := fun claims _ => Tracks pass kept claims) _ hu.1 hu.2)
      fun _ v hv => ?_
    exact concludeRemoval_tracked hd hf hg hk records progress _ _ _ _ hv
  · exact finishGroup_tracked hd hf hg hk records progress hs

end Cleanup

section Groups

variable {env : Environment} {pass : Pass} {s : X11State} {groups rest : List ReconcileGroup}
  {group : ReconcileGroup}

/-- The claims of the groups still to come that are ready. -/
def Awaiting (pass : Pass) (rest : List ReconcileGroup) (claim : ManagedX11MachineClaim) : Prop :=
  pass.concerns claim ∧ ∃ group ∈ rest, group.ready ∧ group.key = claim.key

theorem Filed.group_eq (hf : Filed pass pass.claims groups) {group' : ReconcileGroup}
    (hg : group ∈ groups) (hg' : group' ∈ groups) (hk : group.key = group'.key) : group = group' :=
  List.inj_on_of_nodup_map hf.keys hg hg' hk

/-- A concerned claim is a member of the group of its key. -/
theorem Filed.member (hf : Filed pass pass.claims groups) (hg : group ∈ groups)
    {claim : ManagedX11MachineClaim} (hc : claim ∈ pass.claims) (hcon : pass.concerns claim)
    (hk : claim.key = group.key) : ∃ member ∈ group.claims, member.claimId = claim.claimId := by
  obtain ⟨group', hg', hk', hm⟩ := hf.complete claim hc hcon
  rw [hf.group_eq hg hg' (hk.symm.trans hk'.symm)]
  exact hm

theorem Filed.key_eq (hf : Filed pass pass.claims groups) (hd : (pass.claims.map (·.claimId)).Nodup)
    (hg : group ∈ groups) {claim : ManagedX11MachineClaim} (hc : claim ∈ pass.claims)
    (hm : claim.claimId ∈ group.claims.map (·.claimId)) : claim.key = group.key := by
  obtain ⟨member, hmem, hid⟩ := List.mem_map.mp hm
  obtain ⟨claim', hc', -, hid', hk⟩ := hf.origin group hg member hmem
  rw [Directory.eq_of_name_eq hd hc hc' (hid.symm.trans hid'.symm)]
  exact hk

theorem ready_member (h : group.ready) {member : ReconcileClaim} (hm : member ∈ group.claims) :
    member.status = .ready := by
  simp only [ReconcileGroup.ready, Bool.and_eq_true, List.all_eq_true, decide_eq_true_eq] at h
  exact h.2 member hm

theorem concerns_of_key {claim claim' : ManagedX11MachineClaim} (h : pass.concerns claim)
    (hp : claim'.phase ≠ .ended) (hk : claim'.key = claim.key) : pass.concerns claim' := by
  simp only [Pass.concerns, Bool.and_eq_true] at h ⊢
  exact ⟨by simp [MachineClaimPhase.requiresReconcile, hp], hk ▸ h.2⟩

/-- After the first look, a ready group has all its claims in the store as loaded. -/
theorem Tracks.awaiting (hf : Filed pass pass.claims groups) {claims : List ManagedX11MachineClaim}
    (h : Tracks pass (Untouched [] groups) claims) : Tracks pass (Awaiting pass groups) claims := by
  refine h.mono fun claim hc hw => ?_
  obtain ⟨hcon, group, hg, hready, hk⟩ := hw
  obtain ⟨member, hm, hid⟩ := hf.member hg hc hcon hk.symm
  exact .inr ⟨group, hg, member, hm, ready_member hready hm, hid⟩

theorem recheckAndRevoke_tracked (hd : (pass.claims.map (·.claimId)).Nodup)
    (hf : Filed pass pass.claims groups) (hg : group ∈ groups) (hready : group.ready)
    (hrest : group.key ∉ rest.map (·.key)) (records : List ManagedX11GrantRecord) (progress : Progress)
    (hs : Tracked pass (Awaiting pass (group :: rest)) s.claims s.log) :
    Ensures X11State.Sound (recheckAndRevoke env pass group records progress)
      (fun _ t => Tracked pass (Awaiting pass rest) t.claims t.log) (fun _ => X11State.Sound) s := by
  have hother : ∀ claim ∈ pass.claims, Awaiting pass rest claim → claim.key ≠ group.key := by
    rintro claim hc ⟨-, group', hg', -, hk'⟩ hk
    exact hrest (List.mem_map.mpr ⟨group', hg', hk'.trans hk⟩)
  have hstanding : Tracks pass (Standing (Awaiting pass rest) true [] group.claims) s.claims := by
    refine hs.2.mono fun claim hc hkept => ?_
    rcases hkept with ⟨hcon, group', hg', hrest'⟩ | hkept | ⟨-, hkept⟩
    · exact ⟨hcon, group', List.mem_cons_of_mem _ hg', hrest'⟩
    · obtain ⟨member, hm, hid⟩ := List.mem_map.mp hkept
      obtain ⟨claim', hc', hcon', hid', -⟩ := hf.origin group hg member hm
      rw [Directory.eq_of_name_eq hd hc hc' (hid.symm.trans hid'.symm)] at hkept ⊢
      exact ⟨hcon', group, List.mem_cons_self, hready, (hf.key_eq hd hg hc' hkept).symm⟩
    · cases hkept
  have horigin : ∀ member ∈ group.claims, ∃ claim ∈ pass.claims, pass.concerns claim ∧
      claim.claimId = member.claimId := by
    intro member hm
    obtain ⟨claim, hc, hcon, hid, -⟩ := hf.origin group hg member hm
    exact ⟨claim, hc, hcon, hid⟩
  refine ensures_bind (recheckMembers_spec hd group.claims [] true progress s (hf.ids group hg) horigin
    (fun claim hc hw hm => hother claim hc hw (hf.key_eq hd hg hc hm)) hs.1 hstanding
    (fun _ claim _ hm => by cases hm)) ?_
  rintro ⟨stillReady, progress'⟩ t ⟨ht, htracks, hall⟩
  have hnext : Tracked pass (Awaiting pass rest) t.claims t.log :=
    ⟨ht, htracks.mono fun claim _ hw => .inl hw⟩
  dsimp only
  split
  · rename_i hstill
    refine revokeGroup_tracked hd hf hg hother records progress' hnext ?_
    -- a stored claim on this key that is not ended comes from a member of the group
    intro stored hstored hkey hp
    obtain ⟨claim, hc, hid, hck, hended⟩ := htracks.covered stored hstored
    have hcp : claim.phase ≠ .ended := fun he => hp (hended he)
    obtain ⟨member, hm⟩ : ∃ member, member ∈ group.claims := by
      simp only [ReconcileGroup.ready, Bool.and_eq_true, Bool.not_eq_true'] at hready
      exact List.exists_mem_of_ne_nil _ (by simpa using hready.1)
    obtain ⟨first, -, hfirst, -, hfirstKey⟩ := hf.origin group hg member hm
    have hcon : pass.concerns claim := concerns_of_key hfirst hcp (by rw [hck, hkey, hfirstKey])
    obtain ⟨member', hm', hid'⟩ := hf.member hg hc hcon (hck.trans hkey)
    have hin : claim.claimId ∈ group.claims.map (·.claimId) := List.mem_map.mpr ⟨member', hm', hid'⟩
    have hclaim : claim ∈ t.claims := htracks.kept claim hc (.inr (.inr ⟨hstill, hin⟩))
    rw [← Directory.eq_of_name_eq ht.distinct hclaim hstored hid]
    exact hall hstill claim hc hin
  · exact ensures_pure hnext

theorem reconcileGroup_tracked (hd : (pass.claims.map (·.claimId)).Nodup)
    (hf : Filed pass pass.claims groups) (hg : group ∈ groups)
    (hrest : group.key ∉ rest.map (·.key)) (progress : Progress)
    (hs : Tracked pass (Awaiting pass (group :: rest)) s.claims s.log) :
    Ensures X11State.Sound (reconcileGroup env pass group progress)
      (fun _ t => Tracked pass (Awaiting pass rest) t.claims t.log) (fun _ => X11State.Sound) s := by
  have hnext : Tracked pass (Awaiting pass rest) s.claims s.log := by
    refine ⟨hs.1, hs.2.mono ?_⟩
    rintro claim - ⟨hcon, group', hg', hrest'⟩
    exact ⟨hcon, group', List.mem_cons_of_mem _ hg', hrest'⟩
  unfold reconcileGroup
  dsimp only
  split
  · exact ensures_pure hnext
  · rename_i hnot
    simp only [Bool.or_eq_true, not_or, Bool.not_eq_true', Bool.not_eq_false] at hnot
    split
    · exact ensures_pure hnext
    · exact recheckAndRevoke_tracked hd hf hg hnot.2 hrest _ _ hs

theorem reconcileGroups_sound (hd : (pass.claims.map (·.claimId)).Nodup)
    (hf : Filed pass pass.claims groups) (rest : List ReconcileGroup) (hsub : rest ⊆ groups)
    (hn : (rest.map (·.key)).Nodup) (progress : Progress)
    (hs : Tracked pass (Awaiting pass rest) s.claims s.log) :
    Ensures X11State.Sound (reconcileGroups env pass rest progress) (fun _ => X11State.Sound)
      (fun _ => X11State.Sound) s := by
  induction rest generalizing progress s with
  | nil => exact ensures_pure hs.1
  | cons group rest ih =>
    obtain ⟨hfresh, hn'⟩ := List.nodup_cons.mp hn
    refine ensures_bind (reconcileGroup_tracked hd hf (hsub List.mem_cons_self) hfresh progress hs) ?_
    intro progress' t ht
    exact ih (fun g hg => hsub (List.mem_cons_of_mem _ hg)) hn' progress' ht

end Groups

section Whole

variable {env : Environment} {s : X11State}

/-- What a pass works from: nothing, or the claims that are stored. -/
def Loaded (claims stored : List ManagedX11MachineClaim) : Prop :=
  claims = [] ∨ claims = Directory.list (·.claimId) stored

theorem reconcileEnabled_sound (pass : Pass) (acl : X11AclSnapshot) (hs : s.Sound)
    (hl : Loaded pass.claims s.claims) :
    Ensures X11State.Sound (reconcileEnabled env pass acl) (fun _ => X11State.Sound)
      (fun _ => X11State.Sound) s := by
  rcases hl with hl | hl
  · unfold reconcileEnabled
    rw [hl]
    exact ensures_pure hs
  · have hd : (pass.claims.map (·.claimId)).Nodup := by rw [hl]; exact Directory.nodup_list hs.distinct
    have hstart : Tracks pass (Untouched pass.claims []) s.claims := by
      refine ⟨fun stored hm => ⟨stored, by rw [hl]; exact Directory.mem_list.mpr hm, rfl, rfl, id⟩, ?_⟩
      intro claim hc _
      rw [hl] at hc
      exact Directory.mem_list.mp hc
    refine ensures_bind (observeClaims_spec hd pass.claims [] [] s rfl .nil hs hstart) ?_
    rintro groups t ⟨ht, hf, htracks⟩
    refine ensures_bind (reconcileGroups_sound hd hf groups (List.Subset.refl _) hf.keys _
      ⟨ht, htracks.awaiting hf⟩) ?_
    intro progress u hu
    exact ensures_pure hu

end Whole

end Lasper.X11
