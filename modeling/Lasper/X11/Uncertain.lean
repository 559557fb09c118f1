import Lasper.X11.Revocation

/-! What keeps an uncertain removal from being tried again. A pass that cannot
tell whether the entry is gone stores every claim of the group as unknown; one
such claim blocks its group in all later passes, as long as it is stored and its
reason is not taken for an old observation failure. -/

namespace Lasper.X11

open Lib Traced

/-- One removal sent by a pass: the grant's key, the claims stored at that
moment, and the question that sent it. -/
structure Removal where
  key : ManagedX11GrantKey
  claims : List ManagedX11MachineClaim
  question : ℕ

/-- The removals of a log, in order. -/
def removals : List Event → List Removal
  | .removed key _ claims :: .sent question :: log => ⟨key, claims, question⟩ :: removals log
  | _ :: log => removals log
  | [] => []

namespace Removal

/-- The group that was removed: the unresolved claims on the key. -/
def group (removal : Removal) : List ManagedX11MachineClaim :=
  removal.claims.filter fun claim => claim.key = removal.key && claim.phase.requiresReconcile

/-- No claim belongs to both groups. -/
def Apart (removal later : Removal) : Prop :=
  ∀ claim ∈ removal.group, ∀ other ∈ later.group, claim.claimId ≠ other.claimId

instance (removal later : Removal) : Decidable (removal.Apart later) :=
  inferInstanceAs (Decidable (∀ claim ∈ removal.group, ∀ other ∈ later.group, claim.claimId ≠ other.claimId))

section Outcome

variable (env : Environment) (removal : Removal)

def serverResult : Except String Unit :=
  confirmServer removal.key.serverPeerStartTime
    "X11 server process changed while revoking a stopped machine" (env.peerStartTime (removal.question + 3))

/-- The change, the endpoint check or the generation check has failed. -/
def uncertain : Bool :=
  !(isOk (env.changeHosts removal.question) && isOk (env.requireCurrentSocket (removal.question + 2)) &&
    isOk (removal.serverResult env))

def reason : String :=
  joinFailures [failureOf id (env.changeHosts removal.question),
    failureOf (s!"ACL confirmation: {·}") (env.readAcl (removal.question + 1)),
    failureOf id (env.requireCurrentSocket (removal.question + 2)),
    failureOf (s!"server generation: {·}") (removal.serverResult env)]

/-- The reason can be stored, is not taken for an observation failure, and at
least one of the group's claims was written. -/
structure Recorded : Prop where
  valid : ManagedX11MachineClaim.validatePhase (.unknown (removal.reason env)) = .ok ()
  guards : legacyObservationFailure (removal.reason env) = false
  written : ∃ i < removal.group.length, (env.write (removal.question + 4 + i)).replaced = true

end Outcome

end Removal

section Log

variable {log : List Event}

theorem removals_append (log : List Event) {event : Event}
    (he : ∀ question, event ≠ .sent question) : removals (log ++ [event]) = removals log := by
  induction log using removals.induct with
  | case1 key bootId claims question log ih => simp [removals, ih]
  | case2 first log hfirst ih =>
    cases log with
    | nil =>
      cases first with
      | removed key bootId claims =>
        cases event with
        | sent question => exact absurd rfl (he question)
        | _ => rfl
      | _ => cases event <;> rfl
    | cons second log =>
      cases first with
      | removed key bootId claims =>
        cases second with
        | sent question => exact absurd rfl (hfirst key bootId claims question log rfl)
        | _ => simpa [removals] using ih
      | _ => simpa [removals] using ih
  | case3 => cases event <;> rfl

/-- A removal is logged by two entries. -/
theorem removals_removed (log : List Event) (key : ManagedX11GrantKey) (bootId : String)
    (claims : List ManagedX11MachineClaim) (question : ℕ) :
    removals (log ++ [.removed key bootId claims, .sent question]) =
      removals log ++ [⟨key, claims, question⟩] := by
  induction log using removals.induct with
  | case1 key' bootId' claims' question' log ih => simp [removals, ih]
  | case2 first log hfirst ih =>
    cases log with
    | nil => cases first <;> rfl
    | cons second log =>
      cases first with
      | removed key bootId claims =>
        cases second with
        | sent question => exact absurd rfl (hfirst key bootId claims question log rfl)
        | _ => simpa [removals] using ih
      | _ => simpa [removals] using ih
  | case3 => rfl

end Log

/-- The claim blocks its group in every later pass. -/
def Guarding (claim : ManagedX11MachineClaim) : Prop :=
  ∃ reason, claim.phase = .unknown reason ∧ legacyObservationFailure reason = false

/-- What holds of the store and the log between passes. -/
structure Settled (env : Environment) (claims : List ManagedX11MachineClaim) (log : List Event) : Prop where
  distinct : (claims.map (·.claimId)).Nodup
  valid : ∀ claim ∈ claims, claim.validate = .ok ()
  agree : ∀ removal ∈ removals log, ∀ old ∈ removal.claims, ∀ claim ∈ claims,
    old.claimId = claim.claimId → old.key = claim.key
  guarded : ∀ removal ∈ removals log, removal.uncertain env = true → removal.Recorded env →
    ∃ claim ∈ claims, claim.key = removal.key ∧ Guarding claim
  once : (removals log).Pairwise fun removal later =>
    removal.uncertain env = true → removal.Recorded env → removal.Apart later

/-- While a pass may still write the claims of some ids: the store is the loaded
catalog with some claims rewritten, and no guarding claim has such an id. -/
structure Guard (env : Environment) (pass : Pass) (writable : String → Prop)
    (claims : List ManagedX11MachineClaim) (log : List Event) : Prop extends Settled env claims log where
  covered : ∀ stored ∈ claims, ∃ claim ∈ pass.claims, claim.claimId = stored.claimId ∧
    claim.key = stored.key ∧ (claim.phase = .ended → stored.phase = .ended)
  there : ∀ claim ∈ pass.claims, ∃ stored ∈ claims, stored.claimId = claim.claimId ∧ stored.key = claim.key
  safe : ∀ claim ∈ claims, Guarding claim → ¬ writable claim.claimId

section Invariant

variable {env : Environment} {pass : Pass} {writable writable' : String → Prop}
  {claims : List ManagedX11MachineClaim} {log : List Event} {claim : ManagedX11MachineClaim}

theorem Guard.mono (h : Guard env pass writable claims log) (hw : ∀ id, writable' id → writable id) :
    Guard env pass writable' claims log :=
  { h with safe := fun c hc hg hw' => h.safe c hc hg (hw _ hw') }

theorem Settled.logged (h : Settled env claims log) {event : Event} (he : ∀ question, event ≠ .sent question) :
    Settled env claims (log ++ [event]) where
  distinct := h.distinct
  valid := h.valid
  agree := by
    rw [removals_append log he]
    exact h.agree
  guarded := by
    rw [removals_append log he]
    exact h.guarded
  once := by
    rw [removals_append log he]
    exact h.once

theorem Guard.logged (h : Guard env pass writable claims log) {event : Event}
    (he : ∀ question, event ≠ .sent question) : Guard env pass writable claims (log ++ [event]) :=
  { h.toSettled.logged he with covered := h.covered, there := h.there, safe := h.safe }

/-- A claim of the catalog is rewritten: the guarding claims stay, and the new
one may guard only if it is not to be written again. -/
theorem Guard.put (h : Guard env pass writable claims log) (hc : claim ∈ pass.claims)
    (hp : claim.phase ≠ .ended) {phase : MachineClaimPhase}
    (hv : ManagedX11MachineClaim.validate { claim with phase } = .ok ()) (hw : writable claim.claimId)
    (hw' : ∀ id, writable' id → writable id)
    (hg : Guarding { claim with phase } → ¬ writable' claim.claimId) :
    Guard env pass writable' (Directory.put (·.claimId) { claim with phase } claims) log where
  distinct := Directory.nodup_put h.distinct
  valid := by
    intro c hm
    rcases Directory.eq_or_mem_of_mem_put hm with rfl | hm
    · exact hv
    · exact h.valid c hm
  agree := by
    intro removal hr old ho c hm hid
    rcases Directory.eq_or_mem_of_mem_put hm with rfl | hm
    · obtain ⟨stored, hs, hsid, hskey⟩ := h.there claim hc
      exact (h.agree removal hr old ho stored hs (hid.trans hsid.symm)).trans hskey
    · exact h.agree removal hr old ho c hm hid
  guarded := by
    intro removal hr hu hrec
    obtain ⟨c, hm, hk, hguard⟩ := h.guarded removal hr hu hrec
    have hne : c.claimId ≠ claim.claimId := fun he => h.safe c hm hguard (he ▸ hw)
    exact ⟨c, Directory.mem_put_of_ne hm hne, hk, hguard⟩
  once := h.once
  covered := by
    intro stored hm
    rcases Directory.eq_or_mem_of_mem_put hm with rfl | hm
    · exact ⟨claim, hc, rfl, rfl, fun he => absurd he hp⟩
    · exact h.covered stored hm
  there := by
    intro c hm
    obtain ⟨stored, hs, hsid, hskey⟩ := h.there c hm
    by_cases he : stored.claimId = claim.claimId
    · -- the rewritten claim of that id has the key it was loaded with
      obtain ⟨other, ho, hoid, hokey⟩ := h.there claim hc
      have hsame : stored = other := Directory.eq_of_name_eq h.distinct hs ho (he.trans hoid.symm)
      exact ⟨_, Directory.mem_put_self, he.symm.trans hsid, by rw [← hskey, hsame, hokey]⟩
    · exact ⟨stored, Directory.mem_put_of_ne hs he, hsid, hskey⟩
  safe := by
    intro c hm hguard hwr
    rcases Directory.eq_or_mem_of_mem_put hm with rfl | hm
    · exact hg hguard hwr
    · exact h.safe c hm hguard (hw' _ hwr)

end Invariant

section Writes

variable {env : Environment} {pass : Pass} {writable writable' : String → Prop} {claim : ManagedX11MachineClaim}
  {phase : MachineClaimPhase}

/-- The store is in the given state of a pass. -/
abbrev Pass.Guards (pass : Pass) (env : Environment) (writable : String → Prop) (s : X11State) : Prop :=
  Guard env pass writable s.claims s.log

theorem validate_of_claimWrite {available : Bool} {outcome : WriteOutcome}
    (h : (claimWrite available claim outcome).2 = true) : claim.validate = .ok () := by
  unfold claimWrite at h
  split at h
  · cases h
  · cases hv : claim.validate with
    | error error => rw [hv] at h; cases h
    | ok u => rfl

/-- The update of a claim write, whether it takes effect or not. -/
theorem writeClaim_guards {log : List Event} {claims : List ManagedX11MachineClaim} {outcome : WriteOutcome}
    (h : Guard env pass writable claims log) (hc : claim ∈ pass.claims) (hp : claim.phase ≠ .ended)
    (hw : writable claim.claimId) (hw' : ∀ id, writable' id → writable id)
    (hg : Guarding { claim with phase } → ¬ writable' claim.claimId) :
    Guard env pass writable' (if (claimWrite pass.available { claim with phase } outcome).2 then
      Directory.put (·.claimId) { claim with phase } claims else claims) log := by
  split
  · rename_i hwritten
    exact h.put hc hp (validate_of_claimWrite hwritten) hw hw' hg
  · exact h.mono hw'

theorem nextPhase_not_guarding {observation : MachineClaimObservation} {now : ℕ}
    (h : observation.nextPhase claim now = some phase) : ¬ Guarding { claim with phase } := by
  obtain ⟨hp, -⟩ := Option.filter_eq_some_iff.mp h
  rintro ⟨reason, hu, -⟩
  cases hu
  cases observation <;> simp [MachineClaimObservation.proposedPhase] at hp

theorem observe_guarding (bootId : Option String) (registration : SystemMachineRegistration) (now : ℕ)
    (h : Guarding claim) : ∃ reason, observeMachineClaim claim bootId registration now = some (.blocked reason) := by
  obtain ⟨reason, hp, hl⟩ := h
  refine ⟨reason, ?_⟩
  unfold observeMachineClaim
  rw [hp]
  simp [hl]

/-- One observation of a claim. A guarding claim is left alone and blocks. -/
theorem reconcileClaim_guards {s : X11State} (bootId : String) (registration : SystemMachineRegistration) (now : ℕ)
    (hc : claim ∈ pass.claims) (hp : claim.phase ≠ .ended)
    (hw : ¬ Guarding claim → writable claim.claimId) (hs : pass.Guards env writable s) :
    Ensures (pass.Guards env writable) (reconcileClaim env pass.available claim bootId registration now)
      (fun status t => pass.Guards env writable t ∧ ∃ st, status = some st ∧
        (Guarding claim → ∃ reason, st = .blocked reason))
      (fun _ => pass.Guards env writable) s := by
  obtain ⟨observation, ho⟩ := observeMachineClaim_of_unresolved bootId registration now hp
  have hblocked : Guarding claim → ∃ reason, observation = .blocked reason := by
    intro hg
    obtain ⟨reason, hr⟩ := observe_guarding (some bootId) registration now hg
    rw [ho] at hr
    exact ⟨reason, Option.some.inj hr⟩
  unfold reconcileClaim
  rw [ho]
  dsimp only
  have hstore : Ensures (pass.Guards env writable) (storeTransition env pass.available claim registration now
      (observation.nextPhase claim now)) (fun _ => pass.Guards env writable) (fun _ => pass.Guards env writable) s := by
    cases hn : observation.nextPhase claim now with
    | none =>
      have hlogged : ∀ t, pass.Guards env writable t → pass.Guards env writable
          { t with log := t.log ++ [.observed claim.claimId registration now true] } :=
        fun t ht => ht.logged (by simp)
      exact preserves_bind (preserves_update hlogged) (fun _ => preserves_pure) s hs
    | some phase =>
      have hnot : ¬ Guarding claim := by
        intro hg
        obtain ⟨reason, rfl⟩ := hblocked hg
        cases hn
      have hwrite : ∀ (outcome : WriteOutcome) (t : X11State), pass.Guards env writable t →
          pass.Guards env writable { t with
            claims := if (claimWrite pass.available { claim with phase } outcome).2 then
              Directory.put (·.claimId) { claim with phase } t.claims else t.claims
            log := t.log ++ [.observed claim.claimId registration now
              (claimWrite pass.available { claim with phase } outcome).2] } :=
        fun outcome t ht => (writeClaim_guards ht hc hp (hw hnot) (fun _ h => h)
          fun hg => absurd hg (nextPhase_not_guarding hn)).logged (by simp)
      exact preserves_bind (ask_keeps _) (fun outcome => preserves_bind (preserves_update (hwrite outcome))
        fun _ => preserves_pure) s hs
  refine ensures_bind hstore ?_
  intro result t ht
  cases result with
  | ok _ =>
    refine ensures_pure ⟨ht, _, rfl, ?_⟩
    intro hg
    obtain ⟨reason, rfl⟩ := hblocked hg
    exact ⟨reason, rfl⟩
  | error error => exact ensures_pure ⟨ht, _, rfl, fun _ => ⟨_, rfl⟩⟩

end Writes

section Observing

variable {env : Environment} {pass : Pass}

/-- The claims that a pass may write at all. -/
def Pass.Open (pass : Pass) (id : String) : Prop :=
  ∃ claim ∈ pass.claims, claim.claimId = id ∧ ¬ Guarding claim

/-- A member whose claim guards is blocked. -/
def MembersBlocked (pass : Pass) (groups : List ReconcileGroup) : Prop :=
  ∀ group ∈ groups, ∀ member ∈ group.claims, pass.Open member.claimId ∨ ∃ reason, member.status = .blocked reason

theorem MembersBlocked.insert {groups : List ReconcileGroup} {member : ReconcileClaim}
    (h : MembersBlocked pass groups)
    (hm : pass.Open member.claimId ∨ ∃ reason, member.status = .blocked reason) :
    MembersBlocked pass (ReconcileGroup.insert member groups) := by
  intro group hg other ho
  rcases mem_insert hg with hg | ⟨old, hold, -, rfl⟩ | rfl
  · exact h group hg other ho
  · rcases List.mem_append.mp ho with ho | ho
    · exact h old hold other ho
    · rw [List.mem_singleton.mp ho]
      exact hm
  · rw [List.mem_singleton.mp ho]
    exact hm

theorem observeClaims_guards (hd : (pass.claims.map (·.claimId)).Nodup) (rest : List ManagedX11MachineClaim) :
    ∀ (done : List ManagedX11MachineClaim) (groups : List ReconcileGroup) (s : X11State),
      pass.claims = done ++ rest → Filed pass done groups → MembersBlocked pass groups →
      pass.Guards env pass.Open s →
      Ensures (pass.Guards env pass.Open) (observeClaims env pass rest groups)
        (fun groups t => pass.Guards env pass.Open t ∧ Filed pass pass.claims groups ∧ MembersBlocked pass groups)
        (fun _ => pass.Guards env pass.Open) s := by
  induction rest with
  | nil =>
    intro done groups s hsplit hf hb hs
    rw [List.append_nil] at hsplit
    exact ensures_pure ⟨hs, hsplit ▸ hf, hb⟩
  | cons claim rest ih =>
    intro done groups s hsplit hf hb hs
    have hsplit' : pass.claims = (done ++ [claim]) ++ rest := by rw [hsplit]; simp
    have hmem : claim ∈ pass.claims := by rw [hsplit]; simp
    have hids := hd
    rw [hsplit, List.map_append, List.map_cons] at hids
    obtain ⟨-, -, hdisj⟩ := List.nodup_append.mp hids
    have hbefore : claim.claimId ∉ done.map (·.claimId) :=
      fun hm => hdisj _ hm _ List.mem_cons_self rfl
    unfold observeClaims
    split
    · rename_i hcon
      refine ensures_bind (ask_keeps _ s hs) fun registration t ht => ?_
      refine ensures_bind (reconcileClaim_guards _ registration _ hmem (concerns_unresolved hcon)
        (fun hg => ⟨claim, hmem, rfl, hg⟩) ht) ?_
      rintro status u ⟨hu, st, rfl, hst⟩
      refine ih _ _ u hsplit' (hf.insert hcon hbefore) (hb.insert ?_) hu
      by_cases hg : Guarding claim
      · exact .inr (hst hg)
      · exact .inl ⟨claim, hmem, rfl, hg⟩
    · rename_i hcon
      exact ih _ _ s hsplit' (hf.skip hcon) hb hs

end Observing

section Groups

variable {env : Environment} {pass : Pass} {groups rest : List ReconcileGroup} {group : ReconcileGroup}
  {writable : String → Prop} {s : X11State}

/-- The ids of the groups that may still be cleaned up. -/
def Writable (groups : List ReconcileGroup) (id : String) : Prop :=
  ∃ group ∈ groups, group.blocked = false ∧ id ∈ group.claims.map (·.claimId)

/-- A member stands for a concerned claim of the catalog. -/
def Pass.Backs (pass : Pass) (key : ManagedX11GrantKey) (member : ReconcileClaim) : Prop :=
  ∃ claim ∈ pass.claims, pass.concerns claim ∧ claim.claimId = member.claimId ∧ claim.key = key

theorem recheckMembers_guards (hd : (pass.claims.map (·.claimId)).Nodup) {key : ManagedX11GrantKey}
    (members : List ReconcileClaim) (hm : ∀ member ∈ members, pass.Backs key member ∧ writable member.claimId)
    (ready : Bool) (progress : Progress) :
    Preserves (pass.Guards env writable) (recheckMembers env pass members ready progress) := by
  induction members generalizing ready progress with
  | nil => exact preserves_pure
  | cons member members ih =>
    obtain ⟨⟨claim, hc, hcon, hid, -⟩, hw⟩ := hm member List.mem_cons_self
    refine preserves_bind ?_ fun status => ih (fun other ho => hm other (List.mem_cons_of_mem _ ho)) _ _
    unfold recheckMember
    rw [catalogClaim_eq hd hc hid, ofExcept_ok_bind]
    refine preserves_bind (ask_keeps _) fun registration => preserves_bind (askResult_keeps _) fun now t ht => ?_
    exact (reconcileClaim_guards _ registration now hc (concerns_unresolved hcon) (fun _ => hid ▸ hw) ht).post
      fun _ _ hu => hu.1

/-- Marking a member writes its claim only. -/
theorem markMember_guards (hd : (pass.claims.map (·.claimId)).Nodup) {key : ManagedX11GrantKey}
    {member : ReconcileClaim} (hm : pass.Backs key member) (hw : writable member.claimId) :
    Preserves (pass.Guards env writable) (markMember env pass .ended member) := by
  obtain ⟨claim, hc, hcon, hid, -⟩ := hm
  unfold markMember
  rw [catalogClaim_eq hd hc hid, ofExcept_ok_bind]
  refine preserves_bind (ask_keeps _) fun outcome => preserves_bind ?_ fun _ => preserves_pure
  refine preserves_update fun t ht => ?_
  unfold Pass.Guards
  rw [List.append_nil]
  refine writeClaim_guards ht hc (concerns_unresolved hcon) (hid ▸ hw) (fun _ h => h) ?_
  rintro ⟨reason, hr, -⟩
  cases hr

theorem finishGroup_guards (hd : (pass.claims.map (·.claimId)).Nodup)
    (hm : ∀ member ∈ group.claims, pass.Backs group.key member ∧ writable member.claimId)
    (records : List ManagedX11GrantRecord) (progress : Progress) :
    Preserves (pass.Guards env writable) (finishGroup env pass group records progress) := by
  refine preserves_bind (preserves_forEach fun record => markRecordPhaseSync_keeps _ _) fun _ => ?_
  refine preserves_bind (fun s hs => ?_) fun _ => preserves_pure
  refine ensures_forEach (fun member hmem t ht => ?_) hs
  exact preserves_bind (markMember_guards hd (hm member hmem).1 (hm member hmem).2)
    (fun _ => preserves_ofExcept) t ht

/-- The ids that the loop over the rest of a group and the groups after it may write. -/
def Remaining (members : List ReconcileClaim) (writable : String → Prop) (id : String) : Prop :=
  id ∈ members.map (·.claimId) ∨ writable id

/-- Marking one member takes one question and writes its claim only. -/
theorem markUncertain_spec (hd : (pass.claims.map (·.claimId)).Nodup) {reason : String}
    {claim : ManagedX11MachineClaim} {member : ReconcileClaim} (hc : claim ∈ pass.claims)
    (hid : claim.claimId = member.claimId) :
    Ensures (fun _ => True) (markUncertain env pass reason member)
      (fun _ t => t.calls = s.calls + 1 ∧ t.log = s.log ∧
        t.claims = if (claimWrite pass.available { claim with phase := .unknown reason } (env.write s.calls)).2 then
          Directory.put (·.claimId) { claim with phase := .unknown reason } s.claims else s.claims)
      (fun _ _ => False) s := by
  unfold markUncertain markMember
  rw [catalogClaim_eq hd hc hid, ofExcept_ok_bind]
  refine ensures_bind (ensures_bind (ensures_ask trivial) ?_) fun _ t ht => ensures_pure ht
  rintro outcome t ⟨rfl, rfl⟩
  refine ensures_bind (ensures_update trivial ⟨rfl, List.append_nil _, rfl⟩) fun _ t ht => ensures_pure ht

/-- The claims of a group are marked one after the other; one write that takes
effect leaves a guarding claim behind. -/
theorem markUncertain_guards (hd : (pass.claims.map (·.claimId)).Nodup)
    (hv : ∀ claim ∈ pass.claims, claim.validate = .ok ()) {reason : String} {log log' : List Event}
    {key : ManagedX11GrantKey} (members : List ReconcileClaim) :
    ∀ s : X11State, (members.map (·.claimId)).Nodup →
      (∀ member ∈ members, pass.Backs key member ∧ ¬ writable member.claimId) →
      Guard env pass (Remaining members writable) s.claims log → s.log = log' →
      Ensures (fun _ => True) (forEach (markUncertain env pass reason) members)
        (fun _ t => Guard env pass writable t.claims log ∧ t.log = log' ∧
          (pass.available = true → ManagedX11MachineClaim.validatePhase (.unknown reason) = .ok () →
            legacyObservationFailure reason = false →
            (∃ claim ∈ s.claims, claim.key = key ∧ Guarding claim) ∨
              (∃ i < members.length, (env.write (s.calls + i)).replaced = true) →
            ∃ claim ∈ t.claims, claim.key = key ∧ Guarding claim))
        (fun _ _ => False) s := by
  induction members with
  | nil =>
    intro s _ _ hs hlog
    refine ensures_pure ⟨hs.mono fun _ h => .inr h, hlog, ?_⟩
    rintro _ _ _ (hguard | ⟨i, hi, _⟩)
    · exact hguard
    · cases hi
  | cons member members ih =>
    intro s hn hm hs hlog
    obtain ⟨hfresh, hn'⟩ := List.nodup_cons.mp hn
    obtain ⟨⟨claim, hc, hcon, hid, hkey⟩, hw⟩ := hm member List.mem_cons_self
    have hfirst : Remaining (member :: members) writable claim.claimId := .inl (hid ▸ List.mem_cons_self)
    have hafter : ¬ Remaining members writable claim.claimId := by
      rw [hid]
      exact fun h => h.elim hfresh hw
    refine ensures_bind (markUncertain_spec hd hc hid) ?_
    rintro _ t ⟨hcalls, htlog, hclaims⟩
    have hkept : Guard env pass (Remaining members writable) t.claims log := by
      rw [hclaims]
      exact writeClaim_guards hs hc (concerns_unresolved hcon) hfirst
        (fun _ h => h.imp (List.mem_cons_of_mem _) id) fun _ => hafter
    refine (ih t hn' (fun other ho => hm other (List.mem_cons_of_mem _ ho)) hkept (htlog.trans hlog)).post ?_
    rintro _ u ⟨hu, hulog, hguard⟩
    refine ⟨hu, hulog, fun havailable hreason hlegacy hcause => hguard havailable hreason hlegacy ?_⟩
    rcases hcause with ⟨old, ho, hk, hg⟩ | ⟨i, hi, hwrite⟩
    · -- a claim that guards already is not the one written now
      refine .inl ⟨old, ?_, hk, hg⟩
      rw [hclaims]
      split
      · exact Directory.mem_put_of_ne ho fun he => hs.safe old ho hg (he ▸ hfirst)
      · exact ho
    · cases i with
      | zero =>
        refine .inl ⟨{ claim with phase := .unknown reason }, ?_, hkey, reason, rfl, hlegacy⟩
        rw [hclaims, if_pos]
        · exact Directory.mem_put_self
        · unfold claimWrite
          rw [havailable, validate_phase (hv claim hc) hreason]
          exact hwrite
      | succ i =>
        refine .inr ⟨i, Nat.lt_of_succ_lt_succ hi, ?_⟩
        rw [hcalls, Nat.add_right_comm, Nat.add_assoc]
        exact hwrite

/-- A stored claim on the key of a group that is not ended stands for a member. -/
theorem Guard.member (hs : pass.Guards env writable s) (hf : Filed pass pass.claims groups)
    (hg : group ∈ groups) (hne : group.claims ≠ []) {stored : ManagedX11MachineClaim} (hst : stored ∈ s.claims)
    (hk : stored.key = group.key) (hp : stored.phase ≠ .ended) : stored.claimId ∈ group.claims.map (·.claimId) := by
  obtain ⟨claim, hc, hid, hkey, hended⟩ := hs.covered stored hst
  obtain ⟨first, hfirst⟩ := List.exists_mem_of_ne_nil _ hne
  obtain ⟨other, -, hother, -, hotherKey⟩ := hf.origin group hg first hfirst
  have hcon : pass.concerns claim :=
    concerns_of_key hother (fun he => hp (hended he)) (by rw [hkey, hk, hotherKey])
  obtain ⟨member, hm, hmid⟩ := hf.member hg hc hcon (hkey.trans hk)
  exact List.mem_map.mpr ⟨member, hm, hmid.trans hid⟩

/-- The removal goes into the log. Earlier uncertain ones concerned other claims;
if this one is uncertain, it has to be guarded by now. -/
theorem Guard.removed {claims old : List ManagedX11MachineClaim} {log : List Event} {key : ManagedX11GrantKey}
    {bootId : String} {question : ℕ} (hd : (pass.claims.map (·.claimId)).Nodup)
    (h : Guard env pass writable claims log)
    (hold : ∀ stored ∈ old, ∃ claim ∈ pass.claims, claim.claimId = stored.claimId ∧ claim.key = stored.key)
    (honce : ∀ removal ∈ removals log, removal.uncertain env = true → removal.Recorded env →
      removal.Apart ⟨key, old, question⟩)
    (hguard : Removal.uncertain env ⟨key, old, question⟩ = true → Removal.Recorded env ⟨key, old, question⟩ →
      ∃ claim ∈ claims, claim.key = key ∧ Guarding claim) :
    Guard env pass writable claims (log ++ [.removed key bootId old, .sent question]) where
  distinct := h.distinct
  valid := h.valid
  agree := by
    intro removal hr stored hst claim hc hid
    rw [removals_removed] at hr
    rcases List.mem_append.mp hr with hr | hr
    · exact h.agree removal hr stored hst claim hc hid
    · rw [List.mem_singleton.mp hr] at hst
      obtain ⟨first, hfirst, hfid, hfkey⟩ := hold stored hst
      obtain ⟨second, hsecond, hsid, hskey, -⟩ := h.covered claim hc
      have hsame : first = second :=
        Directory.eq_of_name_eq hd hfirst hsecond (hfid.trans (hid.trans hsid.symm))
      rw [← hfkey, hsame, hskey]
  guarded := by
    intro removal hr hu hrec
    rw [removals_removed] at hr
    rcases List.mem_append.mp hr with hr | hr
    · exact h.guarded removal hr hu hrec
    · rw [List.mem_singleton.mp hr] at hu hrec ⊢
      exact hguard hu hrec
  once := by
    rw [removals_removed]
    refine List.pairwise_append.mpr ⟨h.once, List.pairwise_singleton _ _, ?_⟩
    intro removal hr later hl
    rw [List.mem_singleton.mp hl]
    exact honce removal hr
  covered := h.covered
  there := h.there
  safe := h.safe

/-- The group of the removal is no larger than the group of the pass. -/
theorem Guard.group_length (hs : pass.Guards env writable s) (hf : Filed pass pass.claims groups)
    (hg : group ∈ groups) (hne : group.claims ≠ []) :
    (Removal.group ⟨group.key, s.claims, s.calls⟩).length ≤ group.claims.length := by
  have hsub : (Removal.group ⟨group.key, s.claims, s.calls⟩).map (·.claimId) ⊆ group.claims.map (·.claimId) := by
    intro id hid
    obtain ⟨stored, hst, rfl⟩ := List.mem_map.mp hid
    obtain ⟨hmem, htest⟩ := List.mem_filter.mp hst
    simp only [Bool.and_eq_true, decide_eq_true_eq, MachineClaimPhase.requiresReconcile] at htest
    exact hs.member hf hg hne hmem htest.1 htest.2
  have hnodup : ((Removal.group ⟨group.key, s.claims, s.calls⟩).map (·.claimId)).Nodup :=
    hs.distinct.sublist ((List.filter_sublist).map _)
  simpa using (List.subperm_of_subset hnodup hsub).length_le

/-- Earlier uncertain removals did not concern the claims of this group. -/
theorem Guard.apart (hs : pass.Guards env (Writable (group :: rest)) s) (hf : Filed pass pass.claims groups)
    (hg : group ∈ groups) (hne : group.claims ≠ []) (hopen : group.blocked = false) (removal : Removal)
    (hr : removal ∈ removals s.log) (hu : removal.uncertain env = true) (hrec : removal.Recorded env) :
    removal.Apart ⟨group.key, s.claims, s.calls⟩ := by
  obtain ⟨guard, hguard, hkey, hblocks⟩ := hs.guarded removal hr hu hrec
  -- a claim on this group's key that guards would be a member of the group
  have hother : removal.key ≠ group.key := by
    intro he
    have hp : guard.phase ≠ .ended := by
      obtain ⟨reason, hphase, -⟩ := hblocks
      rw [hphase]
      simp
    have hmember := hs.member hf hg hne hguard (hkey.trans he) hp
    exact hs.safe guard hguard hblocks ⟨group, List.mem_cons_self, hopen, hmember⟩
  intro claim hc other ho hid
  obtain ⟨hcmem, hctest⟩ := List.mem_filter.mp hc
  obtain ⟨homem, hotest⟩ := List.mem_filter.mp ho
  simp only [Bool.and_eq_true, decide_eq_true_eq] at hctest hotest
  have hsame := hs.agree removal hr claim hcmem other homem hid
  exact hother (hctest.1.symm.trans (hsame.trans hotest.1))

/-- What a pass leaves behind when it stops. -/
abbrev SettledState (env : Environment) (s : X11State) : Prop := Settled env s.claims s.log

theorem Filed.backs (hf : Filed pass pass.claims groups) (hg : group ∈ groups) {member : ReconcileClaim}
    (hm : member ∈ group.claims) : pass.Backs group.key member :=
  hf.origin group hg member hm

/-- Members of different groups have different ids. -/
theorem Filed.not_writable (hd : (pass.claims.map (·.claimId)).Nodup) (hf : Filed pass pass.claims groups)
    (hg : group ∈ groups) (hsub : rest ⊆ groups) (hrest : group.key ∉ rest.map (·.key)) {member : ReconcileClaim}
    (hm : member ∈ group.claims) : ¬ Writable rest member.claimId := by
  rintro ⟨other, ho, -, hid⟩
  obtain ⟨claim, hc, -, hcid, hkey⟩ := hf.origin group hg member hm
  have hother := hf.key_eq hd (hsub ho) hc (hcid ▸ hid)
  exact hrest (List.mem_map.mpr ⟨other, ho, hother.symm.trans hkey⟩)

section Removing

variable (hd : (pass.claims.map (·.claimId)).Nodup) (hv : ∀ claim ∈ pass.claims, claim.validate = .ok ())
  (hf : Filed pass pass.claims groups) (hg : group ∈ groups) (hsub : rest ⊆ groups)
  (hrest : group.key ∉ rest.map (·.key)) (hopen : group.blocked = false)

include hd hf hg hopen

/-- The group is finalized: its claims end. -/
theorem finishGroup_settles (records : List ManagedX11GrantRecord) (progress : Progress)
    (hs : pass.Guards env (Writable (group :: rest)) s) :
    Ensures (fun _ => True) (finishGroup env pass group records progress)
      (fun _ => pass.Guards env (Writable rest)) (fun _ => SettledState env) s := by
  have hm : ∀ member ∈ group.claims,
      pass.Backs group.key member ∧ Writable (group :: rest) member.claimId :=
    fun member hmem => ⟨hf.backs hg hmem, group, List.mem_cons_self, hopen, List.mem_map_of_mem hmem⟩
  refine (finishGroup_guards hd hm records progress s hs).weaken (fun _ _ => trivial) ?_ fun _ _ h => h.toSettled
  rintro _ t ht
  exact ht.mono fun id ⟨other, ho, hrest'⟩ => ⟨other, List.mem_cons_of_mem _ ho, hrest'⟩

include hv hsub hrest

theorem concludeRemoval_settles (hstart : pass.serverPeerStartTime = group.key.serverPeerStartTime)
    (havailable : pass.available = true) (hne : group.claims ≠ []) (records : List ManagedX11GrantRecord)
    (progress : Progress) {t : X11State} (hs : pass.Guards env (Writable (group :: rest)) s)
    (hclaims : t.claims = s.claims) (hcalls : t.calls = s.calls + 4)
    (hlog : t.log = s.log ++ [.removed group.key pass.currentBootId s.claims, .sent s.calls]) :
    Ensures (fun _ => True) (concludeRemoval env pass group records progress (env.changeHosts s.calls)
        (env.readAcl (s.calls + 1)) (env.requireCurrentSocket (s.calls + 2))
        (confirmServer pass.serverPeerStartTime "X11 server process changed while revoking a stopped machine"
          (env.peerStartTime (s.calls + 3))))
      (fun _ => pass.Guards env (Writable rest)) (fun _ => SettledState env) t := by
  have hapart := hs.apart hf hg hne hopen
  have hcovered : ∀ stored ∈ s.claims, ∃ claim ∈ pass.claims, claim.claimId = stored.claimId ∧
      claim.key = stored.key := by
    intro stored hst
    obtain ⟨claim, hc, hid, hkey, -⟩ := hs.covered stored hst
    exact ⟨claim, hc, hid, hkey⟩
  unfold concludeRemoval
  split
  · rename_i hchange hsocket hserver
    have hcertain : Removal.uncertain env ⟨group.key, s.claims, s.calls⟩ = false := by
      simp only [Removal.uncertain, Removal.serverResult, ← hstart, hchange, hsocket, hserver, isOk]
      rfl
    have hnow : pass.Guards env (Writable (group :: rest)) t := by
      unfold Pass.Guards
      rw [hclaims, hlog]
      refine hs.removed hd hcovered hapart fun hu _ => ?_
      rw [hcertain] at hu
      cases hu
    have hlater : pass.Guards env (Writable rest) t :=
      hnow.mono fun id ⟨other, ho, hrest'⟩ => ⟨other, List.mem_cons_of_mem _ ho, hrest'⟩
    cases env.readAcl (s.calls + 1) with
    | error error => exact ensures_fail hnow.toSettled
    | ok acl =>
      rw [ofExcept_ok_bind]
      split
      · exact ensures_pure hlater
      · exact finishGroup_settles hd hf hg hopen records _ hnow
  · have hmembers : ∀ member ∈ group.claims, pass.Backs group.key member ∧ ¬ Writable rest member.claimId :=
      fun member hm => ⟨hf.backs hg hm, hf.not_writable hd hg hsub hrest hm⟩
    have hremaining : Guard env pass (Remaining group.claims (Writable rest)) t.claims s.log := by
      rw [hclaims]
      refine hs.mono fun id hid => ?_
      rcases hid with hid | ⟨other, ho, hrest'⟩
      · exact ⟨group, List.mem_cons_self, hopen, hid⟩
      · exact ⟨other, List.mem_cons_of_mem _ ho, hrest'⟩
    refine ensures_bind ((markUncertain_guards hd hv group.claims t (hf.ids group hg) hmembers hremaining
      hlog).mono (fun _ _ h => h) fun _ _ h => h.elim) ?_
    rintro _ u ⟨hu, hulog, hguard⟩
    refine ensures_pure ?_
    unfold Pass.Guards
    rw [hulog]
    refine hu.removed hd hcovered hapart fun _ hrec => ?_
    have hreason : Removal.reason env ⟨group.key, s.claims, s.calls⟩ =
        joinFailures [failureOf id (env.changeHosts s.calls),
          failureOf (s!"ACL confirmation: {·}") (env.readAcl (s.calls + 1)),
          failureOf id (env.requireCurrentSocket (s.calls + 2)),
          failureOf (s!"server generation: {·}") (confirmServer pass.serverPeerStartTime
            "X11 server process changed while revoking a stopped machine" (env.peerStartTime (s.calls + 3)))] := by
      rw [hstart]
      rfl
    obtain ⟨i, hi, hwrite⟩ := hrec.written
    rw [← hreason] at hguard
    refine hguard havailable hrec.valid hrec.guards (.inr ⟨i, ?_, ?_⟩)
    · exact lt_of_lt_of_le hi (hs.group_length hf hg hne)
    · rw [hcalls]
      exact hwrite

theorem revokeGroup_settles (hstart : pass.serverPeerStartTime = group.key.serverPeerStartTime)
    (havailable : pass.available = true) (hne : group.claims ≠ []) (records : List ManagedX11GrantRecord)
    (progress : Progress) (hs : pass.Guards env (Writable (group :: rest)) s) :
    Ensures (fun _ => True) (revokeGroup env pass group records progress)
      (fun _ => pass.Guards env (Writable rest)) (fun _ => SettledState env) s := by
  unfold revokeGroup
  split
  · let sent : X11State := { s with
      log := s.log ++ [.removed group.key pass.currentBootId s.claims, .sent s.calls] }
    have hremoved : Ensures (fun _ => True) (removeAndObserve env pass group.key)
        (fun answers t => answers = (env.changeHosts s.calls, env.readAcl (s.calls + 1)) ∧ t = sent.asked.asked)
        (fun _ => SettledState env) s := by
      refine ensures_bind (ensures_update (R := fun _ t => t = sent) trivial rfl) ?_
      rintro _ t rfl
      refine ensures_bind (ensures_ask trivial) ?_
      rintro change t ⟨rfl, rfl⟩
      refine ensures_bind (ensures_ask trivial) ?_
      rintro observed t ⟨rfl, rfl⟩
      exact ensures_pure ⟨rfl, rfl⟩
    refine ensures_bind hremoved ?_
    rintro answers t ⟨rfl, rfl⟩
    refine ensures_bind (ensures_ask trivial) ?_
    rintro socketResult t ⟨rfl, rfl⟩
    refine ensures_bind (ensures_ask trivial) ?_
    rintro current t ⟨rfl, rfl⟩
    exact concludeRemoval_settles hd hv hf hg hsub hrest hopen hstart havailable hne records progress
      (t := sent.asked.asked.asked.asked) hs rfl rfl rfl
  · exact finishGroup_settles hd hf hg hopen records progress hs

theorem reconcileGroup_settles (havailable : pass.available = true) (progress : Progress)
    (hs : pass.Guards env (Writable (group :: rest)) s) :
    Ensures (fun _ => True) (reconcileGroup env pass group progress)
      (fun _ => pass.Guards env (Writable rest)) (fun _ => SettledState env) s := by
  have hlater : ∀ t, pass.Guards env (Writable (group :: rest)) t → pass.Guards env (Writable rest) t :=
    fun t ht => ht.mono fun id ⟨other, ho, hrest'⟩ => ⟨other, List.mem_cons_of_mem _ ho, hrest'⟩
  unfold reconcileGroup
  dsimp only
  split
  · exact ensures_pure (hlater s hs)
  · rename_i hnot
    simp only [Bool.or_eq_true, not_or, Bool.not_eq_true', Bool.not_eq_false] at hnot
    have hne : group.claims ≠ [] := by
      have hready := hnot.2
      simp only [ReconcileGroup.ready, Bool.and_eq_true, Bool.not_eq_true'] at hready
      simpa using hready.1
    have hstart : pass.serverPeerStartTime = group.key.serverPeerStartTime := by
      obtain ⟨member, hm⟩ := List.exists_mem_of_ne_nil _ hne
      obtain ⟨claim, -, hcon, -, hkey⟩ := hf.origin group hg member hm
      simp only [Pass.concerns, claimKeyMatchesSocket, Bool.and_eq_true, decide_eq_true_eq] at hcon
      rw [← hkey]
      exact hcon.2.2.symm
    split
    · exact ensures_pure (hlater s hs)
    · have hm : ∀ member ∈ group.claims,
          pass.Backs group.key member ∧ Writable (group :: rest) member.claimId :=
        fun member hmem => ⟨hf.backs hg hmem, group, List.mem_cons_self, hopen, List.mem_map_of_mem hmem⟩
      refine ensures_bind ((recheckMembers_guards hd group.claims hm true _ s hs).weaken
        (fun _ _ => trivial) (fun _ _ h => h) fun _ _ h => h.toSettled) ?_
      rintro ⟨stillReady, progress'⟩ t ht
      dsimp only
      split
      · exact revokeGroup_settles hd hv hf hg hsub hrest hopen hstart havailable hne _ progress' ht
      · exact ensures_pure (hlater t ht)

end Removing

theorem reconcileGroups_settles (hd : (pass.claims.map (·.claimId)).Nodup)
    (hv : ∀ claim ∈ pass.claims, claim.validate = .ok ()) (hf : Filed pass pass.claims groups)
    (havailable : pass.available = true) (rest : List ReconcileGroup) (hsub : rest ⊆ groups)
    (hn : (rest.map (·.key)).Nodup) (progress : Progress) (hs : pass.Guards env (Writable rest) s) :
    Ensures (fun _ => True) (reconcileGroups env pass rest progress)
      (fun _ => SettledState env) (fun _ => SettledState env) s := by
  induction rest generalizing progress s with
  | nil => exact ensures_pure hs.toSettled
  | cons group rest ih =>
    obtain ⟨hfresh, hn'⟩ := List.nodup_cons.mp hn
    have hg : group ∈ groups := hsub List.mem_cons_self
    have hrest : rest ⊆ groups := fun other ho => hsub (List.mem_cons_of_mem _ ho)
    have hone : Ensures (fun _ => True) (reconcileGroup env pass group progress)
        (fun _ => pass.Guards env (Writable rest)) (fun _ => SettledState env) s := by
      cases hblocked : group.blocked with
      | false => exact reconcileGroup_settles hd hv hf hg hrest hfresh hblocked havailable progress hs
      | true =>
        unfold reconcileGroup
        rw [hblocked]
        exact ensures_pure (hs.mono fun id ⟨other, ho, hrest'⟩ => ⟨other, List.mem_cons_of_mem _ ho, hrest'⟩)
    refine ensures_bind hone ?_
    intro progress' t ht
    exact ih hrest hn' progress' ht

end Groups

section Passes

variable {env : Environment} {s : X11State}

theorem reconcileEnabled_settles (pass : Pass) (acl : X11AclSnapshot) (hs : SettledState env s)
    (hl : pass.claims = [] ∨ (pass.available = true ∧ pass.claims = Directory.list (·.claimId) s.claims)) :
    Ensures (fun _ => True) (reconcileEnabled env pass acl) (fun _ => SettledState env)
      (fun _ => SettledState env) s := by
  rcases hl with hl | ⟨havailable, hl⟩
  · unfold reconcileEnabled
    rw [hl]
    exact ensures_pure hs
  · have hmem : ∀ claim, claim ∈ pass.claims ↔ claim ∈ s.claims := by
      intro claim
      rw [hl]
      exact Directory.mem_list
    have hd : (pass.claims.map (·.claimId)).Nodup := by rw [hl]; exact Directory.nodup_list hs.distinct
    have hv : ∀ claim ∈ pass.claims, claim.validate = .ok () :=
      fun claim hc => hs.valid claim ((hmem claim).mp hc)
    have hstart : pass.Guards env pass.Open s :=
      { hs with
        covered := fun stored hst => ⟨stored, (hmem stored).mpr hst, rfl, rfl, id⟩
        there := fun claim hc => ⟨claim, (hmem claim).mp hc, rfl, rfl⟩
        safe := by
          rintro claim hc hg ⟨other, ho, hid, hnot⟩
          exact hnot (Directory.eq_of_name_eq hs.distinct ((hmem other).mp ho) hc hid ▸ hg) }
    refine ensures_bind ((observeClaims_guards hd pass.claims [] [] s rfl .nil
      (fun _ hg => absurd hg List.not_mem_nil) hstart).weaken (fun _ _ => trivial) (fun _ _ h => h)
      fun _ _ h => h.toSettled) ?_
    rintro groups t ⟨ht, hf, hb⟩
    have hwritable : pass.Guards env (Writable groups) t := by
      refine ht.mono ?_
      rintro id ⟨group, hg, hopen, hid⟩
      obtain ⟨member, hm, rfl⟩ := List.mem_map.mp hid
      rcases hb group hg member hm with hw | ⟨reason, hr⟩
      · exact hw
      · have hblocked : group.blocked = true := by
          refine List.any_eq_true.mpr ⟨member, hm, ?_⟩
          rw [hr]
        rw [hblocked] at hopen
        cases hopen
    refine ensures_bind (reconcileGroups_settles hd hv hf havailable groups (List.Subset.refl _) hf.keys _
      hwritable) ?_
    intro progress u hu
    exact ensures_pure hu

theorem reconcileLoaded_settles (socket : HostX11Socket) (available : Bool)
    (records : List ManagedX11GrantRecord) (hs : SettledState env s) :
    Ensures (fun _ => True) (reconcileLoaded env socket available (s.listedClaims available) records)
      (fun _ => SettledState env) (fun _ => SettledState env) s := by
  have hask : ∀ {α : Type} (answer : ℕ → Except String α) (t : X11State), t.claims = s.claims ∧ t.log = s.log →
      Ensures (fun _ => True) (askResult answer) (fun _ u => u.claims = s.claims ∧ u.log = s.log)
        (fun _ => SettledState env) t := by
    intro α answer t ht
    have hsettled : SettledState env t.asked := by
      unfold SettledState X11State.asked
      rw [ht.1, ht.2]
      exact hs
    exact (ensures_askResult trivial fun _ => hsettled).post fun _ u hu => hu.2 ▸ ht
  refine ensures_bind (hask _ s ⟨rfl, rfl⟩) fun _ t ht => ensures_bind (hask _ t ht) fun start t ht => ?_
  refine ensures_bind (hask _ t ht) fun bootId t ht => ensures_bind (hask _ t ht) fun now t ht => ?_
  refine ensures_bind (hask _ t ht) fun acl t ht => ensures_bind (hask _ t ht) fun _ t ht => ?_
  have hsettled : SettledState env t := by
    unfold SettledState
    rw [ht.1, ht.2]
    exact hs
  split
  · refine reconcileEnabled_settles _ _ hsettled ?_
    cases available with
    | false => exact .inl rfl
    | true =>
      refine .inr ⟨rfl, ?_⟩
      rw [ht.1]
      rfl
  · exact ensures_fail hsettled

theorem reconcileSync_settles (socket : HostX11Socket) (hs : SettledState env s) :
    Ensures (fun _ => True) (reconcileSync env socket) (fun _ => SettledState env)
      (fun _ => SettledState env) s := by
  refine ensures_bind (ensures_askResult trivial fun _ => hs) ?_
  rintro opened t ⟨_, rfl⟩
  cases opened with
  | none => exact ensures_pure hs
  | some available =>
    refine ensures_bind (ensures_askResult trivial fun _ => hs) ?_
    rintro _ t ⟨_, rfl⟩
    refine ensures_bind (loadClaims_spec available trivial) ?_
    rintro catalog t ⟨rfl, hcatalog⟩
    refine ensures_bind (require_spec hcatalog fun _ => hs) ?_
    rintro claims t ⟨rfl, rfl⟩
    refine ensures_bind (loadRecords_spec trivial) ?_
    rintro recordCatalog t ⟨rfl, hrecords⟩
    refine ensures_bind (require_spec hrecords fun _ => hs) ?_
    rintro records t ⟨rfl, rfl⟩
    split
    · exact reconcileLoaded_settles (s := s.asked.asked.asked.asked) socket available _ hs
    · exact ensures_pure hs

/-- A pass that runs to its end, successful or not. -/
def PassStep (env : Environment) (s : X11State) (socket : HostX11Socket) (t : X11State) : Prop :=
  t = (reconcileSync env socket s).state

/-- A store that has seen no pass yet and whose claims its reader accepts. -/
structure X11State.Unremoved (s : X11State) : Prop where
  distinct : (s.claims.map (·.claimId)).Nodup
  valid : ∀ claim ∈ s.claims, claim.validate = .ok ()
  unlogged : s.log = []

theorem X11State.Unremoved.settled (h : s.Unremoved) : SettledState env s where
  distinct := h.distinct
  valid := h.valid
  agree := by
    rw [h.unlogged]
    exact fun _ hr => absurd hr List.not_mem_nil
  guarded := by
    rw [h.unlogged]
    exact fun _ hr => absurd hr List.not_mem_nil
  once := by
    rw [h.unlogged]
    exact List.Pairwise.nil

theorem PassStep.settled {socket : HostX11Socket} {t : X11State} (hs : SettledState env s)
    (h : PassStep env s socket t) : SettledState env t := by
  have hpass := reconcileSync_settles socket hs
  rw [h]
  cases hr : (reconcileSync env socket s).result with
  | ok report => exact hpass.returned report hr
  | error error => exact hpass.failed error hr

/-- Over every run of passes: after an uncertain removal whose outcome was
recorded with at least one claim, no later removal concerns a claim of that group. -/
theorem uncertain_removal_not_retried (env : Environment) (s t : X11State) (passes : List HostX11Socket)
    (hs : s.Unremoved) (h : Run (PassStep env) s passes t) :
    (removals t.log).Pairwise fun removal later =>
      removal.uncertain env = true → removal.Recorded env → removal.Apart later := by
  have ht : SettledState env t := h.invariant hs.settled fun _ _ _ hu hstep => hstep.settled hu
  exact ht.once

section RefusingServer

/-- The machine is gone, the entry is still there, and removals fail. -/
def refusingServer (write : WriteOutcome) : Environment :=
  { twoEndpoints with
    write := fun _ => write
    unixMillis := fun _ => .ok 9000
    readAcl := fun _ => .ok ⟨.enabled, [⟨5, numericLocalUserAddress 1000⟩]⟩
    changeHosts := fun _ => .error "remove localuser:#1000: connection closed"
    systemMachineRegistration := fun _ _ => .absent }

def afterPasses (env : Environment) (n : ℕ) : X11State :=
  Nat.repeat (fun s => (reconcileSync env (endpoint false) s).state) n staleStore

private theorem staleStore_unremoved : staleStore.Unremoved := by
  refine ⟨by decide +kernel, ?_, rfl⟩
  have hall : staleStore.claims.all (fun claim => isOk claim.validate) = true := by decide +kernel
  intro claim hc
  have hok := List.all_eq_true.mp hall claim hc
  cases hv : claim.validate with
  | ok u => rfl
  | error error => rw [hv] at hok; cases hok

private theorem afterPasses_run (env : Environment) (n : ℕ) :
    Run (PassStep env) staleStore (List.replicate n (endpoint false)) (afterPasses env n) := by
  induction n with
  | zero => exact .nil
  | succ n ih =>
    rw [List.replicate_succ']
    exact .snoc ih rfl

theorem uncertain_removal_not_retried_recorded :
    (removals (afterPasses (refusingServer .written) 2).log).length = 1 ∧
      (removals (afterPasses (refusingServer .written) 2).log).Pairwise fun removal later =>
        removal.uncertain (refusingServer .written) = true → removal.Recorded (refusingServer .written) →
          removal.Apart later :=
  ⟨by decide +kernel, uncertain_removal_not_retried (refusingServer .written) staleStore _ _
    staleStore_unremoved (afterPasses_run _ 2)⟩

/-- If the claims cannot be written, the next pass sends the removal again. -/
theorem unrecorded_removal_retried :
    ¬ ∀ (env : Environment) (s t : X11State) (passes : List HostX11Socket), s.Unremoved →
      Run (PassStep env) s passes t →
      (removals t.log).Pairwise fun removal later => removal.uncertain env = true → removal.Apart later := by
  intro h
  have hpairs := h (refusingServer (.rejected "No space left on device")) staleStore _ _ staleStore_unremoved
    (afterPasses_run _ 2)
  revert hpairs
  decide +kernel

end RefusingServer

end Passes

end Lasper.X11
