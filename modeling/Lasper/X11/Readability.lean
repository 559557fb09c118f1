import Lasper.X11.Catalog
import Lasper.X11.Revocation

/-! Whether the store stays readable by its own readers. Claims are checked
before they are written, records are not: what keeps the store readable is that
the reasons recorded for uncertain outcomes are ones the reader accepts, and that
authorizations find room. -/

namespace Lasper.X11

open Lib Traced

section Invariant

variable (codec : Codec)

/-- The record is accepted in every phase that the reader accepts at all. -/
def RecordFits (record : ManagedX11GrantRecord) : Prop :=
  ∀ phase : GrantRecordPhase, phase.acceptable = true → readGrantRecord codec { record with phase } = .ok ()

def ClaimFits (claim : ManagedX11MachineClaim) : Prop :=
  ∀ phase, ManagedX11MachineClaim.validatePhase phase = .ok () →
    readMachineClaim codec { claim with phase } = .ok ()

/-- The store is readable and stays so when a phase changes. The files of the
given names are there. -/
structure Kept (recordIds claimIds : List String) (records : List ManagedX11GrantRecord)
    (claims : List ManagedX11MachineClaim) : Prop where
  records_fit : ∀ record ∈ records, record.phase.acceptable = true ∧ RecordFits codec record
  claims_fit : ∀ claim ∈ claims,
    ManagedX11MachineClaim.validatePhase claim.phase = .ok () ∧ ClaimFits codec claim
  record_count : records.length ≤ maxGrantRecords
  claim_count : claims.length ≤ maxMachineClaims
  records_there : ∀ id ∈ recordIds, id ∈ records.map (·.recordId)
  claims_there : ∀ id ∈ claimIds, id ∈ claims.map (·.claimId)

variable {codec} {recordIds claimIds : List String} {records : List ManagedX11GrantRecord}
  {claims : List ManagedX11MachineClaim}

theorem Kept.readable {s : X11State} (h : Kept codec recordIds claimIds s.records s.claims) :
    Readable codec s := by
  refine readable_iff.mpr ⟨⟨h.record_count, fun record hr => ?_⟩, h.claim_count, fun claim hc => ?_⟩
  · exact (h.records_fit record hr).2 record.phase (h.records_fit record hr).1
  · exact (h.claims_fit claim hc).2 claim.phase (h.claims_fit claim hc).1

theorem Kept.mono {recordIds' claimIds' : List String} (h : Kept codec recordIds claimIds records claims)
    (hr : ∀ id ∈ recordIds', id ∈ recordIds) (hc : ∀ id ∈ claimIds', id ∈ claimIds) :
    Kept codec recordIds' claimIds' records claims :=
  { h with
    records_there := fun id hid => h.records_there id (hr id hid)
    claims_there := fun id hid => h.claims_there id (hc id hid) }

theorem Kept.forget {id : String} (h : Kept codec (id :: recordIds) claimIds records claims) :
    Kept codec recordIds claimIds records claims :=
  h.mono (fun _ hid => List.mem_cons_of_mem _ hid) fun _ hid => hid

/-- Claims that were loaded stay in the store. -/
theorem Kept.load {loaded : List ManagedX11MachineClaim} (h : Kept codec recordIds [] records claims)
    (hl : ∀ claim ∈ loaded, claim ∈ claims) :
    Kept codec recordIds (loaded.map (·.claimId)) records claims :=
  { h with claims_there := fun _ hid => List.map_subset _ hl hid }

theorem Kept.unload (h : Kept codec recordIds claimIds records claims) :
    Kept codec recordIds [] records claims :=
  h.mono (fun _ hid => hid) fun _ hid => absurd hid List.not_mem_nil

theorem Kept.putRecord (h : Kept codec recordIds claimIds records claims) {record : ManagedX11GrantRecord}
    (hp : record.phase.acceptable = true) (hf : RecordFits codec record)
    (hroom : record.recordId ∈ records.map (·.recordId) ∨ records.length < maxGrantRecords) :
    Kept codec (record.recordId :: recordIds) claimIds (Directory.put (·.recordId) record records) claims where
  records_fit other ho := by
    rcases Directory.eq_or_mem_of_mem_put ho with rfl | ho
    · exact ⟨hp, hf⟩
    · exact h.records_fit other ho
  claims_fit := h.claims_fit
  record_count := by
    rcases hroom with hm | hlt
    · have hlen : (Directory.put (·.recordId) record records).length = records.length :=
        Directory.length_put_of_mem hm
      rw [hlen]
      exact h.record_count
    · have hlen : (Directory.put (·.recordId) record records).length ≤ records.length + 1 :=
        Directory.length_put_le
      omega
  claim_count := h.claim_count
  records_there id hid := by
    rcases List.mem_cons.mp hid with rfl | hid
    · exact List.mem_map_of_mem Directory.mem_put_self
    · exact Directory.name_mem_put_of_mem (h.records_there id hid)
  claims_there := h.claims_there

theorem Kept.putClaim (h : Kept codec recordIds claimIds records claims) {claim : ManagedX11MachineClaim}
    (hp : ManagedX11MachineClaim.validatePhase claim.phase = .ok ()) (hf : ClaimFits codec claim)
    (hroom : claim.claimId ∈ claims.map (·.claimId) ∨ claims.length < maxMachineClaims) :
    Kept codec recordIds claimIds records (Directory.put (·.claimId) claim claims) where
  records_fit := h.records_fit
  claims_fit other ho := by
    rcases Directory.eq_or_mem_of_mem_put ho with rfl | ho
    · exact ⟨hp, hf⟩
    · exact h.claims_fit other ho
  record_count := h.record_count
  claim_count := by
    rcases hroom with hm | hlt
    · have hlen : (Directory.put (·.claimId) claim claims).length = claims.length :=
        Directory.length_put_of_mem hm
      rw [hlen]
      exact h.claim_count
    · have hlen : (Directory.put (·.claimId) claim claims).length ≤ claims.length + 1 :=
        Directory.length_put_le
      omega
  records_there := h.records_there
  claims_there id hid := Directory.name_mem_put_of_mem (h.claims_there id hid)

theorem validatePhase_of_validate {claim : ManagedX11MachineClaim} (h : claim.validate = .ok ()) :
    ManagedX11MachineClaim.validatePhase claim.phase = .ok () := by
  unfold ManagedX11MachineClaim.validate at h
  split at h
  · cases h
  · cases hi : claim.machineInstance with
    | error error => rw [hi] at h; cases h
    | ok instance_ =>
      rw [hi] at h
      cases hk : claim.key.validate with
      | error error => rw [hk] at h; cases h
      | ok u => rw [hk] at h; exact h

end Invariant

section Primitives

variable {env : Environment} {codec : Codec} {recordIds claimIds : List String} {s : X11State}

theorem Kept.asked (h : Kept codec recordIds claimIds s.records s.claims) :
    Kept codec recordIds claimIds s.asked.records s.asked.claims := h

abbrev KeptState (codec : Codec) (recordIds claimIds : List String) (s : X11State) : Prop :=
  Kept codec recordIds claimIds s.records s.claims

/-- Questions do not touch the store. -/
theorem ask_kept {α : Type} (answer : ℕ → α) : Preserves (KeptState codec recordIds claimIds) (ask answer) :=
  fun _ hs => (ensures_ask hs.asked).post fun _ _ ht => ht.2 ▸ hs

theorem askResult_kept {α : Type} (answer : ℕ → Except String α) :
    Preserves (KeptState codec recordIds claimIds) (askResult answer) :=
  preserves_bind (ask_kept answer) fun _ => preserves_ofExcept

/-- A record that is written fits, and goes over an old one or into free room. -/
theorem writeRecord_kept (record : ManagedX11GrantRecord) (hs : KeptState codec recordIds claimIds s)
    (hf : (env.write s.calls).replaced = true → record.phase.acceptable = true ∧ RecordFits codec record ∧
      (record.recordId ∈ s.records.map (·.recordId) ∨ s.records.length < maxGrantRecords)) :
    Ensures (KeptState codec recordIds claimIds) (writeRecord env record)
      (fun _ t => KeptState codec (record.recordId :: recordIds) claimIds t ∧ env.write s.calls = .written ∧
        t.calls = s.calls + 1 ∧ t.claims = s.claims)
      (fun _ => KeptState codec recordIds claimIds) s := by
  have hput : (env.write s.calls).replaced = true →
      Kept codec (record.recordId :: recordIds) claimIds (Directory.put (·.recordId) record s.records) s.claims := by
    intro hreplaced
    obtain ⟨hp, hfits, hroom⟩ := hf hreplaced
    exact hs.putRecord hp hfits hroom
  refine ensures_bind (ensures_ask hs.asked) ?_
  rintro outcome t ⟨rfl, rfl⟩
  refine ensures_bind (ensures_update (R := fun _ t => KeptState codec recordIds claimIds t ∧
    ((env.write s.calls).replaced = true → KeptState codec (record.recordId :: recordIds) claimIds t ∧
      t.calls = s.calls + 1 ∧ t.claims = s.claims)) ?_ ⟨?_, ?_⟩) ?_
  · unfold KeptState
    dsimp only
    split
    · exact (hput ‹_›).forget
    · exact hs
  · unfold KeptState
    dsimp only
    split
    · exact (hput ‹_›).forget
    · exact hs
  · intro hreplaced
    unfold KeptState
    dsimp only
    rw [if_pos hreplaced]
    exact ⟨hput hreplaced, rfl, rfl⟩
  · rintro _ t ⟨hkept, hwritten⟩
    refine ensures_ofExcept (fun _ hok => ?_) fun _ _ => hkept
    cases hw : env.write s.calls with
    | written =>
      obtain ⟨hstored, hcalls, hclaims⟩ := hwritten (by rw [hw]; rfl)
      exact ⟨hstored, rfl, hcalls, hclaims⟩
    | unsynced error => rw [hw] at hok; cases hok
    | rejected error => rw [hw] at hok; cases hok

/-- A claim that fits in its other phases is written only in a valid one. -/
theorem writeClaim_kept {available : Bool} (claim : ManagedX11MachineClaim) {note : Bool → List Event}
    (hs : KeptState codec recordIds claimIds s)
    (hf : (env.write s.calls).replaced = true → ClaimFits codec claim ∧
      (claim.claimId ∈ s.claims.map (·.claimId) ∨ s.claims.length < maxMachineClaims)) :
    Ensures (KeptState codec recordIds claimIds) (writeClaim env available claim note)
      (fun result t => KeptState codec recordIds claimIds t ∧ t.calls = s.calls + 1 ∧
        result = (claimWrite available claim (env.write s.calls)).1)
      (fun _ => KeptState codec recordIds claimIds) s := by
  refine ensures_bind (ensures_ask hs.asked) ?_
  rintro outcome t ⟨rfl, rfl⟩
  refine ensures_bind (ensures_update
    (R := fun _ t => KeptState codec recordIds claimIds t ∧ t.calls = s.calls + 1) ?_ ⟨?_, rfl⟩) fun _ t ht =>
      ensures_pure ⟨ht.1, ht.2, rfl⟩
  all_goals
    unfold KeptState
    dsimp only
    split
    · rename_i hwrite
      unfold claimWrite at hwrite
      split at hwrite
      · cases hwrite
      · cases hv : claim.validate with
        | error error => rw [hv] at hwrite; cases hwrite
        | ok u =>
          rw [hv] at hwrite
          obtain ⟨hfits, hroom⟩ := hf hwrite
          exact hs.putClaim (validatePhase_of_validate hv) hfits hroom
    · exact hs

theorem markRecordPhaseSync_kept (recordId : String) {phase : GrantRecordPhase}
    (hp : phase.acceptable = true) :
    Preserves (KeptState codec recordIds claimIds) (markRecordPhaseSync env recordId phase) := by
  intro s hs
  refine ensures_bind (askResult_kept _ s hs) fun _ t ht => ?_
  refine ensures_bind (ensures_read (Q := fun found u => found = t.records.find? (·.recordId = recordId) ∧ u = t)
    ⟨rfl, rfl⟩) ?_
  rintro found u ⟨hfound, rfl⟩
  cases found with
  | none => exact ensures_fail ht
  | some record =>
    have hmem : record ∈ u.records := List.mem_of_find?_eq_some hfound.symm
    have hfits := (ht.records_fit record hmem).2
    have hin : record.recordId ∈ u.records.map (·.recordId) := List.mem_map_of_mem hmem
    exact (writeRecord_kept { record with phase } ht fun _ => ⟨hp, hfits, .inl hin⟩).post fun _ _ hv => hv.1.forget

end Primitives

section Reconcile

variable {env : Environment} {codec : Codec} {recordIds : List String} (pass : Pass)

/-- The store is kept while a pass works with the claims it loaded. -/
def Pass.Keeps (codec : Codec) : X11State → Prop :=
  KeptState codec [] (pass.claims.map (·.claimId))

variable {pass}

/-- A claim from the catalog is one of those loaded. -/
theorem catalogClaim_keeps {α : Type} (member : ReconcileClaim) {next : ManagedX11MachineClaim → Desktop α}
    (hnext : ∀ claim ∈ pass.claims, Preserves (pass.Keeps codec) (next claim)) :
    Preserves (pass.Keeps codec) (ofExcept (pass.catalogClaim member) >>= next) := by
  unfold Pass.catalogClaim
  split
  · rename_i claim hfound
    exact hnext claim (List.mem_of_find?_eq_some hfound)
  · exact preserves_fail

variable (hfit : ∀ claim ∈ pass.claims, ClaimFits codec claim)

include hfit

theorem writeClaim_keeps {claim : ManagedX11MachineClaim} (hc : claim ∈ pass.claims) (phase : MachineClaimPhase)
    (note : Bool → List Event) :
    Preserves (pass.Keeps codec) (writeClaim env pass.available { claim with phase } note) := by
  intro s hs
  have hin : claim.claimId ∈ s.claims.map (·.claimId) := hs.claims_there _ (List.mem_map_of_mem hc)
  exact (writeClaim_kept { claim with phase } hs fun _ => ⟨hfit claim hc, .inl hin⟩).post fun _ _ h => h.1

theorem reconcileClaim_keeps {claim : ManagedX11MachineClaim} (hc : claim ∈ pass.claims) (bootId : String)
    (registration : SystemMachineRegistration) (now : ℕ) :
    Preserves (pass.Keeps codec) (reconcileClaim env pass.available claim bootId registration now) := by
  unfold reconcileClaim
  split
  · exact preserves_pure
  · refine preserves_bind ?_ fun result => ?_
    · unfold storeTransition
      split
      · exact preserves_bind (preserves_update fun _ hs => hs) fun _ => preserves_pure
      · exact writeClaim_keeps hfit hc _ _
    · split
      · exact preserves_pure
      · exact preserves_pure

theorem observeClaims_keeps (claims : List ManagedX11MachineClaim) (hsub : ∀ claim ∈ claims, claim ∈ pass.claims)
    (groups : List ReconcileGroup) : Preserves (pass.Keeps codec) (observeClaims env pass claims groups) := by
  induction claims generalizing groups with
  | nil => exact preserves_pure
  | cons claim claims ih =>
    have hrest := ih fun other ho => hsub other (List.mem_cons_of_mem _ ho)
    unfold observeClaims
    split
    · refine preserves_bind (ask_kept _) fun registration => ?_
      exact preserves_bind (reconcileClaim_keeps hfit (hsub claim List.mem_cons_self) _ _ _) fun status =>
        hrest _
    · exact hrest _

theorem recheckMembers_keeps (members : List ReconcileClaim) (stillReady : Bool) (progress : Progress) :
    Preserves (pass.Keeps codec) (recheckMembers env pass members stillReady progress) := by
  induction members generalizing stillReady progress with
  | nil => exact preserves_pure
  | cons member members ih =>
    refine preserves_bind ?_ fun status => ih _ _
    refine catalogClaim_keeps member fun claim hc => ?_
    refine preserves_bind (ask_kept _) fun registration => preserves_bind (askResult_kept _) fun now => ?_
    exact reconcileClaim_keeps hfit hc _ _ _

theorem markMember_keeps (phase : MachineClaimPhase) (member : ReconcileClaim) :
    Preserves (pass.Keeps codec) (markMember env pass phase member) :=
  catalogClaim_keeps member fun _ hc => writeClaim_keeps hfit hc phase _

theorem finishGroup_keeps (group : ReconcileGroup) (records : List ManagedX11GrantRecord) (progress : Progress) :
    Preserves (pass.Keeps codec) (finishGroup env pass group records progress) := by
  refine preserves_bind (preserves_forEach fun record => markRecordPhaseSync_kept _ rfl) fun _ => ?_
  refine preserves_bind (preserves_forEach fun member => ?_) fun _ => preserves_pure
  exact preserves_bind (markMember_keeps hfit _ _) fun _ => preserves_ofExcept

theorem revokeGroup_keeps (group : ReconcileGroup) (records : List ManagedX11GrantRecord) (progress : Progress) :
    Preserves (pass.Keeps codec) (revokeGroup env pass group records progress) := by
  unfold revokeGroup
  split
  · refine preserves_bind ?_ fun outcome => ?_
    · refine preserves_bind (preserves_update fun _ hs => hs) fun _ => ?_
      exact preserves_bind (ask_kept _) fun _ => preserves_bind (ask_kept _) fun _ => preserves_pure
    · refine preserves_bind (ask_kept _) fun _ => preserves_bind (ask_kept _) fun _ => ?_
      unfold concludeRemoval
      split
      · refine preserves_bind preserves_ofExcept fun acl => ?_
        split
        · exact preserves_pure
        · exact finishGroup_keeps hfit _ _ _
      · refine preserves_bind (preserves_forEach fun member => ?_) fun _ => preserves_pure
        exact preserves_bind (markMember_keeps hfit _ _) fun _ => preserves_pure
  · exact finishGroup_keeps hfit _ _ _

theorem reconcileGroups_keeps (groups : List ReconcileGroup) (progress : Progress) :
    Preserves (pass.Keeps codec) (reconcileGroups env pass groups progress) := by
  induction groups generalizing progress with
  | nil => exact preserves_pure
  | cons group groups ih =>
    refine preserves_bind ?_ ih
    unfold reconcileGroup
    dsimp only
    split
    · exact preserves_pure
    · split
      · exact preserves_pure
      · refine preserves_bind (recheckMembers_keeps hfit _ _ _) fun result => ?_
        dsimp only
        split
        · exact revokeGroup_keeps hfit _ _ _
        · exact preserves_pure

theorem reconcileEnabled_keeps (acl : X11AclSnapshot) :
    Preserves (pass.Keeps codec) (reconcileEnabled env pass acl) :=
  preserves_bind (observeClaims_keeps hfit pass.claims (fun _ hc => hc) []) fun groups =>
    preserves_bind (reconcileGroups_keeps hfit groups _) fun _ => preserves_pure

end Reconcile

section Loading

variable {env : Environment} {codec : Codec} {recordIds : List String} {s : X11State}

theorem catalogOf_answer {α : Type} {name : α → String} {limit : ℕ} {exceeded : ℕ → String}
    {answer : Except String Unit} {files : List α}
    (h : (catalogOf name limit exceeded answer files).complete = true) : answer = .ok () := by
  cases answer with
  | ok _ => rfl
  | error error => cases h

variable {β : Type} {Q : β → X11State → Prop} {I : X11State → Prop} {E : String → X11State → Prop}
  {describe : String → String} {missing : String}

/-- A catalog of records that is used has been read, and is complete. -/
theorem ensures_loadRecords {next : List ManagedX11GrantRecord → Desktop β} (hI : I s.asked) (hE : ∀ e, E e s.asked)
    (hnext : env.readRecords s.calls = .ok () → Ensures I (next s.listedRecords) Q E s.asked) :
    Ensures I (loadRecords env >>= fun catalog => ofExcept (catalog.require describe missing) >>= next) Q E s := by
  refine ensures_bind (ensures_bind (ensures_ask hI) ?_) (Q := fun catalog t => t = s.asked ∧
    (catalog.complete = true → env.readRecords s.calls = .ok () ∧ catalog.entries = s.listedRecords)) ?_
  · rintro answer t ⟨rfl, rfl⟩
    exact ensures_read ⟨rfl, fun hcomplete => ⟨catalogOf_answer hcomplete, catalogOf_entries hcomplete⟩⟩
  · rintro catalog t ⟨rfl, hcatalog⟩
    refine ensures_bind (Q := fun records t => t = s.asked ∧ env.readRecords s.calls = .ok () ∧
      records = s.listedRecords) (ensures_ofExcept (fun records hrecords => ?_) fun e _ => hE e) ?_
    · obtain ⟨hcomplete, rfl⟩ := require_complete hrecords
      exact ⟨rfl, hcatalog hcomplete⟩
    · rintro records t ⟨rfl, hanswer, rfl⟩
      exact hnext hanswer

/-- A catalog of claims that is used has been read, unless there is none. -/
theorem ensures_loadClaims {available : Bool} {next : List ManagedX11MachineClaim → Desktop β} (hI : I s.asked)
    (hE : ∀ e, E e s.asked)
    (hnext : (available = true → env.readClaims s.calls = .ok ()) →
      Ensures I (next (s.listedClaims available)) Q E s.asked) :
    Ensures I (loadClaims env available >>= fun catalog => ofExcept (catalog.require describe missing) >>= next)
      Q E s := by
  refine ensures_bind (ensures_bind (ensures_ask hI) ?_) (Q := fun catalog t => t = s.asked ∧
    (catalog.complete = true → (available = true → env.readClaims s.calls = .ok ()) ∧
      catalog.entries = s.listedClaims available)) ?_
  · rintro answer t ⟨rfl, rfl⟩
    refine ensures_read ⟨rfl, fun hcomplete => ?_⟩
    cases available with
    | false => exact ⟨fun h => absurd h (by simp), rfl⟩
    | true =>
      simp only [if_true] at hcomplete ⊢
      exact ⟨fun _ => catalogOf_answer hcomplete, catalogOf_entries hcomplete⟩
  · rintro catalog t ⟨rfl, hcatalog⟩
    refine ensures_bind (Q := fun claims t => t = s.asked ∧ (available = true → env.readClaims s.calls = .ok ()) ∧
      claims = s.listedClaims available) (ensures_ofExcept (fun claims hclaims => ?_) fun e _ => hE e) ?_
    · obtain ⟨hcomplete, rfl⟩ := require_complete hclaims
      exact ⟨rfl, hcatalog hcomplete⟩
    · rintro claims t ⟨rfl, hanswer, rfl⟩
      exact hnext hanswer

theorem reconcileLoaded_kept (socket : HostX11Socket) (available : Bool)
    (claims : List ManagedX11MachineClaim) (records : List ManagedX11GrantRecord)
    (hs : KeptState codec [] [] s) (hc : ∀ claim ∈ claims, claim ∈ s.claims) :
    Ensures (KeptState codec [] []) (reconcileLoaded env socket available claims records)
      (fun _ => KeptState codec [] []) (fun _ => KeptState codec [] []) s := by
  have hfit : ∀ claim ∈ claims, ClaimFits codec claim := fun claim h => (hs.claims_fit claim (hc claim h)).2
  have hall : Preserves (KeptState codec [] (claims.map (·.claimId)))
      (reconcileLoaded env socket available claims records) := by
    refine preserves_bind (askResult_kept _) fun _ => preserves_bind (askResult_kept _) fun start => ?_
    refine preserves_bind (askResult_kept _) fun bootId => preserves_bind (askResult_kept _) fun now => ?_
    refine preserves_bind (askResult_kept _) fun acl => preserves_bind (askResult_kept _) fun _ => ?_
    split
    · change Preserves (Pass.Keeps ⟨socket, available, claims, records, start, bootId, now⟩ codec) _
      exact reconcileEnabled_keeps hfit _
    · exact preserves_fail
  exact (hall s (hs.load hc)).weaken (fun _ h => h.unload) (fun _ _ h => h.unload) fun _ _ h => h.unload

theorem reconcileSync_kept (socket : HostX11Socket) :
    Preserves (KeptState codec [] []) (reconcileSync env socket) := by
  refine preserves_bind (askResult_kept _) fun opened => ?_
  split
  · exact preserves_pure
  · rename_i available
    refine preserves_bind (askResult_kept _) fun _ s hs => ?_
    refine ensures_bind (loadClaims_spec available hs) ?_
    rintro catalog t ⟨rfl, hcatalog⟩
    refine ensures_bind (require_spec hcatalog fun _ => hs) ?_
    rintro claims t ⟨rfl, rfl⟩
    refine ensures_bind (loadRecords_spec hs) ?_
    rintro recordCatalog t ⟨rfl, _⟩
    refine ensures_bind (Q := fun _ t => t = s.asked.asked)
      (ensures_ofExcept (fun _ _ => rfl) fun _ _ => hs) ?_
    rintro records t rfl
    split
    · exact reconcileLoaded_kept socket available _ records hs fun _ hc => X11State.mem_of_listedClaims hc
    · exact ensures_pure hs

end Loading

section Revoke

variable {env : Environment} {codec : Codec} {recordIds : List String} {s : X11State}

theorem endClaims_kept (available : Bool) (recordId : String) :
    Preserves (KeptState codec recordIds []) (endClaims env available recordId) := by
  intro s hs
  refine ensures_bind (loadClaims_spec available hs) ?_
  rintro catalog t ⟨rfl, hcatalog⟩
  refine ensures_bind (require_spec hcatalog fun _ => hs) ?_
  rintro claims t ⟨rfl, hlisted⟩
  have hclaims : ∀ claim ∈ claims, claim ∈ s.claims :=
    fun claim hc => X11State.mem_of_listedClaims (hlisted ▸ hc)
  have hfit : ∀ claim ∈ claims, ClaimFits codec claim :=
    fun claim h => (hs.claims_fit claim (hclaims claim h)).2
  have hloop : Ensures (KeptState codec recordIds (claims.map (·.claimId)))
      (forEach (endClaim env available recordId) claims) (fun _ => KeptState codec recordIds (claims.map (·.claimId)))
      (fun _ => KeptState codec recordIds (claims.map (·.claimId))) s.asked := by
    refine ensures_forEach (fun claim hc u hu => ?_) (hs.load hclaims)
    unfold endClaim
    split
    · have hin : claim.claimId ∈ u.claims.map (·.claimId) := hu.claims_there _ (List.mem_map_of_mem hc)
      refine ensures_bind (writeClaim_kept { claim with phase := .ended } hu fun _ => ⟨hfit claim hc, .inl hin⟩) ?_
      exact fun result v hv => ensures_ofExcept (fun _ _ => hv.1) fun _ _ => hv.1
    · exact ensures_pure hu
  exact hloop.weaken (fun _ h => h.unload) (fun _ _ h => h.unload) fun _ _ h => h.unload

/-- A record of the store changes its phase. -/
theorem writeRecord_stored {record : ManagedX11GrantRecord} (hr : record ∈ s.records) {phase : GrantRecordPhase}
    (hp : (env.write s.calls).replaced = true → phase.acceptable = true) (hs : KeptState codec recordIds [] s) :
    Ensures (KeptState codec recordIds []) (writeRecord env { record with phase })
      (fun _ => KeptState codec recordIds []) (fun _ => KeptState codec recordIds []) s := by
  have hin : record.recordId ∈ s.records.map (·.recordId) := List.mem_map_of_mem hr
  have hfits := (hs.records_fit record hr).2
  exact (writeRecord_kept { record with phase } hs fun hreplaced => ⟨hp hreplaced, hfits, .inl hin⟩).post
    fun _ _ h => h.1.forget

theorem finishRevocation_kept (available : Bool) (claims : List ManagedX11MachineClaim)
    {record : ManagedX11GrantRecord} (hr : record ∈ s.records) (unfinalized unended : String → String)
    (hs : KeptState codec recordIds [] s) :
    Ensures (KeptState codec recordIds []) (finishRevocation env available claims record unfinalized unended)
      (fun _ => KeptState codec recordIds []) (fun _ => KeptState codec recordIds []) s := by
  refine ensures_bind (ensures_mapFailure (writeRecord_stored hr (fun _ => rfl) hs)) fun _ t ht => ?_
  exact preserves_onlyIf (preserves_mapFailure (endClaims_kept available _)) t ht

theorem leaveUncertain_kept {α : Type} {record : ManagedX11GrantRecord} {operation reason kept : String}
    (h : Ensures (KeptState codec recordIds []) (writeRecord env { record with phase := .outcomeUnknown reason })
      (fun _ => KeptState codec recordIds []) (fun _ => KeptState codec recordIds []) s) :
    Ensures (KeptState codec recordIds []) (leaveUncertain env record operation reason kept : Desktop α)
      (fun _ => KeptState codec recordIds []) (fun _ => KeptState codec recordIds []) s := by
  refine ensures_bind (Q := fun _ => KeptState codec recordIds []) (ensures_attempt h) fun result t ht => ?_
  split
  · exact ensures_fail ht
  · exact ensures_fail ht

/-- What the revocation makes of the server's generation after its change. -/
def revocationServer (env : Environment) (n : ℕ) (record : ManagedX11GrantRecord) : Except String Unit :=
  confirmServer record.key.serverPeerStartTime "X11 server process changed while revoking access"
    (env.peerStartTime (n + 13))

/-- The answers to the questions of a revocation from number `n` on confirm that
the entry is gone. -/
def revocationConfirmed (env : Environment) (n : ℕ) (record : ManagedX11GrantRecord) : Bool :=
  isOk (env.changeHosts (n + 10)) && isOk (env.requireCurrentSocket (n + 12)) &&
    isOk (revocationServer env n record) &&
    observedWith (fun after => !after.contains record.key.aclEntry) (env.readAcl (n + 11))

/-- The reason a revocation records if they do not. -/
def revocationReason (env : Environment) (n : ℕ) (record : ManagedX11GrantRecord) : String :=
  uncertainReason (env.changeHosts (n + 10)) (env.readAcl (n + 11)) (env.requireCurrentSocket (n + 12))
    (revocationServer env n record) "the exact ACL entry was still present after the X server round trip"

/-- The answers and the state with which a revocation sends its change. -/
structure Sends (env : Environment) (s : X11State) (request : X11RevokeRequest) (available : Bool)
    (record : ManagedX11GrantRecord) : Prop where
  opened : env.openExisting s.calls = .ok (some available)
  locked : env.lock (s.calls + 1) = .ok ()
  records : env.readRecords (s.calls + 2) = .ok ()
  claims : available = true → env.readClaims (s.calls + 3) = .ok ()
  validId : validRecordId request.recordId = true
  readable : env.readRecord (s.calls + 4) = .ok ()
  found : s.records.find? (·.recordId = request.recordId) = some record
  accepted : checkRevocation env request record = .ok ()
  boot : env.hostBootId (s.calls + 5) = .ok record.bootId
  connected : env.connectCurrentSocket (s.calls + 6) = .ok ()
  generation : env.peerStartTime (s.calls + 7) = .ok record.key.serverPeerStartTime
  entry : ∃ before, env.readAcl (s.calls + 8) = .ok before ∧ revokeMode before = .ok () ∧
    before.contains record.key.aclEntry = true
  current : env.requireCurrentSocket (s.calls + 9) = .ok ()
  unshared : (unresolvedClaims (s.listedClaims available) record.recordId).length ≤ 1

/-- The reason is one that the reader accepts, if it is recorded at all. -/
def RevokeFits (env : Environment) (s : X11State) (request : X11RevokeRequest) : Prop :=
  ∀ available record, Sends env s request available record → revocationConfirmed env s.calls record = false →
    (env.write (s.calls + 14)).replaced = true → acceptableReason (revocationReason env s.calls record) = true

theorem removeGrant_kept {n : ℕ} (hn : s.calls = n + 10) (available : Bool)
    (claims : List ManagedX11MachineClaim) {record : ManagedX11GrantRecord} (hr : record ∈ s.records)
    (hreason : revocationConfirmed env n record = false → (env.write (n + 14)).replaced = true →
      acceptableReason (revocationReason env n record) = true) (hs : KeptState codec [] [] s) :
    Ensures (KeptState codec [] []) (removeGrant env available claims record)
      (fun _ => KeptState codec [] []) (fun _ => KeptState codec [] []) s := by
  refine ensures_bind (ensures_ask hs.asked) ?_
  rintro change t ⟨rfl, rfl⟩
  refine ensures_bind (ensures_ask hs.asked.asked) ?_
  rintro observed t ⟨rfl, rfl⟩
  refine ensures_bind (ensures_ask hs.asked.asked.asked) ?_
  rintro socketResult t ⟨rfl, rfl⟩
  refine ensures_bind (ensures_ask hs.asked.asked.asked.asked) ?_
  rintro current t ⟨rfl, rfl⟩
  unfold revocationConfirmed revocationReason revocationServer at hreason
  dsimp only
  split
  · exact ensures_bind (finishRevocation_kept (s := s.asked.asked.asked.asked) available claims hr _ _ hs)
      fun _ u hu => ensures_pure hu
  · rename_i hunconfirmed
    refine leaveUncertain_kept (writeRecord_stored (s := s.asked.asked.asked.asked) hr (fun hreplaced => ?_) hs)
    simp only [X11State.asked, hn] at hunconfirmed hreplaced ⊢
    exact hreason ((Bool.not_eq_true _).mp hunconfirmed) hreplaced

/-- A check that lets the operation go on has passed. -/
theorem ensures_guard {c : Bool} {message : String} (hs : KeptState codec [] [] s) :
    Ensures (KeptState codec [] []) (onlyIf c (fail message)) (fun _ u => u = s ∧ c = false)
      (fun _ => KeptState codec [] []) s := by
  cases c with
  | true => exact ensures_fail hs
  | false => exact ensures_pure ⟨rfl, rfl⟩

theorem revokeRecord_kept {n : ℕ} (hn : s.calls = n + 5) (available : Bool)
    (claims : List ManagedX11MachineClaim) {record : ManagedX11GrantRecord} (hr : record ∈ s.records)
    (hreason : env.hostBootId (n + 5) = .ok record.bootId → env.connectCurrentSocket (n + 6) = .ok () →
      env.peerStartTime (n + 7) = .ok record.key.serverPeerStartTime →
      (∃ before, env.readAcl (n + 8) = .ok before ∧ revokeMode before = .ok () ∧
        before.contains record.key.aclEntry = true) →
      env.requireCurrentSocket (n + 9) = .ok () → (unresolvedClaims claims record.recordId).length ≤ 1 →
      revocationConfirmed env n record = false → (env.write (n + 14)).replaced = true →
      acceptableReason (revocationReason env n record) = true) (hs : KeptState codec [] [] s) :
    Ensures (KeptState codec [] []) (revokeRecord env available claims record)
      (fun _ => KeptState codec [] []) (fun _ => KeptState codec [] []) s := by
  refine ensures_bind (ensures_askResult hs.asked fun _ => hs) ?_
  rintro bootId t ⟨hboot, rfl⟩
  refine ensures_bind (ensures_guard hs) ?_
  rintro _ t ⟨rfl, hsame⟩
  refine ensures_bind (ensures_askResult hs.asked fun _ => hs) ?_
  rintro _ t ⟨hconnected, rfl⟩
  refine ensures_bind (ensures_askResult hs.asked fun _ => hs) ?_
  rintro current t ⟨hcurrent, rfl⟩
  refine ensures_bind (ensures_guard hs) ?_
  rintro _ t ⟨rfl, hgeneration⟩
  refine ensures_bind (ensures_askResult hs.asked fun _ => hs) ?_
  rintro before t ⟨hbefore, rfl⟩
  refine ensures_bind (ensures_askResult hs.asked fun _ => hs) ?_
  rintro _ t ⟨hsocket, rfl⟩
  refine ensures_bind (Q := fun _ t => t = s.asked.asked.asked.asked.asked ∧ revokeMode before = .ok ())
    (ensures_ofExcept (fun _ hmode => ⟨rfl, hmode⟩) fun _ _ => hs) ?_
  rintro _ t ⟨rfl, hmode⟩
  simp only [X11State.asked, hn] at hboot hconnected hcurrent hbefore hsocket
  split
  · rename_i hcontains
    refine ensures_bind (ensures_guard hs) ?_
    rintro _ t ⟨rfl, hunshared⟩
    refine removeGrant_kept (by simp only [X11State.asked, hn]) available claims hr (hreason ?_ hconnected ?_
      ⟨before, hbefore, hmode, hcontains⟩ hsocket (by simpa using hunshared)) hs
    · rw [hboot, not_not.mp (of_decide_eq_false hsame)]
    · rw [hcurrent, not_not.mp (of_decide_eq_false hgeneration)]
  · exact ensures_bind (finishRevocation_kept (s := s.asked.asked.asked.asked.asked) available claims hr _ _ hs)
      fun _ u hu => ensures_pure hu

theorem revokeAccessSync_kept (request : X11RevokeRequest) (hreason : RevokeFits env s request)
    (hs : KeptState codec [] [] s) :
    Ensures (KeptState codec [] []) (revokeAccessSync env request)
      (fun _ => KeptState codec [] []) (fun _ => KeptState codec [] []) s := by
  refine ensures_bind (ensures_askResult hs.asked fun _ => hs) ?_
  rintro opened t ⟨hopened, rfl⟩
  cases opened with
  | none => exact ensures_fail hs
  | some available =>
    refine ensures_bind (ensures_askResult hs.asked fun _ => hs) ?_
    rintro _ t ⟨hlocked, rfl⟩
    refine ensures_loadRecords hs (fun _ => hs) fun hrecords => ?_
    refine ensures_loadClaims hs (fun _ => hs) fun hclaims => ?_
    refine ensures_bind (ensures_guard hs) ?_
    rintro _ t ⟨rfl, hvalid⟩
    refine ensures_bind (ensures_askResult hs.asked fun _ => hs) ?_
    rintro _ t ⟨hreadable, rfl⟩
    refine ensures_bind (ensures_read (Q := fun found t => t = s.asked.asked.asked.asked.asked ∧
      found = s.records.find? (·.recordId = request.recordId)) ⟨rfl, rfl⟩) ?_
    rintro found t ⟨rfl, hfound⟩
    cases found with
    | none => exact ensures_fail hs
    | some record =>
      refine ensures_bind (Q := fun _ t => t = s.asked.asked.asked.asked.asked ∧
        checkRevocation env request record = .ok ()) (ensures_ofExcept (fun _ hok => ⟨rfl, hok⟩) fun _ _ => hs) ?_
      rintro _ t ⟨rfl, haccepted⟩
      refine revokeRecord_kept (n := s.calls) rfl available _ (List.mem_of_find?_eq_some hfound.symm) ?_ hs
      intro hboot hconnected hgeneration hentry hcurrent hunshared
      exact hreason available record ⟨hopened, hlocked, hrecords, hclaims, by simpa using hvalid, hreadable,
        hfound.symm, haccepted, hboot, hconnected, hgeneration, hentry, hcurrent, hunshared⟩

end Revoke

section Authorize

variable {env : Environment} {codec : Codec} {s : X11State} {request : X11AuthorizationRequest}

def X11AuthorizationRequest.key (request : X11AuthorizationRequest) (serverPeerStartTime : ℕ) :
    ManagedX11GrantKey :=
  .fromProjection request.projection.hostSocket request.projection.identity serverPeerStartTime

/-- What discovery has verified of an authorization request, and that its files
are small enough. -/
structure Verified (codec : Codec) (request : X11AuthorizationRequest) : Prop where
  source : request.projection.hostSocket.source = (request.key 0).expectedSource
  canonical : request.projection.hostSocket.canonicalPath.toList.head? = some '/'
  inode : request.projection.hostSocket.revision.inode ≠ 0
  pid : request.projection.hostSocket.peerIdentity.1 ≤ maxPid
  machine : ∃ observed, machineInstanceFromRecord request.projection.identity.machineInstance.leaderPid
    request.projection.identity.machineInstance.leaderStartTime
    (request.projection.identity.machineInstance.namespaces.map (·.1))
    (request.projection.identity.machineInstance.namespaces.map (·.2)) = .ok observed
  recordBytes : ∀ record : ManagedX11GrantRecord, validRecordId record.recordId = true →
    codec.uuidParses record.bootId = true → record.target = request.target →
    record.identity = request.projection.identity → (∃ start, record.key = request.key start) →
    record.phase.acceptable = true → codec.recordBytes record ≤ maxGrantRecordBytes
  claimBytes : ∀ claim : ManagedX11MachineClaim, validRecordId claim.claimId = true →
    validRecordId claim.grantRecordId = true → codec.uuidParses claim.bootId = true →
    claim.machine = request.target.machine → claim.guestUser = request.target.user →
    (∃ start, claim.key = request.key start) → ManagedX11MachineClaim.validatePhase claim.phase = .ok () →
    codec.claimBytes claim ≤ maxMachineClaimBytes

/-- The key of a server process that exists and has a start time is accepted. -/
theorem Verified.key_validate (h : Verified codec request) {start : ℕ} (hstart : start ≠ 0)
    (hpid : request.projection.hostSocket.peerIdentity.1 ≠ 0) : (request.key start).validate = .ok () := by
  have hle := h.pid
  unfold ManagedX11GrantKey.validate
  rw [if_neg, if_neg, if_neg, if_neg]
  · exact fun hacl => hacl.elim (fun hf => hf rfl) fun ha => ha rfl
  · exact hstart
  · exact fun hp => hp.elim hpid fun hgt => absurd hle (Nat.not_le_of_gt hgt)
  · rintro (hsource | hcanonical | hinode)
    · exact hsource h.source
    · exact hcanonical h.canonical
    · exact h.inode hinode

theorem Verified.recordFits (h : Verified codec request) (record : ManagedX11GrantRecord) {start : ℕ}
    (hid : validRecordId record.recordId = true) (hboot : codec.uuidParses record.bootId = true)
    (htarget : record.target = request.target) (hidentity : record.identity = request.projection.identity)
    (hkey : record.key = request.key start) (hstart : start ≠ 0)
    (hpid : request.projection.hostSocket.peerIdentity.1 ≠ 0) : RecordFits codec record := by
  intro phase hphase
  have hbytes := h.recordBytes { record with phase } hid hboot htarget hidentity ⟨start, hkey⟩ hphase
  obtain ⟨observed, hobserved⟩ := h.machine
  have hinstance : ManagedX11GrantRecord.recordedInstance { record with phase } = .ok observed := by
    unfold ManagedX11GrantRecord.recordedInstance
    rw [hidentity]
    exact hobserved
  have hle := h.pid
  unfold readGrantRecord readBounded
  rw [if_neg (Nat.not_lt.mpr hbytes)]
  unfold ManagedX11GrantRecord.intoEvidence
  have hserver : ¬ (record.key.serverPeer.1 = 0 ∨ record.key.serverPeer.1 > maxPid) := by
    rw [hkey]
    exact fun hp => hp.elim hpid fun hgt => absurd hle (Nat.not_le_of_gt hgt)
  have hgeneration : ¬ record.key.serverPeerStartTime = 0 := by
    rw [hkey]
    exact hstart
  have hendpoint : ¬ (record.key.source ≠ record.key.expectedSource ∨
      record.key.canonicalSource.toList.head? ≠ some '/' ∨ record.key.socketRevision.inode = 0) := by
    rw [hkey]
    rintro (hsource | hcanonical | hinode)
    · exact hsource h.source
    · exact hcanonical h.canonical
    · exact h.inode hinode
  have hacl : ¬ (record.key.aclFamily ≠ serverInterpretedFamily ∨
      record.key.aclAddress ≠ numericLocalUserAddress record.key.hostUid) := by
    rw [hkey]
    exact fun hacl => hacl.elim (fun hf => hf rfl) fun ha => ha rfl
  simp only [hid, hboot, hinstance, hphase, Bool.not_true, Bool.false_eq_true, if_false, if_neg hserver,
    if_neg hgeneration, if_neg hendpoint, if_neg hacl]
  rfl

theorem Verified.claimFits (h : Verified codec request) (record : ManagedX11GrantRecord) {claimId : String}
    {start : ℕ} (hid : validRecordId claimId = true) (hgrant : validRecordId record.recordId = true)
    (hboot : codec.uuidParses record.bootId = true) (hkey : record.key = request.key start)
    (hstart : start ≠ 0) (hpid : request.projection.hostSocket.peerIdentity.1 ≠ 0) :
    ClaimFits codec (.activeForGrant claimId request.target request.projection.identity record) := by
  intro phase hphase
  have hbytes := h.claimBytes { ManagedX11MachineClaim.activeForGrant claimId request.target
    request.projection.identity record with phase } hid hgrant hboot rfl rfl ⟨start, hkey⟩ hphase
  obtain ⟨observed, hobserved⟩ := h.machine
  unfold readMachineClaim readBounded
  rw [if_neg (Nat.not_lt.mpr hbytes)]
  have hvalid : ManagedX11MachineClaim.validate { ManagedX11MachineClaim.activeForGrant claimId request.target
      request.projection.identity record with phase } = .ok () := by
    unfold ManagedX11MachineClaim.validate ManagedX11MachineClaim.machineInstance
    simp only [ManagedX11MachineClaim.activeForGrant, hid, hgrant, hobserved, hkey,
      h.key_validate hstart hpid, hphase, Bool.not_true, Bool.or_self, Bool.false_eq_true, if_false]
    rfl
  rw [hvalid]
  simp only [ManagedX11MachineClaim.activeForGrant, hboot, Bool.not_true, Bool.false_eq_true, if_false]

/-- An accepted record has a well-formed id and boot identity. -/
theorem RecordFits.intoEvidence {record : ManagedX11GrantRecord} (h : RecordFits codec record) :
    validRecordId record.recordId = true ∧ codec.uuidParses record.bootId = true := by
  have hread := h .pending rfl
  unfold readGrantRecord readBounded at hread
  split at hread
  · cases hread
  · unfold ManagedX11GrantRecord.intoEvidence at hread
    cases hid : validRecordId record.recordId with
    | false =>
      simp only [hid, Bool.not_false, if_true] at hread
      cases hread
    | true =>
      refine ⟨rfl, ?_⟩
      cases hboot : codec.uuidParses record.bootId with
      | false =>
        simp only [hid, hboot, Bool.not_true, Bool.not_false, Bool.false_eq_true, if_true, if_false] at hread
        cases hread
      | true => rfl

/-- What the authorization makes of the server's generation after its change. -/
def authorizationServer (env : Environment) (n start : ℕ) : Except String Unit :=
  confirmServer start "X server process changed while authorizing access" (env.peerStartTime (n + 18))

/-- The answers to the questions of an authorization from number `n` on confirm
that the entry was added. -/
def authorizationConfirmed (env : Environment) (n : ℕ) (request : X11AuthorizationRequest) (start : ℕ) : Bool :=
  authorizationWasConfirmed (env.changeHosts (n + 15)) (env.readAcl (n + 16)) (env.requireCurrentSocket (n + 17))
    (authorizationServer env n start) request.projection.identity.hostUid

/-- The reason an authorization records if they do not. -/
def authorizationReason (env : Environment) (n : ℕ) (request : X11AuthorizationRequest) (start : ℕ) : String :=
  uncertainReason (env.changeHosts (n + 15)) (env.readAcl (n + 16)) (env.requireCurrentSocket (n + 17))
    (authorizationServer env n start)
    s!"localuser:#{request.projection.identity.hostUid} was absent after the X server round trip"

/-- The reason recorded if the claim of a confirmed grant could not be stored. -/
def unclaimedReason (error : String) : String :=
  s!"X11 access was confirmed, but its machine claim could not be persisted: persist X11 machine claim: {error}"

/-- The answers that bring an authorization to look at the grants: access control
is enabled, before the lock is taken and after. -/
structure Reached (env : Environment) (s : X11State) (before : X11AclSnapshot) (start : ℕ) (bootId : String) :
    Prop where
  connected : env.connectCurrentSocket s.calls = .ok ()
  first : ∃ acl, env.readAcl (s.calls + 1) = .ok acl ∧ acl.mode = .enabled
  current : env.requireCurrentSocket (s.calls + 2) = .ok ()
  opened : env.openState (s.calls + 3) = .ok ()
  locked : env.lock (s.calls + 4) = .ok ()
  claims : env.readClaims (s.calls + 5) = .ok ()
  second : env.readAcl (s.calls + 6) = .ok before
  enabled : before.mode = .enabled
  still : env.requireCurrentSocket (s.calls + 7) = .ok ()
  generation : env.peerStartTime (s.calls + 8) = .ok start
  records : env.readRecords (s.calls + 9) = .ok ()
  boot : env.hostBootId (s.calls + 10) = .ok bootId

/-- The answers and the state with which an authorization writes a claim on the
given grant. -/
structure Joins (env : Environment) (s : X11State) (request : X11AuthorizationRequest) (start : ℕ)
    (record : ManagedX11GrantRecord) : Prop where
  reached : ∃ before bootId, Reached env s before start bootId ∧
    before.hasNumericLocalUser request.projection.identity.hostUid = true ∧
    reusableRecord env s.listedRecords (request.key start) bootId = some record ∧
    alreadyClaimed (s.listedClaims true) request record.recordId (request.key start) bootId = false
  clock : ∃ now, env.unixMillis (s.calls + 12) = .ok now

/-- The answers and the state with which an authorization writes a new grant
record. -/
structure Adds (env : Environment) (s : X11State) (request : X11AuthorizationRequest) (start : ℕ) : Prop where
  reached : ∃ before bootId, Reached env s before start bootId ∧
    before.hasNumericLocalUser request.projection.identity.hostUid = false ∧
    sessionRefusal env s.listedRecords request start bootId = .ok ()
  clock : ∃ now, env.unixMillis (s.calls + 12) = .ok now
  boot : ∃ bootId, env.hostBootId (s.calls + 13) = .ok bootId

/-- The request is as discovery verified it, and the server is a process. -/
structure Recordable (codec : Codec) (request : X11AuthorizationRequest) (start : ℕ) : Prop where
  verified : Verified codec request
  start : start ≠ 0
  pid : request.projection.hostSocket.peerIdentity.1 ≠ 0

/-- What is written for a new grant finds room, and the reasons that are recorded
with it are ones the reader accepts. -/
structure AddFits (codec : Codec) (env : Environment) (s : X11State) (request : X11AuthorizationRequest)
    (start : ℕ) : Prop where
  pending : (env.write (s.calls + 14)).replaced = true →
    Recordable codec request start ∧ s.records.length < maxGrantRecords
  reason : env.write (s.calls + 14) = .written → authorizationConfirmed env s.calls request start = false →
    (env.write (s.calls + 19)).replaced = true → acceptableReason (authorizationReason env s.calls request start) = true
  claim : env.write (s.calls + 14) = .written → authorizationConfirmed env s.calls request start = true →
    env.write (s.calls + 19) = .written → (env.write (s.calls + 20)).replaced = true →
    s.claims.length < maxMachineClaims
  claimReason : env.write (s.calls + 14) = .written → authorizationConfirmed env s.calls request start = true →
    env.write (s.calls + 19) = .written → ∀ error, (env.write (s.calls + 20)).result = .error error →
    (env.write (s.calls + 21)).replaced = true → acceptableReason (unclaimedReason error) = true

/-- Whatever an authorization writes, it finds room for, and the reader accepts it. -/
structure EnsureFits (codec : Codec) (env : Environment) (s : X11State) (request : X11AuthorizationRequest) :
    Prop where
  joins : ∀ start record, Joins env s request start record → (env.write (s.calls + 13)).replaced = true →
    Recordable codec request start ∧ s.claims.length < maxMachineClaims
  adds : ∀ start, Adds env s request start → AddFits codec env s request start

/-- A record written before changes its phase, and stays known by its name. -/
theorem writeRecord_known {record : ManagedX11GrantRecord} {phase : GrantRecordPhase}
    (hp : (env.write s.calls).replaced = true → phase.acceptable = true) (hf : RecordFits codec record)
    (hs : KeptState codec [record.recordId] [] s) :
    Ensures (KeptState codec [] []) (writeRecord env { record with phase })
      (fun _ t => KeptState codec [record.recordId] [] t ∧ env.write s.calls = .written ∧
        t.calls = s.calls + 1 ∧ t.claims = s.claims)
      (fun _ => KeptState codec [] []) s := by
  have hthere : record.recordId ∈ s.records.map (·.recordId) := hs.records_there _ List.mem_cons_self
  refine (writeRecord_kept { record with phase } hs fun hreplaced => ⟨hp hreplaced, hf, .inl hthere⟩).weaken ?_ ?_ ?_
  · exact fun _ h => h.forget
  · exact fun _ _ h => ⟨h.1.forget, h.2⟩
  · exact fun _ _ h => h.forget

/-- The claim of an authorization is valid: only the file system can refuse it. -/
theorem ClaimFits.validate {claim : ManagedX11MachineClaim} (h : ClaimFits codec claim)
    (hp : ManagedX11MachineClaim.validatePhase claim.phase = .ok ()) : claim.validate = .ok () := by
  have hread := h claim.phase hp
  unfold readMachineClaim readBounded at hread
  split at hread
  · cases hread
  · cases hboot : codec.uuidParses claim.bootId with
    | false =>
      simp only [hboot, Bool.not_false, if_true] at hread
      cases hread
    | true =>
      simp only [hboot, Bool.not_true, Bool.false_eq_true, if_false] at hread
      exact hread

theorem confirmGrant_kept {n : ℕ} (hn : s.calls = n + 19) {record : ManagedX11GrantRecord}
    (hrecord : RecordFits codec record) (hclaim : ClaimFits codec (.activeFromRecord record))
    (hroom : env.write (n + 19) = .written → (env.write (n + 20)).replaced = true →
      s.claims.length < maxMachineClaims)
    (hreason : env.write (n + 19) = .written → ∀ error, (env.write (n + 20)).result = .error error →
      (env.write (n + 21)).replaced = true → acceptableReason (unclaimedReason error) = true)
    (hs : KeptState codec [record.recordId] [] s) :
    Ensures (KeptState codec [] []) (confirmGrant env record)
      (fun _ => KeptState codec [] []) (fun _ => KeptState codec [] []) s := by
  refine ensures_bind (ensures_mapFailure (writeRecord_known (fun _ => rfl) hrecord hs)) ?_
  rintro _ t ⟨ht, hwritten, hcalls, hclaims⟩
  rw [hn] at hwritten hcalls
  have hstore : Ensures (KeptState codec [record.recordId] [])
      (writeClaim env true (.activeFromRecord record) fun _ => []) _ _ t :=
    writeClaim_kept _ ht fun hreplaced => ⟨hclaim, .inr (hclaims ▸ hroom hwritten (hcalls ▸ hreplaced))⟩
  refine ensures_bind (hstore.weaken (fun _ h => h.forget) (fun _ _ h => h) fun _ _ h => h.forget) ?_
  rintro result u ⟨hu, hucalls, hresult⟩
  cases result with
  | ok _ => exact ensures_pure hu.forget
  | error claimError =>
    have herror : (env.write u.calls).replaced = true → GrantRecordPhase.acceptable (.outcomeUnknown
        s!"X11 access was confirmed, but its machine claim could not be persisted: {claimError}") = true := by
      intro hreplaced
      unfold claimWrite at hresult
      rw [hclaim.validate rfl, hcalls] at hresult
      rw [hucalls, hcalls] at hreplaced
      cases hw : (env.write (n + 20)).result with
      | ok _ => rw [hw] at hresult; cases hresult
      | error error =>
        rw [hw] at hresult
        cases hresult
        exact hreason hwritten error hw hreplaced
    refine ensures_bind (Q := fun _ => KeptState codec [] []) (ensures_attempt ?_) fun _ v hv => ?_
    · exact (writeRecord_known herror hrecord hu).post fun _ _ h => h.1.forget
    · exact ensures_fail hv

section Answers

/-- Ids are fresh UUIDs in their simple form, and the kernel's boot id is a UUID. -/
structure Answers (codec : Codec) (env : Environment) : Prop where
  newId : ∀ n, validRecordId (env.newId n) = true
  hostBootId : ∀ n bootId, env.hostBootId n = .ok bootId → codec.uuidParses bootId = true

variable (henv : Answers codec env)

include henv

theorem joinGrant_kept {n : ℕ} (hn : s.calls = n + 11) {record : ManagedX11GrantRecord} {start : ℕ}
    (hrecord : RecordFits codec record) (hkey : record.key = request.key start)
    (hfits : (∃ now, env.unixMillis (n + 12) = .ok now) → (env.write (n + 13)).replaced = true →
      Recordable codec request start ∧ s.claims.length < maxMachineClaims)
    (hs : KeptState codec [] [] s) :
    Ensures (KeptState codec [] []) (joinGrant env request record)
      (fun _ => KeptState codec [] []) (fun _ => KeptState codec [] []) s := by
  refine ensures_bind (ensures_ask hs.asked) ?_
  rintro claimId t ⟨rfl, rfl⟩
  refine ensures_bind (ensures_askResult hs.asked fun _ => hs) ?_
  rintro now t ⟨hnow, rfl⟩
  simp only [X11State.asked, hn] at hnow
  obtain ⟨hgrant, hboot⟩ := hrecord.intoEvidence
  refine ensures_bind (writeClaim_kept _ hs.asked.asked fun hreplaced => ?_) ?_
  · simp only [X11State.asked, hn] at hreplaced
    obtain ⟨hrecordable, hroom⟩ := hfits ⟨now, hnow⟩ hreplaced
    exact ⟨hrecordable.verified.claimFits record (henv.newId s.calls) hgrant hboot hkey hrecordable.start
      hrecordable.pid, .inr hroom⟩
  · rintro result t ⟨ht, -, _⟩
    exact ensures_ofExcept (fun _ _ => ht) fun _ _ => ht

theorem addGrant_kept (stored : X11State) (hn : s.calls = stored.calls + 11) (hrecords : s.records = stored.records)
    (hclaims : s.claims = stored.claims) {start : ℕ}
    (hfits : (∃ now, env.unixMillis (stored.calls + 12) = .ok now) →
      (∃ bootId, env.hostBootId (stored.calls + 13) = .ok bootId) → AddFits codec env stored request start)
    (hs : KeptState codec [] [] s) :
    Ensures (KeptState codec [] []) (addGrant env request start)
      (fun _ => KeptState codec [] []) (fun _ => KeptState codec [] []) s := by
  refine ensures_bind (ensures_ask hs.asked) ?_
  rintro recordId t ⟨hid, rfl⟩
  refine ensures_bind (ensures_askResult hs.asked fun _ => hs) ?_
  rintro now t ⟨hnow, rfl⟩
  refine ensures_bind (ensures_askResult hs.asked fun _ => hs) ?_
  rintro bootId t ⟨hboot, rfl⟩
  simp only [X11State.asked, hn] at hnow hboot
  have hadd := hfits ⟨now, hnow⟩ ⟨bootId, hboot⟩
  have hvalid : validRecordId recordId = true := hid ▸ henv.newId _
  have hparses := henv.hostBootId _ _ hboot
  have hrecord : Recordable codec request start → RecordFits codec ⟨recordId, .pending, env.effectiveUid, bootId,
      request.target, request.projection.identity, request.key start⟩ :=
    fun h => h.verified.recordFits _ hvalid hparses rfl rfl rfl h.start h.pid
  refine ensures_bind (writeRecord_kept ⟨recordId, .pending, env.effectiveUid, bootId, request.target,
    request.projection.identity, request.key start⟩ hs.asked.asked.asked fun hreplaced => ?_) ?_
  · simp only [X11State.asked, hn] at hreplaced
    obtain ⟨hrecordable, hroom⟩ := hadd.pending hreplaced
    exact ⟨rfl, hrecord hrecordable, .inr (lt_of_eq_of_lt (congrArg List.length hrecords) hroom)⟩
  rintro _ t ⟨ht, hwritten, hcalls, hsame⟩
  simp only [X11State.asked, hn] at hwritten hcalls
  obtain ⟨hrecordable, -⟩ := hadd.pending (by rw [hwritten]; rfl)
  have hclaim := hrecordable.verified.claimFits ⟨recordId, .pending, env.effectiveUid, bootId, request.target,
    request.projection.identity, request.key start⟩ hvalid hvalid hparses rfl hrecordable.start hrecordable.pid
  refine ensures_bind (ensures_ask ht.asked.forget) ?_
  rintro change u ⟨rfl, rfl⟩
  refine ensures_bind (ensures_ask ht.asked.asked.forget) ?_
  rintro observed u ⟨rfl, rfl⟩
  refine ensures_bind (ensures_ask ht.asked.asked.asked.forget) ?_
  rintro socketResult u ⟨rfl, rfl⟩
  refine ensures_bind (ensures_ask ht.asked.asked.asked.asked.forget) ?_
  rintro current u ⟨rfl, rfl⟩
  have hreason := hadd.reason hwritten
  have hroom := hadd.claim hwritten
  have hclaimReason := hadd.claimReason hwritten
  unfold authorizationConfirmed authorizationServer at hreason hroom hclaimReason
  unfold authorizationReason authorizationServer at hreason
  dsimp only
  split
  · rename_i hconfirmed
    simp only [X11State.asked, hcalls] at hconfirmed
    refine confirmGrant_kept (n := stored.calls) (by simp only [X11State.asked, hcalls]) (hrecord hrecordable) hclaim
      (fun hfinal hreplaced => ?_) (hclaimReason hconfirmed) ht
    exact lt_of_eq_of_lt (congrArg List.length (hsame.trans hclaims)) (hroom hconfirmed hfinal hreplaced)
  · rename_i hunconfirmed
    refine leaveUncertain_kept ((writeRecord_known (s := t.asked.asked.asked.asked) (fun hreplaced => ?_)
      (hrecord hrecordable) ht).post fun _ _ h => h.1.forget)
    simp only [X11State.asked, hcalls] at hunconfirmed hreplaced ⊢
    exact hreason ((Bool.not_eq_true _).mp hunconfirmed) hreplaced

theorem reuseManagedGrantSync_kept (stored : X11State) (hn : s.calls = stored.calls + 11)
    (hrecords : s.records = stored.records) (hclaims : s.claims = stored.claims) {start : ℕ} {bootId : String}
    (hfits : ∀ record, reusableRecord env stored.listedRecords (request.key start) bootId = some record →
      alreadyClaimed (stored.listedClaims true) request record.recordId (request.key start) bootId = false →
      (∃ now, env.unixMillis (stored.calls + 12) = .ok now) → (env.write (stored.calls + 13)).replaced = true →
      Recordable codec request start ∧ stored.claims.length < maxMachineClaims)
    (hs : KeptState codec [] [] s) :
    Ensures (KeptState codec [] [])
      (reuseManagedGrantSync env stored.listedRecords (stored.listedClaims true) request start bootId)
      (fun _ => KeptState codec [] []) (fun _ => KeptState codec [] []) s := by
  unfold reuseManagedGrantSync
  dsimp only
  split
  · exact ensures_pure hs
  · rename_i record hfound
    have hmem : record ∈ s.records := hrecords ▸ Directory.mem_list.mp (List.mem_of_find?_eq_some hfound)
    have hkey : record.key = request.key start := by
      have hsome := List.find?_some hfound
      simp only [Bool.and_eq_true, decide_eq_true_eq] at hsome
      exact hsome.2
    refine ensures_bind (ensures_onlyIf (fun hunclaimed => ?_) fun _ => hs) fun _ t ht => ensures_pure ht
    have hjoin := hfits record hfound ((Bool.not_eq_true' _).mp hunclaimed)
    refine joinGrant_kept henv hn (hs.records_fit record hmem).2 hkey (fun hclock hreplaced => ?_) hs
    obtain ⟨hrecordable, hroom⟩ := hjoin hclock hreplaced
    exact ⟨hrecordable, lt_of_eq_of_lt (congrArg List.length hclaims) hroom⟩

theorem authorizeEnabled_kept (stored : X11State) (hn : s.calls = stored.calls + 8)
    (hrecords : s.records = stored.records) (hclaims : s.claims = stored.claims)
    (hfits : EnsureFits codec env stored request) {before : X11AclSnapshot}
    (hreached : ∀ start bootId, env.peerStartTime (stored.calls + 8) = .ok start →
      env.readRecords (stored.calls + 9) = .ok () → env.hostBootId (stored.calls + 10) = .ok bootId →
      Reached env stored before start bootId) (hs : KeptState codec [] [] s) :
    Ensures (KeptState codec [] [])
      (authorizeEnabled env request (stored.listedClaims true) before)
      (fun _ => KeptState codec [] []) (fun _ => KeptState codec [] []) s := by
  refine ensures_bind (ensures_askResult hs.asked fun _ => hs) ?_
  rintro start t ⟨hgeneration, rfl⟩
  refine ensures_loadRecords hs (fun _ => hs) fun hread => ?_
  refine ensures_bind (ensures_askResult hs.asked.asked.asked fun _ => hs) ?_
  rintro bootId t ⟨hboot, rfl⟩
  simp only [X11State.asked, hn] at hgeneration hread hboot
  have hlooked := hreached start bootId hgeneration hread hboot
  have hlisted : s.asked.listedRecords = stored.listedRecords := by
    unfold X11State.listedRecords
    rw [← hrecords]
    rfl
  rw [hlisted]
  split
  · rename_i hhas
    refine reuseManagedGrantSync_kept (s := s.asked.asked.asked) henv stored ?_ hrecords hclaims ?_ hs
    · simp only [X11State.asked, hn]
    · exact fun record hfound hunclaimed hclock =>
        hfits.joins start record ⟨⟨before, bootId, hlooked, hhas, hfound, hunclaimed⟩, hclock⟩
  · rename_i hhas
    refine ensures_bind (Q := fun _ t => t = s.asked.asked.asked ∧
      sessionRefusal env stored.listedRecords request start bootId = .ok ())
      (ensures_ofExcept (fun _ hok => ⟨rfl, hok⟩) fun _ _ => hs) ?_
    rintro _ t ⟨rfl, hallowed⟩
    refine addGrant_kept (s := s.asked.asked.asked) henv stored ?_ hrecords hclaims ?_ hs
    · simp only [X11State.asked, hn]
    · exact fun hclock hbootId =>
        hfits.adds start ⟨⟨before, bootId, hlooked, (Bool.not_eq_true _).mp hhas, hallowed⟩, hclock, hbootId⟩

theorem ensureAccessSync_kept (hfits : EnsureFits codec env s request) (hs : KeptState codec [] [] s) :
    Ensures (KeptState codec [] []) (ensureAccessSync env request)
      (fun _ => KeptState codec [] []) (fun _ => KeptState codec [] []) s := by
  refine ensures_bind (ensures_askResult hs.asked fun _ => hs) ?_
  rintro _ t ⟨hconnected, rfl⟩
  refine ensures_bind (ensures_askResult hs.asked fun _ => hs) ?_
  rintro first t ⟨hfirst, rfl⟩
  refine ensures_bind (ensures_askResult hs.asked fun _ => hs) ?_
  rintro _ t ⟨hcurrent, rfl⟩
  split
  · exact ensures_pure hs
  · exact ensures_fail hs
  · rename_i hmode
    refine ensures_bind (ensures_askResult hs.asked fun _ => hs) ?_
    rintro _ t ⟨hopened, rfl⟩
    refine ensures_bind (ensures_askResult hs.asked fun _ => hs) ?_
    rintro _ t ⟨hlocked, rfl⟩
    refine ensures_loadClaims hs (fun _ => hs) fun hclaims => ?_
    refine ensures_bind (ensures_askResult hs.asked fun _ => hs) ?_
    rintro before t ⟨hsecond, rfl⟩
    refine ensures_bind (ensures_askResult hs.asked fun _ => hs) ?_
    rintro _ t ⟨hstill, rfl⟩
    split
    · exact ensures_pure hs
    · exact ensures_fail hs
    · rename_i henabled
      refine authorizeEnabled_kept (s := s.asked.asked.asked.asked.asked.asked.asked.asked) henv s rfl rfl rfl
        hfits (fun start bootId hgeneration hrecords hboot => ?_) hs
      exact ⟨hconnected, ⟨first, hfirst, hmode⟩, hcurrent, hopened, hlocked, hclaims rfl, hsecond, henabled, hstill,
        hgeneration, hrecords, hboot⟩

end Answers

end Authorize

section Runs

/-- What keeps the store readable, as a condition on an operation and the state
it starts in. -/
def Fits (codec : Codec) (env : Environment) (s : X11State) : Operation → Prop
  | .ensureAccess request => EnsureFits codec env s request
  | .revokeAccess request => RevokeFits env s request
  | .reconcile _ => True

variable {codec : Codec} {env : Environment} {s t : X11State}

theorem Ensures.kept {α : Type} {p : Desktop α}
    (h : Ensures (KeptState codec [] []) p (fun _ => KeptState codec [] []) (fun _ => KeptState codec [] []) s)
    (ht : t ∈ (p s).passed ++ [(p s).state]) : KeptState codec [] [] t := by
  rcases List.mem_append.mp ht with ht | ht
  · exact h.always t ht
  · rw [List.mem_singleton.mp ht]
    cases hr : (p s).result with
    | ok a => exact h.returned a hr
    | error e => exact h.failed e hr

theorem Step.kept (henv : Answers codec env) {operation : Operation} (hfits : Fits codec env s operation)
    (hs : KeptState codec [] [] s) (h : Step env s operation t) : KeptState codec [] [] t := by
  cases operation with
  | ensureAccess request => exact Ensures.kept (ensureAccessSync_kept henv hfits hs) h
  | revokeAccess request => exact Ensures.kept (revokeAccessSync_kept request hfits hs) h
  | reconcile socket => exact Ensures.kept (reconcileSync_kept socket s hs) h

theorem kept_empty : KeptState codec [] [] {} where
  records_fit _ hr := absurd hr List.not_mem_nil
  claims_fit _ hc := absurd hc List.not_mem_nil
  record_count := Nat.zero_le _
  claim_count := Nat.zero_le _
  records_there _ hid := absurd hid List.not_mem_nil
  claims_there _ hid := absurd hid List.not_mem_nil

/-- A run whose authorizations find room and whose recorded reasons are ones the
reader accepts leaves a store that its own readers accept. -/
theorem store_stays_readable (codec : Codec) (env : Environment) (henv : Answers codec env)
    (operations : List Operation) (t : X11State)
    (h : Run (fun s operation u => Step env s operation u ∧ Fits codec env s operation) {} operations t) :
    Readable codec t := by
  have hkept : KeptState codec [] [] t :=
    h.invariant kept_empty fun u operation v hu hstep => hstep.1.kept henv hstep.2 hu
  exact hkept.readable

/-- Files take about a kilobyte and what their reason takes. -/
def kilobyteFiles : Codec where
  uuidParses text := text.utf8ByteSize = 36 && text.toList.all fun c =>
    c.isDigit || ('a' ≤ c && c ≤ 'f') || c = '-'
  recordBytes record := match record.phase with
    | .outcomeUnknown reason => 1024 + 2 * reason.utf8ByteSize
    | _ => 1024
  claimBytes claim := match claim.phase with
    | .needsReview reason | .unknown reason => 1024 + 2 * reason.utf8ByteSize
    | _ => 1024

private theorem kilobyteFiles_answers : Answers kilobyteFiles twoEndpoints where
  newId n := by
    unfold twoEndpoints
    dsimp only
    split <;> decide
  hostBootId n bootId h := by
    cases h
    decide

private theorem kilobyteFiles_verified :
    Verified kilobyteFiles (authorization ⟨"a", by decide⟩ 7 false) where
  source := by decide
  canonical := by decide
  inode := by decide
  pid := by decide
  machine := ⟨_, rfl⟩
  recordBytes record _ _ _ _ _ hphase := by
    change (match record.phase with
      | .outcomeUnknown reason => 1024 + 2 * reason.utf8ByteSize
      | _ => 1024) ≤ 16384
    split
    · rename_i reason hr
      rw [hr] at hphase
      have hle : reason.utf8ByteSize ≤ 2048 := of_decide_eq_true (Bool.and_eq_true_iff.mp hphase).1
      omega
    · omega
  claimBytes claim _ _ _ _ _ _ hphase := by
    have hle : ∀ reason : String, (if reason.isEmpty = true ∨ reason.utf8ByteSize > maxGrantReasonBytes ∨
        reason.toList.any isControl = true then .error "machine claim state reason is invalid"
        else .ok () : Except String Unit) = .ok () → reason.utf8ByteSize ≤ 2048 := by
      intro reason hok
      by_contra hgt
      rw [if_pos (.inr (.inl (Nat.lt_of_not_le hgt)))] at hok
      cases hok
    change (match claim.phase with
      | .needsReview reason | .unknown reason => 1024 + 2 * reason.utf8ByteSize
      | _ => 1024) ≤ 16384
    cases hp : claim.phase with
    | needsReview reason =>
      rw [hp] at hphase
      have := hle reason hphase
      dsimp only
      omega
    | unknown reason =>
      rw [hp] at hphase
      have := hle reason hphase
      dsimp only
      omega
    | cleanupPending since => dsimp only; omega
    | active => dsimp only; omega
    | ended => dsimp only; omega

private theorem first_authorization_fits :
    EnsureFits kilobyteFiles twoEndpoints {} (authorization ⟨"a", by decide⟩ 7 false) := by
  have hrecordable : Recordable kilobyteFiles (authorization ⟨"a", by decide⟩ 7 false) 77 :=
    ⟨kilobyteFiles_verified, by decide, by decide⟩
  have hgeneration : ∀ {before : X11AclSnapshot} {start : ℕ} {bootId : String},
      Reached twoEndpoints {} before start bootId → start = 77 := fun h => (Except.ok.inj h.generation).symm
  refine ⟨?_, ?_⟩
  · rintro start record ⟨⟨before, bootId, hreached, -⟩, -⟩ -
    cases hgeneration hreached
    exact ⟨hrecordable, by decide⟩
  · rintro start ⟨⟨before, bootId, hreached, -⟩, -, -⟩
    cases hgeneration hreached
    refine ⟨fun _ => ⟨hrecordable, by decide⟩, ?_, fun _ _ _ _ => by decide, fun _ _ _ error h => by cases h⟩
    intro _ _ _
    decide +kernel

theorem store_stays_readable_first :
    (ensureAccessSync twoEndpoints (authorization ⟨"a", by decide⟩ 7 false) {}).state.records.length = 1 ∧
      Readable kilobyteFiles
        (ensureAccessSync twoEndpoints (authorization ⟨"a", by decide⟩ 7 false) {}).state := by
  have hstep : Step twoEndpoints {} (.ensureAccess (authorization ⟨"a", by decide⟩ 7 false))
      (ensureAccessSync twoEndpoints (authorization ⟨"a", by decide⟩ 7 false) {}).state :=
    List.mem_append_right _ (List.mem_singleton_self _)
  have hfits : Fits kilobyteFiles twoEndpoints {} (.ensureAccess (authorization ⟨"a", by decide⟩ 7 false)) :=
    first_authorization_fits
  exact ⟨by decide +kernel, store_stays_readable kilobyteFiles twoEndpoints kilobyteFiles_answers _ _
    (.snoc .nil ⟨hstep, hfits⟩)⟩

/-- The server's answer to the change spans two lines. -/
def twoLineAnswer : Environment :=
  { twoEndpoints with changeHosts := fun _ => .error "insert localuser:#1000: connection closed\nby the server" }

/-- The record of that outcome is written, and the next reader refuses it. -/
theorem two_line_reason_blocks_store :
    ¬ ∀ (codec : Codec) (env : Environment), Answers codec env → ∀ (operations : List Operation) (t : X11State),
      Run (Step env) {} operations t → Readable codec t := by
  intro h
  have hrun : Run (Step twoLineAnswer) {} ([] ++ [.ensureAccess (authorization ⟨"a", by decide⟩ 7 false)])
      (ensureAccessSync twoLineAnswer (authorization ⟨"a", by decide⟩ 7 false) {}).state :=
    .snoc .nil (List.mem_append_right _ (List.mem_singleton_self _))
  have hread := h kilobyteFiles twoLineAnswer ⟨kilobyteFiles_answers.newId, kilobyteFiles_answers.hostBootId⟩
    _ _ hrun
  revert hread
  unfold Readable
  decide +kernel

end Runs

end Lasper.X11
