import Lasper.X11.PassEffects
import Lasper.X11.Revocation

/-! Finalizing a confirmed removal: the grant records are marked revoked, then
the claims ended, one file after the other. The first write that fails stops the
sequence; the files before it, and its own if only the sync failed, stay replaced. -/

namespace Lasper.X11

open Lib Traced

section Sequence

/-- How many files of a sequence of writes are replaced before it stops. -/
def effects : List WriteOutcome → ℕ
  | [] => 0
  | .written :: outcomes => effects outcomes + 1
  | .unsynced _ :: _ => 1
  | .rejected _ :: _ => 0

variable {outcome : WriteOutcome} {first second outcomes : List WriteOutcome}

theorem effects_le (outcomes : List WriteOutcome) : effects outcomes ≤ outcomes.length := by
  induction outcomes with
  | nil => exact Nat.le_refl _
  | cons outcome outcomes ih =>
    cases outcome with
    | written => exact Nat.succ_le_succ ih
    | unsynced error => exact Nat.succ_le_succ (Nat.zero_le _)
    | rejected error => exact Nat.zero_le _

/-- A write that fails stops the sequence. -/
theorem effects_cons (h : outcome ≠ .written) :
    effects (outcome :: outcomes) = if outcome.replaced then 1 else 0 := by
  cases outcome with
  | written => exact absurd rfl h
  | unsynced error => rfl
  | rejected error => rfl

theorem effects_written (h : ∀ outcome ∈ first, outcome = .written) :
    effects (first ++ second) = first.length + effects second := by
  induction first with
  | nil => simp
  | cons outcome first ih =>
    rw [h outcome List.mem_cons_self, List.cons_append]
    have hrest := ih fun other ho => h other (List.mem_cons_of_mem _ ho)
    simp only [effects, hrest, List.length_cons]
    omega

theorem effects_stopped (h : ∃ outcome ∈ first, outcome ≠ .written) :
    effects (first ++ second) = effects first := by
  induction first with
  | nil =>
    obtain ⟨outcome, ho, -⟩ := h
    cases ho
  | cons outcome first ih =>
    cases outcome with
    | written =>
      obtain ⟨other, ho, hne⟩ := h
      rcases List.mem_cons.mp ho with rfl | ho
      · exact absurd rfl hne
      · simp only [List.cons_append, effects, ih ⟨other, ho, hne⟩]
    | unsynced error => rfl
    | rejected error => rfl

end Sequence

section Files

def ManagedX11GrantRecord.asRevoked (record : ManagedX11GrantRecord) : ManagedX11GrantRecord :=
  { record with phase := .revoked }

def ManagedX11MachineClaim.asEnded (claim : ManagedX11MachineClaim) : ManagedX11MachineClaim :=
  { claim with phase := .ended }

/-- The first `n` files of a finalization have been replaced. -/
structure Finalized (records : List ManagedX11GrantRecord) (claims : List ManagedX11MachineClaim) (s : X11State)
    (n : ℕ) (t : X11State) : Prop where
  revoked : t.records =
    Directory.putAll (·.recordId) ((records.take n).map (·.asRevoked)) s.records
  ended : t.claims =
    Directory.putAll (·.claimId) ((claims.take (n - records.length)).map (·.asEnded)) s.claims

variable {env : Environment} {s : X11State}

/-- Marking a record takes two questions, one to read it and one to write it. -/
def recordOutcome (env : Environment) (n : ℕ) : WriteOutcome :=
  match env.readRecord n with
  | .ok () => env.write (n + 1)
  | .error error => .rejected error

def recordOutcomes (env : Environment) : ℕ → ℕ → List WriteOutcome
  | _, 0 => []
  | n, count + 1 => recordOutcome env n :: recordOutcomes env (n + 2) count

def claimOutcomes (env : Environment) : ℕ → ℕ → List WriteOutcome
  | _, 0 => []
  | n, count + 1 => env.write n :: claimOutcomes env (n + 1) count

theorem length_recordOutcomes (n count : ℕ) : (recordOutcomes env n count).length = count := by
  induction count generalizing n with
  | zero => rfl
  | succ count ih => simp [recordOutcomes, ih]

theorem length_claimOutcomes (n count : ℕ) : (claimOutcomes env n count).length = count := by
  induction count generalizing n with
  | zero => rfl
  | succ count ih => simp [claimOutcomes, ih]

theorem writeRecord_effect (record : ManagedX11GrantRecord) :
    Ensures (fun _ => True) (writeRecord env record)
      (fun _ t => env.write s.calls = .written ∧ t.calls = s.calls + 1 ∧ t.claims = s.claims ∧
        t.records = Directory.put (·.recordId) record s.records)
      (fun _ t => env.write s.calls ≠ .written ∧ t.claims = s.claims ∧
        t.records = if (env.write s.calls).replaced then Directory.put (·.recordId) record s.records
          else s.records) s := by
  refine ensures_bind (ensures_ask trivial) ?_
  rintro outcome t ⟨rfl, rfl⟩
  refine ensures_bind (ensures_update (R := fun _ t => t.calls = s.calls + 1 ∧ t.claims = s.claims ∧
    t.records = if (env.write s.calls).replaced then Directory.put (·.recordId) record s.records
      else s.records) trivial ⟨rfl, rfl, rfl⟩) ?_
  rintro _ t ⟨hcalls, hclaims, hrecords⟩
  refine ensures_ofExcept ?_ ?_
  · intro _ hok
    cases hw : env.write s.calls with
    | written =>
      rw [hw] at hrecords
      exact ⟨rfl, hcalls, hclaims, hrecords⟩
    | unsynced error => rw [hw] at hok; cases hok
    | rejected error => rw [hw] at hok; cases hok
  · intro e he
    refine ⟨fun hw => ?_, hclaims, hrecords⟩
    rw [hw] at he
    cases he

theorem markRecordPhaseSync_effect {record : ManagedX11GrantRecord} (hr : record ∈ s.records)
    (hd : (s.records.map (·.recordId)).Nodup) :
    Ensures (fun _ => True) (markRecordPhaseSync env record.recordId .revoked)
      (fun _ t => recordOutcome env s.calls = .written ∧ t.calls = s.calls + 2 ∧ t.claims = s.claims ∧
        t.records = Directory.put (·.recordId) record.asRevoked s.records)
      (fun _ t => recordOutcome env s.calls ≠ .written ∧ t.claims = s.claims ∧
        t.records = if (recordOutcome env s.calls).replaced then
          Directory.put (·.recordId) record.asRevoked s.records else s.records) s := by
  have hfound : s.records.find? (·.recordId = record.recordId) = some record := by
    cases hf : s.records.find? (·.recordId = record.recordId) with
    | none =>
      have := List.find?_eq_none.mp hf record hr
      simp at this
    | some found =>
      have hid : found.recordId = record.recordId := by simpa using List.find?_some hf
      rw [Directory.eq_of_name_eq hd (List.mem_of_find?_eq_some hf) hr hid]
  cases hread : env.readRecord s.calls with
  | error error =>
    have houtcome : recordOutcome env s.calls = .rejected error := by
      unfold recordOutcome
      rw [hread]
    rw [houtcome]
    refine ensures_bind (Q := fun _ _ => False) (ensures_bind (ensures_ask trivial) ?_) fun _ _ h => h.elim
    rintro result t ⟨rfl, rfl⟩
    rw [hread]
    exact ensures_fail ⟨by simp, rfl, rfl⟩
  | ok u =>
    have houtcome : recordOutcome env s.calls = env.write (s.calls + 1) := by
      unfold recordOutcome
      rw [hread]
    rw [houtcome]
    refine ensures_bind (Q := fun _ t => t = s.asked) (ensures_bind (ensures_ask trivial) ?_) ?_
    · rintro result t ⟨rfl, rfl⟩
      rw [hread]
      exact ensures_pure rfl
    · rintro _ t rfl
      refine ensures_bind (ensures_read (Q := fun found t => t = s.asked ∧ found = some record) ⟨rfl, hfound⟩) ?_
      rintro found t ⟨rfl, rfl⟩
      exact writeRecord_effect (s := s.asked) record.asRevoked

theorem revokeRecords_effect (records : List ManagedX11GrantRecord) :
    ∀ s : X11State, (s.records.map (·.recordId)).Nodup → (∀ record ∈ records, record ∈ s.records) →
      (records.map (·.recordId)).Nodup →
      Ensures (fun _ => True) (forEach (fun record => markRecordPhaseSync env record.recordId .revoked) records)
        (fun _ t => (∀ outcome ∈ recordOutcomes env s.calls records.length, outcome = .written) ∧
          t.calls = s.calls + 2 * records.length ∧ t.claims = s.claims ∧
          t.records = Directory.putAll (·.recordId) (records.map (·.asRevoked)) s.records)
        (fun _ t => (∃ outcome ∈ recordOutcomes env s.calls records.length, outcome ≠ .written) ∧
          t.claims = s.claims ∧ t.records = Directory.putAll (·.recordId)
            ((records.take (effects (recordOutcomes env s.calls records.length))).map (·.asRevoked)) s.records)
        s := by
  induction records with
  | nil =>
    intro s _ _ _
    refine ensures_pure ⟨?_, rfl, rfl, rfl⟩
    intro outcome ho
    cases ho
  | cons record records ih =>
    intro s hd hsub hn
    obtain ⟨hfresh, hn'⟩ := List.nodup_cons.mp hn
    have hfirst : record ∈ s.records := hsub record List.mem_cons_self
    refine ensures_bind ((markRecordPhaseSync_effect hfirst hd).mono (fun _ _ h => h) ?_) ?_
    · rintro _ t ⟨hne, hclaims, hrecords⟩
      refine ⟨⟨_, List.mem_cons_self, hne⟩, hclaims, ?_⟩
      rw [hrecords, List.length_cons, recordOutcomes, effects_cons hne]
      split <;> rfl
    · rintro _ t ⟨hwritten, hcalls, hclaims, hrecords⟩
      have hd' : (t.records.map (·.recordId)).Nodup := by
        rw [hrecords]
        exact Directory.nodup_put hd
      have hsub' : ∀ other ∈ records, other ∈ t.records := by
        intro other ho
        rw [hrecords]
        refine Directory.mem_put_of_ne (hsub other (List.mem_cons_of_mem _ ho)) fun he => hfresh ?_
        exact List.mem_map.mpr ⟨other, ho, he⟩
      have houtcomes : recordOutcomes env s.calls (record :: records).length =
          .written :: recordOutcomes env t.calls records.length := by
        rw [List.length_cons, recordOutcomes, hwritten, hcalls]
      rw [houtcomes]
      refine (ih t hd' hsub' hn').mono ?_ ?_
      · rintro _ u ⟨hall, hucalls, huclaims, hurecords⟩
        refine ⟨?_, ?_, huclaims.trans hclaims, ?_⟩
        · intro outcome ho
          rcases List.mem_cons.mp ho with rfl | ho
          · rfl
          · exact hall outcome ho
        · rw [hucalls, hcalls, List.length_cons]
          omega
        · rw [hurecords, hrecords]
          rfl
      · rintro _ u ⟨⟨outcome, ho, hne⟩, huclaims, hurecords⟩
        refine ⟨⟨outcome, List.mem_cons_of_mem _ ho, hne⟩, huclaims.trans hclaims, ?_⟩
        rw [hurecords, hrecords]
        rfl

/-- End one claim, the failure of the write included. -/
def endOne (env : Environment) (claim : ManagedX11MachineClaim) : Desktop Unit := do
  let result ← markClaimPhaseSync env true claim .ended
  ofExcept result

theorem endOne_effect {claim : ManagedX11MachineClaim} (hv : claim.validate = .ok ()) :
    Ensures (fun _ => True) (endOne env claim)
      (fun _ t => env.write s.calls = .written ∧ t.calls = s.calls + 1 ∧ t.records = s.records ∧
        t.claims = Directory.put (·.claimId) claim.asEnded s.claims)
      (fun _ t => env.write s.calls ≠ .written ∧ t.records = s.records ∧
        t.claims = if (env.write s.calls).replaced then Directory.put (·.claimId) claim.asEnded s.claims
          else s.claims) s := by
  have hvalid : claim.asEnded.validate = .ok () := validate_phase hv rfl
  have hwrite : ∀ outcome, claimWrite true claim.asEnded outcome =
      (outcome.result.mapError fun error => s!"persist X11 machine claim: {error}", outcome.replaced) := by
    intro outcome
    unfold claimWrite
    rw [hvalid]
    rfl
  refine ensures_bind (ensures_bind (ensures_ask trivial) ?_) (Q := fun result t =>
    result = (claimWrite true claim.asEnded (env.write s.calls)).1 ∧ t.calls = s.calls + 1 ∧
      t.records = s.records ∧ t.claims = if (env.write s.calls).replaced then
        Directory.put (·.claimId) claim.asEnded s.claims else s.claims) ?_
  · rintro outcome t ⟨rfl, rfl⟩
    refine ensures_bind (ensures_update (R := fun _ t => t.calls = s.calls + 1 ∧ t.records = s.records ∧
      t.claims = if (env.write s.calls).replaced then Directory.put (·.claimId) claim.asEnded s.claims
        else s.claims) trivial ⟨rfl, rfl, ?_⟩) fun _ t ht => ensures_pure ⟨rfl, ht⟩
    change (if (claimWrite true claim.asEnded (env.write s.calls)).2 then _ else _) = _
    rw [hwrite]
    rfl
  · rintro result t ⟨rfl, hcalls, hrecords, hclaims⟩
    rw [hwrite]
    refine ensures_ofExcept ?_ ?_
    · intro _ hok
      cases hw : env.write s.calls with
      | written =>
        rw [hw] at hclaims
        exact ⟨rfl, hcalls, hrecords, hclaims⟩
      | unsynced error => rw [hw] at hok; cases hok
      | rejected error => rw [hw] at hok; cases hok
    · intro e he
      refine ⟨fun hw => ?_, hrecords, hclaims⟩
      rw [hw] at he
      cases he

theorem endClaims_effect (claims : List ManagedX11MachineClaim) :
    ∀ s : X11State, (∀ claim ∈ claims, claim.validate = .ok ()) →
      Ensures (fun _ => True) (forEach (endOne env) claims)
        (fun _ t => t.records = s.records ∧ t.claims = Directory.putAll (·.claimId)
          ((claims.take (effects (claimOutcomes env s.calls claims.length))).map (·.asEnded)) s.claims)
        (fun _ t => t.records = s.records ∧ t.claims = Directory.putAll (·.claimId)
          ((claims.take (effects (claimOutcomes env s.calls claims.length))).map (·.asEnded)) s.claims) s := by
  induction claims with
  | nil =>
    intro s _
    exact ensures_pure ⟨rfl, rfl⟩
  | cons claim claims ih =>
    intro s hv
    refine ensures_bind ((endOne_effect (hv claim List.mem_cons_self)).mono (fun _ _ h => h) ?_) ?_
    · rintro _ t ⟨hne, hrecords, hclaims⟩
      refine ⟨hrecords, ?_⟩
      rw [hclaims, List.length_cons, claimOutcomes, effects_cons hne]
      split <;> rfl
    · rintro _ t ⟨hwritten, hcalls, hrecords, hclaims⟩
      have houtcomes : claimOutcomes env s.calls (claim :: claims).length =
          .written :: claimOutcomes env t.calls claims.length := by
        rw [List.length_cons, claimOutcomes, hwritten, hcalls]
      rw [houtcomes]
      have hrest : ∀ u : X11State, u.records = t.records ∧ u.claims = Directory.putAll (·.claimId)
          ((claims.take (effects (claimOutcomes env t.calls claims.length))).map (·.asEnded)) t.claims →
          u.records = s.records ∧ u.claims = Directory.putAll (·.claimId) (((claim :: claims).take
            (effects (.written :: claimOutcomes env t.calls claims.length))).map (·.asEnded)) s.claims := by
        rintro u ⟨hurecords, huclaims⟩
        rw [huclaims, hclaims]
        exact ⟨hurecords.trans hrecords, rfl⟩
      exact (ih t fun other ho => hv other (List.mem_cons_of_mem _ ho)).mono (fun _ => hrest) fun _ => hrest

/-- A sequence of record writes, then claim writes. -/
theorem finalized_of_sequence {records : List ManagedX11GrantRecord} {claims : List ManagedX11MachineClaim}
    {recordOuts claimOuts : List WriteOutcome} {t : X11State} (hlength : recordOuts.length = records.length)
    (hrecords : (∃ outcome ∈ recordOuts, outcome ≠ .written) ∧ t.claims = s.claims ∧
        t.records = Directory.putAll (·.recordId) ((records.take (effects recordOuts)).map (·.asRevoked)) s.records ∨
      (∀ outcome ∈ recordOuts, outcome = .written) ∧
        t.records = Directory.putAll (·.recordId) (records.map (·.asRevoked)) s.records ∧
        t.claims = Directory.putAll (·.claimId) ((claims.take (effects claimOuts)).map (·.asEnded)) s.claims) :
    Finalized records claims s (effects (recordOuts ++ claimOuts)) t := by
  rcases hrecords with ⟨hstopped, hclaims, hrecords⟩ | ⟨hwritten, hrecords, hclaims⟩
  · have hle : effects recordOuts ≤ records.length := hlength ▸ effects_le recordOuts
    rw [effects_stopped hstopped]
    refine ⟨hrecords, ?_⟩
    rw [hclaims, Nat.sub_eq_zero_of_le hle]
    rfl
  · rw [effects_written hwritten, hlength]
    refine ⟨?_, ?_⟩
    · rw [hrecords, List.take_of_length_le (Nat.le_add_right _ _)]
    · rw [hclaims, Nat.add_sub_cancel_left]

end Files

/-- The claims of a record are ended after they have been read again. -/
def revocationOutcomes (env : Environment) (n count : ℕ) : List WriteOutcome :=
  match env.readClaims (n + 1) with
  | .ok () => claimOutcomes env (n + 2) count
  | .error error => [.rejected error]

/-- The two places where a confirmed removal is finalized. -/
inductive Finalization
  | byPass (pass : Pass) (group : ReconcileGroup) (records : List ManagedX11GrantRecord) (progress : Progress)
  | byRevocation (available : Bool) (claims : List ManagedX11MachineClaim) (record : ManagedX11GrantRecord)
    (unfinalized unended : String → String)

namespace Finalization

def run (env : Environment) : Finalization → Desktop Unit
  | .byPass pass group records progress => do
    let _ ← finishGroup env pass group records progress
    return ()
  | .byRevocation available claims record unfinalized unended =>
    finishRevocation env available claims record unfinalized unended

/-- The record files it writes, in order. -/
def records : Finalization → List ManagedX11GrantRecord
  | .byPass _ _ records _ => records
  | .byRevocation _ _ record _ _ => [record]

/-- The claim files it writes, in order. -/
def claims : Finalization → List ManagedX11MachineClaim
  | .byPass pass group _ _ => group.claims.filterMap fun member => (pass.catalogClaim member).toOption
  | .byRevocation _ claims record _ _ => unresolvedClaims claims record.recordId

/-- How the writes end, from question `n` on. A file that cannot be read before
it is written counts as a write that was rejected. -/
def outcomes (env : Environment) (n : ℕ) (finalization : Finalization) : List WriteOutcome :=
  match finalization with
  | .byPass .. => recordOutcomes env n finalization.records.length ++
      claimOutcomes env (n + 2 * finalization.records.length) finalization.claims.length
  | .byRevocation .. =>
    [env.write n] ++
      if finalization.claims.isEmpty then [] else revocationOutcomes env n finalization.claims.length

/-- What has been loaded when the finalization starts. -/
def Loaded (s : X11State) : Finalization → Prop
  | .byPass pass group _ _ => pass.available = true ∧ ∀ member ∈ group.claims, ∃ claim, pass.catalogClaim member = .ok claim
  | .byRevocation available claims _ _ _ =>
    claims = s.listedClaims available ∧ s.claims.length ≤ maxMachineClaims

end Finalization


section Effect

variable {env : Environment} {s : X11State}

theorem forEach_markEnded {pass : Pass} (havailable : pass.available = true) (members : List ReconcileClaim)
    (hm : ∀ member ∈ members, ∃ claim, pass.catalogClaim member = .ok claim) :
    forEach (markEnded env pass) members =
      forEach (endOne env) (members.filterMap fun member => (pass.catalogClaim member).toOption) := by
  induction members with
  | nil => rfl
  | cons member members ih =>
    obtain ⟨claim, hc⟩ := hm member List.mem_cons_self
    have hone : markEnded env pass member = endOne env claim := by
      unfold markEnded markMember
      rw [hc, havailable]
      rfl
    have hfiles : ((member :: members).filterMap fun member => (pass.catalogClaim member).toOption) =
        claim :: members.filterMap fun member => (pass.catalogClaim member).toOption := by
      rw [List.filterMap_cons, hc]
      rfl
    rw [hfiles, forEach, forEach, hone, ih fun other ho => hm other (List.mem_cons_of_mem _ ho)]

/-- Ending the claims of a record passes over the others. -/
theorem forEach_endClaim (recordId : String) (claims : List ManagedX11MachineClaim) :
    forEach (endClaim env true recordId) claims = forEach (endOne env) (unresolvedClaims claims recordId) := by
  induction claims with
  | nil => rfl
  | cons claim claims ih =>
    unfold unresolvedClaims at ih ⊢
    rw [List.filter_cons, forEach]
    by_cases h : claim.grantRecordId = recordId ∧ claim.phase.requiresReconcile
    · rw [if_pos (by simpa using h), forEach, ih]
      unfold endClaim
      rw [if_pos h]
      rfl
    · rw [if_neg (by simpa using h)]
      unfold endClaim
      rw [if_neg h]
      exact ih

theorem endClaims_of_record {n : ℕ} (recordId : String) (hfew : s.claims.length ≤ maxMachineClaims)
    (hv : ∀ claim ∈ unresolvedClaims (Directory.list (·.claimId) s.claims) recordId, claim.validate = .ok ())
    (hn : s.calls = n + 1) :
    Ensures (fun _ => True) (endClaims env true recordId)
      (fun _ t => t.records = s.records ∧ t.claims = Directory.putAll (·.claimId)
        (((unresolvedClaims (Directory.list (·.claimId) s.claims) recordId).take (effects (revocationOutcomes env n
          (unresolvedClaims (Directory.list (·.claimId) s.claims) recordId).length))).map (·.asEnded)) s.claims)
      (fun _ t => t.records = s.records ∧ t.claims = Directory.putAll (·.claimId)
        (((unresolvedClaims (Directory.list (·.claimId) s.claims) recordId).take (effects (revocationOutcomes env n
          (unresolvedClaims (Directory.list (·.claimId) s.claims) recordId).length))).map (·.asEnded)) s.claims)
      s := by
  unfold revocationOutcomes
  refine ensures_bind (ensures_bind (ensures_ask trivial) ?_) (Q := fun catalog t => t = s.asked ∧
    catalog = catalogOf (·.claimId) maxMachineClaims (fun excess =>
        s!"X11 machine claim count exceeded {maxMachineClaims}; {excess} claims were not read")
        (env.readClaims (n + 1)) s.claims) ?_
  · rintro answer t ⟨rfl, rfl⟩
    rw [hn]
    exact ensures_read ⟨rfl, rfl⟩
  · rintro catalog t ⟨rfl, rfl⟩
    cases env.readClaims (n + 1) with
    | error error => exact ensures_fail ⟨rfl, rfl⟩
    | ok u =>
      unfold catalogOf
      dsimp only
      rw [if_neg (Nat.not_lt.mpr hfew)]
      unfold Catalog.require
      rw [if_pos rfl, ofExcept_ok_bind, forEach_endClaim]
      have hloop : Ensures (fun _ => True) (forEach (endOne env) _) _ _ s.asked := endClaims_effect _ s.asked hv
      rw [show s.asked.calls = n + 2 by rw [X11State.asked, hn]] at hloop
      exact hloop

theorem finishGroup_effect (hd : (s.records.map (·.recordId)).Nodup) {pass : Pass} {group : ReconcileGroup}
    {records : List ManagedX11GrantRecord}
    (progress : Progress) (havailable : pass.available = true)
    (hcatalog : ∀ member ∈ group.claims, ∃ claim, pass.catalogClaim member = .ok claim)
    (hr : ∀ record ∈ records, record ∈ s.records) (hn : (records.map (·.recordId)).Nodup)
    (hv : ∀ claim ∈ Finalization.claims (.byPass pass group records progress), claim.validate = .ok ()) :
    Ensures (fun _ => True) (finishGroup env pass group records progress)
      (fun _ t => Finalized records (Finalization.claims (.byPass pass group records progress)) s
        (effects (Finalization.outcomes env s.calls (.byPass pass group records progress))) t)
      (fun _ t => Finalized records (Finalization.claims (.byPass pass group records progress)) s
        (effects (Finalization.outcomes env s.calls (.byPass pass group records progress))) t) s := by
  refine ensures_bind ((revokeRecords_effect records s hd hr hn).mono (fun _ _ h => h) ?_) ?_
  · rintro _ t ⟨hstopped, hclaims, hrecords⟩
    exact finalized_of_sequence (length_recordOutcomes _ _) (.inl ⟨hstopped, hclaims, hrecords⟩)
  · rintro _ t ⟨hwritten, hcalls, hclaims, hrecords⟩
    rw [forEach_markEnded havailable group.claims hcatalog]
    have hclosed : ∀ u : X11State, u.records = t.records ∧ u.claims = Directory.putAll (·.claimId)
        (((Finalization.claims (.byPass pass group records progress)).take (effects (claimOutcomes env t.calls
          (Finalization.claims (.byPass pass group records progress)).length))).map (·.asEnded)) t.claims →
        Finalized records (Finalization.claims (.byPass pass group records progress)) s
          (effects (Finalization.outcomes env s.calls (.byPass pass group records progress))) u := by
      rintro u ⟨hurecords, huclaims⟩
      refine finalized_of_sequence (length_recordOutcomes _ _) (.inr ⟨hwritten, hurecords.trans hrecords, ?_⟩)
      rw [huclaims, hclaims, hcalls]
      rfl
    exact ensures_bind ((endClaims_effect _ t hv).mono (fun _ => hclosed) fun _ => hclosed)
      fun _ t ht => ensures_pure ht

theorem finishRevocation_effect {available : Bool} {claims : List ManagedX11MachineClaim}
    {record : ManagedX11GrantRecord} (unfinalized unended : String → String)
    (hclaims : claims = s.listedClaims available) (hfew : s.claims.length ≤ maxMachineClaims)
    (hv : ∀ claim ∈ unresolvedClaims claims record.recordId, claim.validate = .ok ()) :
    Ensures (fun _ => True) (finishRevocation env available claims record unfinalized unended)
      (fun _ t => Finalized [record] (unresolvedClaims claims record.recordId) s (effects
        (Finalization.outcomes env s.calls (.byRevocation available claims record unfinalized unended))) t)
      (fun _ t => Finalized [record] (unresolvedClaims claims record.recordId) s (effects
        (Finalization.outcomes env s.calls (.byRevocation available claims record unfinalized unended))) t) s := by
  refine ensures_bind (ensures_mapFailure ((writeRecord_effect record.asRevoked).mono (fun _ _ h => h) ?_)) ?_
  · rintro _ t ⟨hne, htclaims, htrecords⟩
    have hone : effects [env.write s.calls] = if (env.write s.calls).replaced then 1 else 0 := effects_cons hne
    refine finalized_of_sequence rfl (.inl ⟨⟨_, List.mem_singleton_self _, hne⟩, htclaims, ?_⟩)
    rw [htrecords, hone]
    split <;> rfl
  · rintro _ t ⟨hwritten, hcalls, htclaims, htrecords⟩
    have hfirst : ∀ outcome ∈ [env.write s.calls], outcome = .written := by
      intro outcome ho
      rw [List.mem_singleton.mp ho]
      exact hwritten
    refine ensures_onlyIf (fun hsome => ?_) fun hnone => ?_
    · have hne : (unresolvedClaims claims record.recordId).isEmpty = false := by simpa using hsome
      have havailable : available = true := by
        cases available with
        | true => rfl
        | false =>
          rw [hclaims] at hne
          cases hne
      subst havailable
      have houtcomes : (Finalization.byRevocation true claims record unfinalized unended).outcomes env s.calls =
          [env.write s.calls] ++ revocationOutcomes env s.calls (unresolvedClaims claims record.recordId).length := by
        unfold Finalization.outcomes
        dsimp only
        rw [show (Finalization.byRevocation true claims record unfinalized unended).claims.isEmpty = false from hne]
        rfl
      rw [houtcomes]
      have hloaded : claims = Directory.list (·.claimId) t.claims := by
        rw [hclaims, htclaims]
        rfl
      have hclosed : ∀ u : X11State, u.records = t.records ∧ u.claims = Directory.putAll (·.claimId)
          (((unresolvedClaims claims record.recordId).take (effects (revocationOutcomes env s.calls
            (unresolvedClaims claims record.recordId).length))).map (·.asEnded)) t.claims →
          Finalized [record] (unresolvedClaims claims record.recordId) s (effects ([env.write s.calls] ++
            revocationOutcomes env s.calls (unresolvedClaims claims record.recordId).length)) u := by
        rintro u ⟨hurecords, huclaims⟩
        refine finalized_of_sequence rfl (.inr ⟨hfirst, hurecords.trans htrecords, ?_⟩)
        rw [huclaims, htclaims]
      rw [hloaded] at hclosed hv ⊢
      refine ensures_mapFailure ((endClaims_of_record record.recordId (htclaims ▸ hfew) hv hcalls).mono
        (fun _ => hclosed) fun _ => hclosed)
    · refine finalized_of_sequence rfl (.inr ⟨hfirst, htrecords, ?_⟩)
      have hempty : unresolvedClaims claims record.recordId = [] := by
        have h : (unresolvedClaims claims record.recordId).isEmpty = true := by simpa using hnone
        exact List.isEmpty_iff.mp h
      rw [htclaims, hempty, List.take_nil]
      rfl

/-- A finalization replaces its files in order, as far as its writes go. -/
theorem Finalization.run_effect (finalization : Finalization) (hl : finalization.Loaded s)
    (hd : (s.records.map (·.recordId)).Nodup) (hr : ∀ record ∈ finalization.records, record ∈ s.records)
    (hn : (finalization.records.map (·.recordId)).Nodup)
    (hv : ∀ claim ∈ finalization.claims, claim.validate = .ok ()) :
    Finalized finalization.records finalization.claims s (effects (finalization.outcomes env s.calls))
      (finalization.run env s).state := by
  have hend : Ensures (fun _ => True) (finalization.run env)
      (fun _ t => Finalized finalization.records finalization.claims s
        (effects (finalization.outcomes env s.calls)) t)
      (fun _ t => Finalized finalization.records finalization.claims s
        (effects (finalization.outcomes env s.calls)) t) s := by
    cases finalization with
    | byPass pass group records progress =>
      exact ensures_bind (finishGroup_effect hd progress hl.1 hl.2 hr hn hv) fun _ t ht => ensures_pure ht
    | byRevocation available claims record unfinalized unended =>
      exact finishRevocation_effect unfinalized unended hl.1 hl.2 hv
  cases hresult : (finalization.run env s).result with
  | ok a => exact hend.returned a hresult
  | error e => exact hend.failed e hresult

end Effect

end Lasper.X11
