import Lasper.X11.Evidence

/-! One observation of a claim: what it says about the registration and the
clock, and what storing its transition does to the evidence. -/

namespace Lasper.X11

open Lib Traced

/-- A valid claim stays valid in every valid phase. -/
theorem validate_phase {claim : ManagedX11MachineClaim} {phase : MachineClaimPhase}
    (h : claim.validate = .ok ()) (hp : ManagedX11MachineClaim.validatePhase phase = .ok ()) :
    ManagedX11MachineClaim.validate { claim with phase } = .ok () := by
  unfold ManagedX11MachineClaim.validate at h ⊢
  split at h
  · cases h
  · rename_i hids
    rw [if_neg hids]
    cases hi : claim.machineInstance with
    | error error => rw [hi] at h; cases h
    | ok instance_ =>
      rw [hi] at h
      have hsame : ManagedX11MachineClaim.machineInstance { claim with phase } = .ok instance_ := hi
      rw [hsame]
      cases hk : claim.key.validate with
      | error error => rw [hk] at h; cases h
      | ok u => exact hp

section Observation

variable {claim : ManagedX11MachineClaim} {bootId : String} {registration : SystemMachineRegistration}
  {now since : ℕ} {observation : MachineClaimObservation} {phase : MachineClaimPhase}

theorem observeMachineClaim_of_unresolved (bootId : String) (registration : SystemMachineRegistration)
    (now : ℕ) (h : claim.phase ≠ .ended) :
    ∃ observation, observeMachineClaim claim (some bootId) registration now = some observation := by
  unfold observeMachineClaim
  split
  · exact absurd ‹_› h
  · exact ⟨_, rfl⟩
  · split
    · exact ⟨_, rfl⟩
    · exact ⟨_, rfl⟩
  · exact ⟨_, rfl⟩
  · exact ⟨_, rfl⟩

/-- A pending claim is left alone only by an absence. -/
theorem absent_of_pending (h : observeMachineClaim claim (some bootId) registration now = some observation)
    (hn : observation.nextPhase claim now = none) (hp : claim.phase = .cleanupPending since) :
    registration = .absent := by
  unfold observeMachineClaim at h
  rw [hp] at h
  simp only [checkBoot, Option.some.injEq] at h
  split_ifs at h
  · subst h
    simp [MachineClaimObservation.nextPhase, MachineClaimObservation.proposedPhase, hp] at hn
  · subst h
    cases registration with
    | absent => rfl
    | present leaderPid observed =>
      simp [observePending, MachineClaimObservation.nextPhase, MachineClaimObservation.proposedPhase,
        hp] at hn
    | unknown reason =>
      simp [observePending, MachineClaimObservation.nextPhase, MachineClaimObservation.proposedPhase,
        hp] at hn

theorem endedCandidate_of_pending (hn : observation.nextPhase claim now = some (.cleanupPending since)) :
    observation = .endedCandidate ∧ since = now := by
  obtain ⟨hp, -⟩ := Option.filter_eq_some_iff.mp hn
  cases observation with
  | endedCandidate =>
    simp only [MachineClaimObservation.proposedPhase, Option.some.injEq,
      MachineClaimPhase.cleanupPending.injEq] at hp
    exact ⟨rfl, hp.symm⟩
  | _ => simp [MachineClaimObservation.proposedPhase] at hp

theorem checkBoot_eq {o o' : MachineClaimObservation} (h : checkBoot claim (some bootId) o = o')
    (hr : ∀ reason, o' ≠ .needsReview reason) : claim.bootId = bootId ∧ o = o' := by
  simp only [checkBoot] at h
  split_ifs at h with hb
  · exact absurd h.symm (hr _)
  · exact ⟨not_not.mp hb, h⟩

theorem observeActive_endedCandidate (h : observeActive claim registration = .endedCandidate) :
    registration = .absent := by
  unfold observeActive at h
  split at h
  · split_ifs at h
  · split_ifs at h
  · rfl
  · cases h

/-- Only an absence starts the grace period, and it starts now. -/
theorem absent_of_next_pending
    (h : observeMachineClaim claim (some bootId) registration now = some observation)
    (hn : observation.nextPhase claim now = some (.cleanupPending since)) :
    registration = .absent ∧ since = now := by
  obtain ⟨rfl, hs⟩ := endedCandidate_of_pending hn
  refine ⟨?_, hs⟩
  unfold observeMachineClaim at h
  split at h
  · cases h
  · cases h
  · split_ifs at h
    · exact observeActive_endedCandidate (checkBoot_eq (Option.some.inj h) (by simp)).2
    · cases h
  · exact observeActive_endedCandidate (checkBoot_eq (Option.some.inj h) (by simp)).2
  · have hp := (checkBoot_eq (Option.some.inj h) (by simp)).2
    unfold observePending at hp
    split at hp
    · cases hp
    · split_ifs at hp
    · cases hp

/-- What it takes for a claim to be ready for cleanup. -/
theorem ready_observation
    (h : observeMachineClaim claim (some bootId) registration now = some .cleanupReady) :
    ∃ since, claim.phase = .cleanupPending since ∧ claim.bootId = bootId ∧ registration = .absent ∧
      since + claimReconcileGraceMillis ≤ now := by
  have hactive : ∀ r, observeActive claim r ≠ .cleanupReady := by
    intro r hr
    unfold observeActive at hr
    split at hr
    · split_ifs at hr
    · split_ifs at hr
    · cases hr
    · cases hr
  unfold observeMachineClaim at h
  split at h
  · cases h
  · cases h
  · split_ifs at h
    · exact absurd (checkBoot_eq (Option.some.inj h) (by simp)).2 (hactive _)
    · cases h
  · exact absurd (checkBoot_eq (Option.some.inj h) (by simp)).2 (hactive _)
  · rename_i since hp
    obtain ⟨hb, ho⟩ := checkBoot_eq (Option.some.inj h) (by simp)
    refine ⟨since, hp, hb, ?_⟩
    unfold observePending at ho
    split at ho
    · cases ho
    · split_ifs at ho with hg
      refine ⟨rfl, ?_⟩
      simp only [claimReconcileGraceMillis, ge_iff_le] at hg ⊢
      omega
    · cases ho

end Observation

/-- The log shows that the claim may be cleaned up in this boot. -/
def Ready (bootId : String) (log : List Event) (claim : ManagedX11MachineClaim) : Prop :=
  ∃ since, claim.phase = .cleanupPending since ∧ claim.bootId = bootId ∧
    AbsentTwice log claim.claimId since

theorem Ready.observed {bootId : String} {log : List Event} {claim : ManagedX11MachineClaim}
    {claimId : String} {registration : SystemMachineRegistration} {now : ℕ} {stored : Bool}
    (h : Ready bootId log claim) (hn : claim.claimId ≠ claimId) :
    Ready bootId (log ++ [.observed claimId registration now stored]) claim := by
  obtain ⟨since, hp, hb, ht⟩ := h
  refine ⟨since, hp, hb, ht.append ?_⟩
  intro event he hd
  rw [List.mem_singleton.mp he] at hd
  exact hn hd.1.symm

section Transition

variable {env : Environment} {s : X11State} {P : List ManagedX11MachineClaim → List Event → Prop}

/-- Asking a question changes neither the claims nor the log. -/
theorem ask_holds {α : Type} (answer : ℕ → α) (hs : s.Sound) (hP : P s.claims s.log) :
    Ensures X11State.Sound (ask answer) (fun _ t => t.Sound ∧ P t.claims t.log)
      (fun _ => X11State.Sound) s :=
  (ask_keeps (P := fun claims log => Sound claims log ∧ P claims log) answer s ⟨hs, hP⟩).weaken
    (fun _ ht => ht.1) (fun _ _ ht => ht) fun _ _ ht => ht.1

theorem askResult_holds {α : Type} (answer : ℕ → Except String α) (hs : s.Sound)
    (hP : P s.claims s.log) :
    Ensures X11State.Sound (askResult answer) (fun _ t => t.Sound ∧ P t.claims t.log)
      (fun _ => X11State.Sound) s :=
  (askResult_keeps (P := fun claims log => Sound claims log ∧ P claims log) answer s ⟨hs, hP⟩).weaken
    (fun _ ht => ht.1) (fun _ _ ht => ht) fun _ _ ht => ht.1

/-- What storing one observation does to the claims. -/
structure Stored (claim : ManagedX11MachineClaim) (claims : List ManagedX11MachineClaim)
    (log : List Event) (t : X11State) : Prop where
  sound : t.Sound
  logged : ∃ registration now stored,
    t.log = log ++ [.observed claim.claimId registration now stored]
  written : t.claims = claims ∨
    ∃ phase, t.claims = Directory.put (·.claimId) { claim with phase } claims

variable {claim : ManagedX11MachineClaim} {bootId : String} {registration : SystemMachineRegistration}
  {now : ℕ} {available : Bool} {observation : MachineClaimObservation}

theorem storeTransition_none (hs : s.Sound) (hc : claim ∈ s.claims)
    (ha : ∀ since, claim.phase = .cleanupPending since → registration = .absent) :
    Ensures X11State.Sound (storeTransition env available claim registration now none)
      (fun _ t => Stored claim s.claims s.log t ∧ t.claims = s.claims ∧
        t.log = s.log ++ [.observed claim.claimId registration now true])
      (fun _ => X11State.Sound) s := by
  have hsound : Sound s.claims (s.log ++ [.observed claim.claimId registration now true]) :=
    Sound.observed hs hc ha
  have hupdate : Ensures X11State.Sound
      (update fun u => { u with log := u.log ++ [.observed claim.claimId registration now true] } :
        Desktop Unit)
      (fun _ t => Stored claim s.claims s.log t ∧ t.claims = s.claims ∧
        t.log = s.log ++ [.observed claim.claimId registration now true])
      (fun _ => X11State.Sound) s :=
    ensures_update hsound ⟨⟨hsound, ⟨_, _, _, rfl⟩, .inl rfl⟩, rfl, rfl⟩
  exact ensures_bind hupdate fun _ t ht => ensures_pure ht

theorem storeTransition_some {phase : MachineClaimPhase} (hs : s.Sound)
    (ha : ∀ since, phase = .cleanupPending since → registration = .absent ∧ since = now) :
    Ensures X11State.Sound (storeTransition env available claim registration now (some phase))
      (fun _ t => Stored claim s.claims s.log t) (fun _ => X11State.Sound) s := by
  have hasked := ask_holds (P := fun claims log => claims = s.claims ∧ log = s.log) env.write hs ⟨rfl, rfl⟩
  refine ensures_bind hasked ?_
  rintro outcome t ⟨ht, hclaims, hlog⟩
  have hstored : Stored claim s.claims s.log { t with
      claims := if (claimWrite available { claim with phase } outcome).2 then
        Directory.put (·.claimId) { claim with phase } t.claims else t.claims
      log := t.log ++ [.observed claim.claimId registration now
        (claimWrite available { claim with phase } outcome).2] } := by
    refine ⟨?_, ⟨registration, now, _, by rw [hlog]⟩, ?_⟩
    · show Sound _ _
      cases (claimWrite available { claim with phase } outcome).2 with
      | true => exact Sound.stored ht ha
      | false => exact Sound.unstored ht
    · cases (claimWrite available { claim with phase } outcome).2 with
      | true => exact .inr ⟨phase, by rw [← hclaims]; rfl⟩
      | false => exact .inl hclaims
  refine ensures_bind (ensures_update hstored.sound hstored) fun _ u hu => ensures_pure hu

/-- One observation of a claim that stands in the store. -/
theorem reconcileClaim_spec (hs : s.Sound) (hc : claim ∈ s.claims) (hp : claim.phase ≠ .ended) :
    Ensures X11State.Sound (reconcileClaim env available claim bootId registration now)
      (fun status t => ∃ st, status = some st ∧ Stored claim s.claims s.log t ∧
        (st = .ready → t.claims = s.claims ∧ Ready bootId t.log claim))
      (fun _ => X11State.Sound) s := by
  obtain ⟨observation, ho⟩ := observeMachineClaim_of_unresolved bootId registration now hp
  unfold reconcileClaim
  rw [ho]
  dsimp only
  cases hn : observation.nextPhase claim now with
  | some phase =>
    have ha : ∀ since, phase = .cleanupPending since → registration = .absent ∧ since = now := by
      rintro since rfl
      exact absent_of_next_pending ho hn
    refine ensures_bind (storeTransition_some hs ha) ?_
    rintro result t ht
    cases result with
    | error error => exact ensures_pure ⟨_, rfl, ht, fun h => by cases h⟩
    | ok _ =>
      refine ensures_pure ⟨_, rfl, ht, ?_⟩
      intro hr
      cases observation with
      | cleanupReady => cases hn
      | _ => cases hr
  | none =>
    have ha : ∀ since, claim.phase = .cleanupPending since → registration = .absent :=
      fun since => absent_of_pending ho hn
    refine ensures_bind (storeTransition_none hs hc ha) ?_
    rintro result t ⟨ht, hclaims, hlog⟩
    cases result with
    | error error => exact ensures_pure ⟨_, rfl, ht, fun h => by cases h⟩
    | ok _ =>
      refine ensures_pure ⟨_, rfl, ht, ?_⟩
      intro hr
      refine ⟨hclaims, ?_⟩
      cases observation with
      | cleanupReady =>
        obtain ⟨since, hpend, hb, rfl, hg⟩ := ready_observation ho
        have habsent : AbsentSince s.log claim.claimId since := hs.backed claim hc since hpend
        exact ⟨since, hpend, hb, by rw [hlog]; exact habsent.again hg⟩
      | _ => cases hr

end Transition

end Lasper.X11
