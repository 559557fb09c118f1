import Lasper.Provisioning.Unresolved

/-! The release of one unresolved claim. Whatever calls are made, a claim is in one of
a few stages, and only one call at a time takes it further. -/

namespace Lasper.Provisioning.Unresolved

open Lib Operations
open Jobs (DeploymentError)

variable {debugText : ResourceKey → String} {s t : System} {action : Action} {actions : List Action}
  {id : DeploymentId} {n : ℕ} {phase : ReleasePhase} {claim : RetainedDeploymentClaim}
  {claims : UnresolvedClaims}

/-- A call for this claim has returned without an error. -/
def System.Released (s : System) (id : DeploymentId) : Prop :=
  ∃ n, s.calls.lookup n = some ⟨id, .returned (.ok ())⟩

/-- The calls for this claim that have not returned are among these. -/
def System.Active (s : System) (id : DeploymentId) (calls : Option ℕ) : Prop :=
  ∀ n phase, s.calls.lookup n = some ⟨id, phase⟩ → phase.active = true → n ∈ calls

/-- What can be said of one claim at any time. -/
inductive Stage (s : System) (id : DeploymentId) : Prop
  | unseen (fresh : s.retained.lookup id = none) (gone : s.unresolved.lookup id = none)
      (active : s.Active id none) (waiting : ¬ s.Released id)
  | free {claim : RetainedDeploymentClaim} (seen : s.retained.lookup id = some claim.reservation)
      (held : s.unresolved.lookup id = some claim) (idle : claim.releaseInProgress = false)
      (active : s.Active id none) (waiting : ¬ s.Released id)
  | busy {n : ℕ} {phase : ReleasePhase} {claim : RetainedDeploymentClaim}
      (seen : s.retained.lookup id = some claim.reservation) (held : s.unresolved.lookup id = some claim)
      (flagged : claim.releaseInProgress = true) (call : s.calls.lookup n = some ⟨id, phase⟩)
      (running : phase.running = true) (asks : phase.asks = true → claim.authorityReleased = false)
      (active : s.Active id (some n)) (waiting : ¬ s.Released id)
  | taken {n : ℕ} {claim : RetainedDeploymentClaim} (seen : s.retained.lookup id = some claim.reservation)
      (gone : s.unresolved.lookup id = none) (call : s.calls.lookup n = some ⟨id, .dropping claim⟩)
      (active : s.Active id (some n)) (waiting : ¬ s.Released id)
  | released {grant : Grant} (seen : s.retained.lookup id = some grant) (gone : s.unresolved.lookup id = none)
      (active : s.Active id none) (released : s.Released id)

section Updates

variable {change : RetainedDeploymentClaim → RetainedDeploymentClaim}

theorem lookup_update (claims : UnresolvedClaims) (id other : DeploymentId) :
    (update change claims id).lookup other =
      if other = id then (claims.lookup id).map change else claims.lookup other := by
  unfold update
  cases hl : claims.lookup id with
  | none =>
    by_cases ho : other = id
    · subst ho
      simp [hl]
    · simp [ho]
  | some claim =>
    rw [Table.lookup_insert_ite]
    rfl

theorem beginRelease_eq (claims : UnresolvedClaims) (id : DeploymentId) (confirmed : Bool) :
    (∃ error, beginRelease claims id confirmed = (.error error, claims)) ∨
      ∃ claim, claims.lookup id = some claim ∧ claim.releaseInProgress = false ∧ confirmed = true ∧
        beginRelease claims id confirmed =
          (.ok !claim.authorityReleased, claims.insert id { claim with releaseInProgress := true }) := by
  unfold beginRelease
  cases confirmed with
  | false => exact .inl ⟨_, rfl⟩
  | true =>
    cases hl : claims.lookup id with
    | none => exact .inl ⟨_, rfl⟩
    | some claim =>
      simp only [Bool.not_true, Bool.false_eq_true, if_false]
      by_cases hp : claim.releaseInProgress = true
      · exact .inl ⟨_, if_pos hp⟩
      · exact .inr ⟨claim, rfl, by simpa using hp, trivial, if_neg hp⟩

end Updates

section Frames

theorem System.lookup_setCall (s : System) (n m : ℕ) (id : DeploymentId) (phase : ReleasePhase) :
    (s.setCall n id phase).calls.lookup m = if m = n then some ⟨id, phase⟩ else s.calls.lookup m :=
  Table.lookup_insert_ite _ _ _ _

/-- A step leaves the stage of a claim whose entries it does not touch, and of whose calls
it only adds some that have failed. -/
theorem Stage.mono (h : Stage s id) (hretained : t.retained.lookup id = s.retained.lookup id)
    (hunresolved : t.unresolved.lookup id = s.unresolved.lookup id)
    (hactive : ∀ calls, s.Active id calls → t.Active id calls) (hreleased : t.Released id ↔ s.Released id)
    (hcalls : ∀ m phase, s.calls.lookup m = some ⟨id, phase⟩ → t.calls.lookup m = some ⟨id, phase⟩) : Stage t id := by
  cases h with
  | unseen fresh gone active waiting =>
    exact .unseen (hretained.trans fresh) (hunresolved.trans gone) (hactive _ active) (mt hreleased.mp waiting)
  | free seen held idle active waiting =>
    exact .free (hretained.trans seen) (hunresolved.trans held) idle (hactive _ active) (mt hreleased.mp waiting)
  | busy seen held flagged call running asks active waiting =>
    exact .busy (hretained.trans seen) (hunresolved.trans held) flagged (hcalls _ _ call) running asks
      (hactive _ active) (mt hreleased.mp waiting)
  | taken seen gone call active waiting =>
    exact .taken (hretained.trans seen) (hunresolved.trans gone) (hcalls _ _ call) (hactive _ active)
      (mt hreleased.mp waiting)
  | released seen gone active released =>
    exact .released (hretained.trans seen) (hunresolved.trans gone) (hactive _ active) (hreleased.mpr released)

theorem Stage.congr (h : Stage s id) (hretained : t.retained.lookup id = s.retained.lookup id)
    (hunresolved : t.unresolved.lookup id = s.unresolved.lookup id)
    (hcalls : ∀ m phase, t.calls.lookup m = some ⟨id, phase⟩ ↔ s.calls.lookup m = some ⟨id, phase⟩) :
    Stage t id := by
  apply h.mono hretained hunresolved
  · intro calls h m phase hm
    exact h m phase ((hcalls m phase).mp hm)
  · exact exists_congr fun m => hcalls m _
  · intro m phase hm
    exact (hcalls m phase).mpr hm

/-- A call for one claim does not show in the stage of another. -/
theorem Stage.other (h : Stage s id) {other : DeploymentId} (hother : id ≠ other)
    (hcall : ∀ call, s.calls.lookup n = some call → call.id = other)
    (hretained : t.retained.lookup id = s.retained.lookup id)
    (hunresolved : t.unresolved.lookup id = s.unresolved.lookup id) (hcalls : t.calls = s.calls) :
    Stage (t.setCall n other phase) id := by
  apply Stage.congr (t := t.setCall n other phase) h hretained hunresolved
  intro m phase'
  rw [System.lookup_setCall, hcalls]
  by_cases hm : m = n
  · subst hm
    rw [if_pos rfl]
    constructor
    · intro heq
      cases heq
      exact absurd rfl hother
    · intro heq
      exact absurd (hcall _ heq) hother
  · rw [if_neg hm]

/-- After a step of the only call for a claim, the other calls have returned. -/
theorem System.Active.step (h : s.Active id (some n)) (hcalls : t.calls = s.calls) (phase : ReleasePhase) :
    (t.setCall n id phase).Active id (if phase.active = true then some n else none) := by
  intro m phase' hm hactive
  rw [System.lookup_setCall, hcalls] at hm
  split_ifs at hm with hmn
  · cases hm
    simp [hmn, hactive]
  · have hsame := h m phase' hm hactive
    exact absurd (Option.some.inj hsame).symm hmn

theorem System.Released.step (h : ¬ s.Released id) (hcalls : t.calls = s.calls)
    (hphase : ∀ phase', phase = .returned phase' → phase' ≠ .ok ()) : ¬ (t.setCall n id phase).Released id := by
  intro ⟨m, hm⟩
  rw [System.lookup_setCall, hcalls] at hm
  split_ifs at hm with hmn
  · cases hm
    exact hphase _ rfl rfl
  · exact h ⟨m, hm⟩

end Frames

section Calls

/-- The stage of a claim is that of the call that is taking it further. -/
theorem Stage.of_running (h : Stage s id) (hn : s.calls.lookup n = some ⟨id, phase⟩) (hrunning : phase.running = true) :
    ∃ claim, s.retained.lookup id = some claim.reservation ∧ s.unresolved.lookup id = some claim ∧
      claim.releaseInProgress = true ∧ (phase.asks = true → claim.authorityReleased = false) ∧
      s.Active id (some n) ∧ ¬ s.Released id := by
  have hactive : phase.active = true := by
    cases phase <;> first | rfl | cases hrunning
  cases h with
  | unseen fresh gone active waiting => cases active n phase hn hactive
  | free seen held idle active waiting => cases active n phase hn hactive
  | @busy m other claim seen held flagged call running asks active waiting =>
    have hmn := Option.some.inj (active n phase hn hactive)
    subst hmn
    rw [hn] at call
    cases call
    exact ⟨claim, seen, held, flagged, asks, active, waiting⟩
  | @taken m claim seen gone call active waiting =>
    have hmn := Option.some.inj (active n phase hn hactive)
    subst hmn
    rw [hn] at call
    cases call
    cases hrunning
  | released seen gone active released => cases active n phase hn hactive

theorem Stage.of_dropping (h : Stage s id) (hn : s.calls.lookup n = some ⟨id, .dropping claim⟩) :
    s.retained.lookup id = some claim.reservation ∧ s.unresolved.lookup id = none ∧
      s.Active id (some n) ∧ ¬ s.Released id := by
  cases h with
  | unseen fresh gone active waiting => cases active n _ hn rfl
  | free seen held idle active waiting => cases active n _ hn rfl
  | @busy m other claim' seen held flagged call running asks active waiting =>
    have hmn := Option.some.inj (active n _ hn rfl)
    subst hmn
    rw [hn] at call
    cases call
    cases running
  | @taken m claim' seen gone call active waiting =>
    have hmn := Option.some.inj (active n _ hn rfl)
    subst hmn
    rw [hn] at call
    cases call
    exact ⟨seen, gone, active, waiting⟩
  | released seen gone active released => cases active n _ hn rfl

variable (h : Stage s id) (hn : s.calls.lookup n = some ⟨id, phase⟩) (hrunning : phase.running = true)

include h hn hrunning

/-- The call goes on, with a claim that is still flagged. -/
theorem Stage.goes_on {next : ReleasePhase} (change : RetainedDeploymentClaim → RetainedDeploymentClaim)
    (hnext : next.running = true) (hreservation : ∀ claim, (change claim).reservation = claim.reservation)
    (hflag : ∀ claim, (change claim).releaseInProgress = claim.releaseInProgress)
    (hasks : ∀ claim, (phase.asks = true → claim.authorityReleased = false) → next.asks = true →
      (change claim).authorityReleased = false)
    (hretained : t.retained = s.retained) (hcalls : t.calls = s.calls)
    (hclaims : t.unresolved.lookup id = (s.unresolved.lookup id).map change) : Stage (t.setCall n id next) id := by
  obtain ⟨claim, seen, held, flagged, asks, active, waiting⟩ := h.of_running hn hrunning
  have hactive : next.active = true := by
    cases next <;> first | rfl | cases hnext
  have hothers := active.step hcalls next
  rw [if_pos hactive] at hothers
  have hheld : t.unresolved.lookup id = some (change claim) := hclaims.trans (by rw [held]; rfl)
  have hcall : (t.setCall n id next).calls.lookup n = some ⟨id, next⟩ :=
    (System.lookup_setCall _ _ _ _ _).trans (if_pos rfl)
  have hwaiting : ¬ (t.setCall n id next).Released id := by
    apply System.Released.step waiting hcalls
    intro result heq
    subst heq
    cases hnext
  have hseen : t.retained.lookup id = some (change claim).reservation := by
    rw [hretained, hreservation]
    exact seen
  exact @Stage.busy (t.setCall n id next) id n next (change claim) hseen hheld ((hflag claim).trans flagged) hcall hnext
    (hasks claim asks) hothers hwaiting

/-- The call fails, and another call can be made. -/
theorem Stage.fails (error : DeploymentError) :
    Stage ({ s with unresolved := endRelease s.unresolved id }.setCall n id (.returned (.error error))) id := by
  obtain ⟨claim, seen, held, flagged, asks, active, waiting⟩ := h.of_running hn hrunning
  have hothers := active.step (t := { s with unresolved := endRelease s.unresolved id }) rfl (.returned (.error error))
  have hheld : (endRelease s.unresolved id).lookup id = some { claim with releaseInProgress := false } :=
    (lookup_update _ _ _).trans (by rw [if_pos rfl, held]; rfl)
  have hwaiting : ¬ ({ s with unresolved := endRelease s.unresolved id }.setCall n id
      (.returned (.error error))).Released id := by
    apply System.Released.step waiting rfl
    intro result heq
    cases heq
    simp
  exact @Stage.free ({ s with unresolved := endRelease s.unresolved id }.setCall n id (.returned (.error error))) id
    { claim with releaseInProgress := false } seen hheld rfl hothers hwaiting

end Calls

section Steps

/-- A call that is refused at once. -/
theorem Stage.refused (h : Stage s id) (hfresh : n ∉ s.calls) (error : DeploymentError) :
    Stage (s.setCall n id (.returned (.error error))) id := by
  have hnone : s.calls.lookup n = none := AList.lookup_eq_none.mpr hfresh
  have hold : ∀ m call, s.calls.lookup m = some call → m ≠ n := by
    intro m call hm hmn
    rw [hmn, hnone] at hm
    cases hm
  apply Stage.mono (t := s.setCall n id (.returned (.error error))) h rfl rfl
  · intro calls h m phase hm hactive
    rw [System.lookup_setCall] at hm
    split_ifs at hm
    · cases hm
      cases hactive
    · exact h m phase hm hactive
  · constructor
    · intro ⟨m, hm⟩
      rw [System.lookup_setCall] at hm
      split_ifs at hm
      · cases hm
      · exact ⟨m, hm⟩
    · intro ⟨m, hm⟩
      exact ⟨m, by rw [System.lookup_setCall, if_neg (hold m _ hm)]; exact hm⟩
  · intro m phase hm
    rw [System.lookup_setCall, if_neg (hold m _ hm)]
    exact hm

/-- A claim that nobody releases is taken up by a call. -/
theorem Stage.begins (h : Stage s id) (hclaim : s.unresolved.lookup id = some claim)
    (hidle : claim.releaseInProgress = false) :
    Stage ({ s with unresolved := s.unresolved.insert id { claim with releaseInProgress := true } }.setCall n id
      (.reading !claim.authorityReleased)) id := by
  generalize ht : ({ s with
    unresolved := s.unresolved.insert id { claim with releaseInProgress := true } }.setCall n id
      (.reading !claim.authorityReleased)) = t
  have hcall : ∀ m, t.calls.lookup m = if m = n then some ⟨id, .reading !claim.authorityReleased⟩
      else s.calls.lookup m := by
    intro m
    rw [← ht]
    exact System.lookup_setCall _ _ _ _ _
  have hheld : t.unresolved.lookup id = some { claim with releaseInProgress := true } := by
    rw [← ht]
    exact AList.lookup_insert _
  have hretained : t.retained = s.retained := by rw [← ht]; rfl
  cases h with
  | unseen fresh gone active waiting => simp [gone] at hclaim
  | taken seen gone call active waiting => simp [gone] at hclaim
  | released seen gone active released => simp [gone] at hclaim
  | busy seen held flagged call running asks active waiting =>
    rw [held] at hclaim
    cases hclaim
    simp [flagged] at hidle
  | free seen held idle active waiting =>
    rw [held] at hclaim
    cases hclaim
    have hothers : t.Active id (some n) := by
      intro m phase hm hactive
      rw [hcall] at hm
      split_ifs at hm with hmn
      · simp [hmn]
      · cases active m phase hm hactive
    have hwaiting : ¬ t.Released id := by
      intro ⟨m, hm⟩
      rw [hcall] at hm
      split_ifs at hm
      · cases hm
      · exact waiting ⟨m, hm⟩
    exact .busy (hretained ▸ seen) hheld rfl ((hcall n).trans (if_pos rfl)) rfl (by simp [ReleasePhase.asks]) hothers
      hwaiting

/-- The call that has come through takes the claim out of the map. -/
theorem Stage.takes (h : Stage s id) (hn : s.calls.lookup n = some ⟨id, .taking⟩)
    (hclaim : s.unresolved.lookup id = some claim) (hretained : t.retained = s.retained)
    (hunresolved : t.unresolved = s.unresolved.erase id) (hcalls : t.calls = s.calls) :
    Stage (t.setCall n id (.dropping claim)) id := by
  obtain ⟨other, seen, held, -, -, active, waiting⟩ := h.of_running hn rfl
  rw [held] at hclaim
  cases hclaim
  have hgone : t.unresolved.lookup id = none := by
    rw [hunresolved]
    exact AList.lookup_erase _ _
  have hcall : (t.setCall n id (.dropping claim)).calls.lookup n = some ⟨id, .dropping claim⟩ :=
    (System.lookup_setCall _ _ _ _ _).trans (if_pos rfl)
  have hwaiting : ¬ (t.setCall n id (.dropping claim)).Released id := by
    apply System.Released.step waiting hcalls
    intro result heq
    cases heq
  exact @Stage.taken (t.setCall n id (.dropping claim)) id n claim (hretained ▸ seen) hgone hcall
    (active.step hcalls (.dropping claim)) hwaiting

theorem Stage.finishes (h : Stage s id) (hn : s.calls.lookup n = some ⟨id, .dropping claim⟩)
    (hretained : t.retained = s.retained) (hunresolved : t.unresolved = s.unresolved) (hcalls : t.calls = s.calls) :
    Stage (t.setCall n id (.returned (.ok ()))) id := by
  obtain ⟨seen, gone, active, waiting⟩ := h.of_dropping hn
  have hcall : (t.setCall n id (.returned (.ok ()))).Released id :=
    ⟨n, (System.lookup_setCall _ _ _ _ _).trans (if_pos rfl)⟩
  exact @Stage.released (t.setCall n id (.returned (.ok ()))) id claim.reservation (hretained ▸ seen)
    (hunresolved ▸ gone) (active.step hcalls (.returned (.ok ()))) hcall

theorem Stage.retains (h : Stage s id) {grant : Grant} (hfresh : id ∉ s.retained) (hcalls : t.calls = s.calls)
    (hretained : t.retained = s.retained.insert id grant)
    (hunresolved : t.unresolved = s.unresolved.insert id { reservation := grant }) : Stage t id := by
  have hnone : s.retained.lookup id = none := AList.lookup_eq_none.mpr hfresh
  have hseen : t.retained.lookup id = some grant := by
    rw [hretained]
    exact AList.lookup_insert _
  have hheld : t.unresolved.lookup id = some { reservation := grant } := by
    rw [hunresolved]
    exact AList.lookup_insert _
  cases h with
  | free seen => simp [hnone] at seen
  | busy seen => simp [hnone] at seen
  | taken seen => simp [hnone] at seen
  | released seen => simp [hnone] at seen
  | unseen fresh gone active waiting =>
    have hactive : t.Active id none := by
      intro m phase hm
      rw [hcalls] at hm
      exact active m phase hm
    have hwaiting : ¬ t.Released id := by
      intro ⟨m, hm⟩
      rw [hcalls] at hm
      exact waiting ⟨m, hm⟩
    exact .free hseen hheld rfl hactive hwaiting

theorem Stage.start (id : DeploymentId) : Stage {} id :=
  .unseen rfl rfl (fun _ _ hm => by cases hm) fun ⟨_, hm⟩ => by cases hm

theorem discard_running (revision : Option ℕ) : (discard revision).running = true := by cases revision <;> rfl

theorem discard_asks (revision : Option ℕ) : (discard revision).asks = false := by cases revision <;> rfl

/-- A step of a call is a step of its claim alone. -/
theorem Stage.others (h : ∀ id, Stage s id) {call : ReleaseCall} (hn : s.calls.lookup n = some call)
    (hretained : t.retained = s.retained) (hcalls : t.calls = s.calls)
    (hunresolved : ∀ id, id ≠ call.id → t.unresolved.lookup id = s.unresolved.lookup id)
    (hown : Stage (t.setCall n call.id phase) call.id) : ∀ id, Stage (t.setCall n call.id phase) id := by
  intro id
  by_cases hid : id = call.id
  · rw [hid]
    exact hown
  · apply (h id).other hid _ (by rw [hretained]) (hunresolved id hid) hcalls
    intro found hfound
    rw [hn] at hfound
    cases hfound
    rfl

theorem lookup_endRelease_of_ne {other : DeploymentId} (h : other ≠ id) :
    (endRelease claims id).lookup other = claims.lookup other :=
  (lookup_update _ _ _).trans (if_neg h)

/-- Every step leaves every claim in one of the stages. -/
theorem Step.stages (hs : Step debugText s action t) (h : ∀ id, Stage s id) : ∀ id, Stage t id := by
  cases hs with
  | reserve => exact fun id => (h id).congr rfl rfl fun _ _ => .rfl
  | drop => exact fun id => (h id).congr rfl rfl fun _ _ => .rfl
  | @retain id grant held fresh =>
    intro other
    by_cases ho : other = id
    · subst ho
      exact (h other).retains fresh rfl rfl rfl
    · exact (h other).congr (AList.lookup_insert_ne ho) (AList.lookup_insert_ne ho) fun _ _ => .rfl
  | @release n id confirmed fresh =>
    have hnew : ∀ call, s.calls.lookup n = some call → call.id = id := by
      intro call hcall
      exact absurd (Table.mem_of_lookup hcall) fresh
    rcases beginRelease_eq s.unresolved id confirmed with ⟨error, heq⟩ | ⟨claim, hclaim, hidle, -, heq⟩
    · rw [heq]
      intro other
      by_cases ho : other = id
      · rw [ho]
        exact (h id).refused fresh error
      · exact (h other).other ho hnew rfl rfl rfl
    · rw [heq]
      intro other
      by_cases ho : other = id
      · rw [ho]
        exact (h id).begins hclaim hidle
      · exact (h other).other ho hnew rfl (AList.lookup_insert_ne ho) rfl
  | @readFailed n id releaseAuthority error call =>
    exact Stage.others h call rfl rfl (fun _ => lookup_endRelease_of_ne) ((h id).fails call rfl _)
  | @read n id releaseAuthority manifests call =>
    apply Stage.others h call rfl rfl (fun _ _ => rfl)
    apply (h id).goes_on call rfl fun claim => claim
    · split
      · rfl
      · exact discard_running _
    · exact fun _ => rfl
    · exact fun _ => rfl
    · intro claim hasks hnext
      cases releaseAuthority with
      | true => exact hasks rfl
      | false => simp [discard_asks] at hnext
    · rfl
    · rfl
    · simp
  | @authorityFailed n id revision error call =>
    exact Stage.others h call rfl rfl (fun _ => lookup_endRelease_of_ne) ((h id).fails call rfl _)
  | @authority n id revision call =>
    apply Stage.others h call
    · rfl
    · rfl
    · intro other ho
      exact (lookup_update _ _ _).trans (if_neg ho)
    · apply (h id).goes_on call rfl (fun claim => { claim with authorityReleased := true }) (discard_running _)
      · exact fun _ => rfl
      · exact fun _ => rfl
      · intro claim hasks hnext
        simp [discard_asks] at hnext
      · rfl
      · rfl
      · exact (lookup_update _ _ _).trans (if_pos rfl)
  | @removeFailed n id revision error call =>
    exact Stage.others h call rfl rfl (fun _ => lookup_endRelease_of_ne) ((h id).fails call rfl _)
  | @remove n id revision call =>
    apply Stage.others h call rfl rfl (fun _ _ => rfl)
    apply (h id).goes_on call rfl (fun claim => claim) rfl
    · exact fun _ => rfl
    · exact fun _ => rfl
    · intro claim hasks hnext
      cases hnext
    · rfl
    · rfl
    · simp
  | @takeFailed n id call missing =>
    obtain ⟨claim, seen, held, -⟩ := (h id).of_running call rfl
    rw [held] at missing
    cases missing
  | @take n id claim call found =>
    apply Stage.others h call
    · rfl
    · rfl
    · intro other ho
      exact AList.lookup_erase_ne ho
    · exact (h id).takes call found rfl rfl rfl
  | @finish n id claim call =>
    exact Stage.others h call rfl rfl (fun _ _ => rfl) ((h id).finishes call rfl rfl rfl)
  | scan => exact fun id => (h id).congr rfl rfl fun _ _ => .rfl
  | scanUnread => exact fun id => (h id).congr rfl rfl fun _ _ => .rfl
  | scanRefused => exact fun id => (h id).congr rfl rfl fun _ _ => .rfl
  | scanRead => exact fun id => (h id).congr rfl rfl fun _ _ => .rfl
  | dropWorking => exact fun id => (h id).congr rfl rfl fun _ _ => .rfl
  | dropFailing => exact fun id => (h id).congr rfl rfl fun _ _ => .rfl
  | scanReserve => exact fun id => (h id).congr rfl rfl fun _ _ => .rfl
  | scanEnd => exact fun id => (h id).congr rfl rfl fun _ _ => .rfl
  | scanFailed => exact fun id => (h id).congr rfl rfl fun _ _ => .rfl

theorem run_stages (h : Run (Step debugText) {} actions s) : ∀ id, Stage s id :=
  h.invariant Stage.start fun _ _ _ hs hstep => hstep.stages hs

end Steps

section Outcomes

/-- The reservation of this deployment is in the map, or with the call that took it. -/
def System.Holds (s : System) (id : DeploymentId) (grant : Grant) : Prop :=
  (∃ claim, s.unresolved.lookup id = some claim ∧ claim.reservation = grant) ∨
    ∃ n claim, s.calls.lookup n = some ⟨id, .dropping claim⟩ ∧ claim.reservation = grant

theorem Stage.released_iff (h : Stage s id) {grant : Grant} (hseen : s.retained.lookup id = some grant) :
    s.Released id ↔ ¬ s.Holds id grant := by
  cases h with
  | unseen fresh => simp [fresh] at hseen
  | free seen held idle active waiting =>
    rw [seen] at hseen
    cases hseen
    exact ⟨fun hreleased => absurd hreleased waiting, fun hholds => absurd (.inl ⟨_, held, rfl⟩) hholds⟩
  | busy seen held flagged call running asks active waiting =>
    rw [seen] at hseen
    cases hseen
    exact ⟨fun hreleased => absurd hreleased waiting, fun hholds => absurd (.inl ⟨_, held, rfl⟩) hholds⟩
  | taken seen gone call active waiting =>
    rw [seen] at hseen
    cases hseen
    exact ⟨fun hreleased => absurd hreleased waiting, fun hholds => absurd (.inr ⟨_, _, call, rfl⟩) hholds⟩
  | released seen gone active released =>
    have hholds : ¬ s.Holds id grant := by
      rintro (⟨claim, hclaim, -⟩ | ⟨n, claim, hn, -⟩)
      · simp [gone] at hclaim
      · cases active n _ hn rfl
    exact ⟨fun _ => hholds, fun _ => released⟩

/-- A claim is flagged only while a call is releasing it. -/
theorem Stage.flagged_running (h : Stage s id) (hclaim : s.unresolved.lookup id = some claim)
    (hflag : claim.releaseInProgress = true) :
    ∃ n phase, s.calls.lookup n = some ⟨id, phase⟩ ∧ phase.running = true := by
  cases h with
  | unseen fresh gone => simp [gone] at hclaim
  | taken seen gone => simp [gone] at hclaim
  | released seen gone => simp [gone] at hclaim
  | free seen held idle =>
    rw [held] at hclaim
    cases hclaim
    simp [idle] at hflag
  | busy seen held flagged call running => exact ⟨_, _, call, running⟩

/-- A claim that is not flagged is taken up by the next confirmed call. -/
theorem release_accepted (hclaim : s.unresolved.lookup id = some claim) (hidle : claim.releaseInProgress = false)
    (hfresh : n ∉ s.calls) :
    ∃ t, Step debugText s (.release n id true) t ∧
      t.calls.lookup n = some ⟨id, .reading !claim.authorityReleased⟩ := by
  refine ⟨_, .release hfresh, ?_⟩
  rw [System.lookup_setCall, if_pos rfl]
  simp [beginRelease, hclaim, hidle, beganPhase]

/-- The service knows that it does not have to ask the authority again. -/
def System.Approved (s : System) (id : DeploymentId) : Prop :=
  id ∈ s.retained ∧ ∀ claim, s.unresolved.lookup id = some claim → claim.authorityReleased = true

theorem System.Approved.of_lookup (h : s.Approved id) (hretained : ∀ other, other ∈ s.retained → other ∈ t.retained)
    (hunresolved : ∀ claim, t.unresolved.lookup id = some claim →
      ∃ old, s.unresolved.lookup id = some old ∧ (old.authorityReleased = true → claim.authorityReleased = true)) :
    t.Approved id := by
  refine ⟨hretained id h.1, ?_⟩
  intro claim hclaim
  obtain ⟨old, hold, hkeeps⟩ := hunresolved claim hclaim
  exact hkeeps (h.2 old hold)

/-- A change that does not take the authority's release back. -/
theorem System.Approved.update (h : s.Approved id) {other : DeploymentId}
    {change : RetainedDeploymentClaim → RetainedDeploymentClaim} (hretained : t.retained = s.retained)
    (hunresolved : t.unresolved = Unresolved.update change s.unresolved other)
    (hchange : ∀ claim, claim.authorityReleased = true → (change claim).authorityReleased = true) : t.Approved id := by
  apply h.of_lookup
  · intro found hfound
    rw [hretained]
    exact hfound
  · intro claim hclaim
    rw [hunresolved, lookup_update] at hclaim
    split_ifs at hclaim with hid
    · obtain ⟨old, hold, rfl⟩ := Option.map_eq_some_iff.mp hclaim
      exact ⟨old, hid ▸ hold, hchange old⟩
    · exact ⟨claim, hclaim, fun hreleased => hreleased⟩

theorem System.Approved.same (h : s.Approved id) (hretained : t.retained = s.retained)
    (hunresolved : t.unresolved = s.unresolved) : t.Approved id := by
  unfold System.Approved
  rw [hretained, hunresolved]
  exact h

theorem Step.approved (hs : Step debugText s action t) (h : s.Approved id) : t.Approved id := by
  cases hs with
  | reserve => exact h
  | drop => exact h
  | @retain other grant held fresh =>
    have hne : id ≠ other := fun heq => fresh (heq ▸ h.1)
    apply h.of_lookup
    · intro found hfound
      exact AList.mem_insert _ |>.mpr (.inr hfound)
    · intro claim hclaim
      exact ⟨claim, (AList.lookup_insert_ne hne).symm.trans hclaim, fun hreleased => hreleased⟩
  | @release n other confirmed fresh =>
    rcases beginRelease_eq s.unresolved other confirmed with ⟨error, heq⟩ | ⟨old, hold, hidle, -, heq⟩
    · rw [heq]
      exact h
    · rw [heq]
      apply h.of_lookup
      · exact fun _ hfound => hfound
      · intro claim hclaim
        have hinsert := (Table.lookup_insert_ite s.unresolved other id _).symm.trans hclaim
        split_ifs at hinsert with hid
        · cases hinsert
          exact ⟨old, hid ▸ hold, fun hreleased => hreleased⟩
        · exact ⟨claim, hinsert, fun hreleased => hreleased⟩
  | readFailed => exact h.update rfl rfl fun _ hreleased => hreleased
  | read => exact h
  | authorityFailed => exact h.update rfl rfl fun _ hreleased => hreleased
  | authority => exact h.update rfl rfl fun _ _ => rfl
  | removeFailed => exact h.update rfl rfl fun _ hreleased => hreleased
  | remove => exact h
  | takeFailed => exact h
  | @take n other old call found =>
    apply h.of_lookup
    · exact fun _ hfound => hfound
    · intro claim hclaim
      have herase := (Table.lookup_erase_ite s.unresolved other id).symm.trans hclaim
      split_ifs at herase
      exact ⟨claim, herase, fun hreleased => hreleased⟩
  | finish => exact h
  | scan => exact h
  | scanUnread => exact h
  | scanRefused => exact h
  | scanRead => exact h
  | dropWorking => exact h
  | dropFailing => exact h
  | scanReserve => exact h
  | scanEnd => exact h
  | scanFailed => exact h

/-- What the authority has released, the service does not ask it to release again. -/
theorem Step.authorized (hs : Step debugText s action t) (hstages : ∀ id, Stage s id)
    (h : ∀ id, id ∈ s.authorized → s.Approved id) : ∀ id, id ∈ t.authorized → t.Approved id := by
  intro id hid
  by_cases hold : id ∈ s.authorized
  · exact hs.approved (h id hold)
  · cases hs with
    | @authority n other revision call =>
      have heq : id = other := by
        rcases List.mem_cons.mp hid with heq | hmem
        · exact heq
        · exact absurd hmem hold
      subst heq
      obtain ⟨claim, seen, held, -⟩ := (hstages id).of_running call rfl
      refine ⟨Table.mem_of_lookup seen, ?_⟩
      intro found hfound
      have hmarked := (lookup_update s.unresolved id id).symm.trans hfound
      rw [if_pos rfl, held] at hmarked
      cases hmarked
      rfl
    | _ => exact absurd hid hold

theorem run_authorized (h : Run (Step debugText) {} actions s) : ∀ id, id ∈ s.authorized → s.Approved id := by
  induction h with
  | nil =>
    intro id hid
    cases hid
  | snoc hrun hstep ih => exact hstep.authorized (run_stages hrun) ih

/-- A call that asks the authority is the first one whose request can succeed. -/
theorem run_requested (h : Run (Step debugText) {} actions s) {revision : Option ℕ}
    (hn : s.calls.lookup n = some ⟨id, .requesting revision⟩) : id ∉ s.authorized := by
  intro hid
  obtain ⟨claim, -, held, -, hasks, -⟩ := (run_stages h id).of_running hn rfl
  have hreleased := (run_authorized h id hid).2 claim held
  rw [hasks rfl] at hreleased
  cases hreleased

end Outcomes

end Lasper.Provisioning.Unresolved
