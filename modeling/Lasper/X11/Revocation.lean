import Lasper.Lib.Runs
import Lasper.X11.Pass

/-! Runs of reconcile passes, authorizations and manual revocations in any order.
A step may also stop in the middle of an operation, as a crash would. -/

namespace Lasper.X11

open Lib Traced

section Reconcile

variable {env : Environment}

theorem loadClaims_loaded {s : X11State} (available : Bool) (hs : s.Sound) :
    Ensures X11State.Sound (loadClaims env available)
      (fun catalog t => t.Sound ∧ (catalog.complete = true → Loaded catalog.entries t.claims))
      (fun _ => X11State.Sound) s := by
  refine (loadClaims_spec available hs).post ?_
  rintro catalog t ⟨rfl, hentries⟩
  refine ⟨hs, fun hcomplete => ?_⟩
  rw [hentries hcomplete]
  cases available with
  | false => exact .inl rfl
  | true => exact .inr rfl

theorem reconcileLoaded_sound {s : X11State} (socket : HostX11Socket) (available : Bool)
    (claims : List ManagedX11MachineClaim) (records : List ManagedX11GrantRecord) (hs : s.Sound)
    (hl : Loaded claims s.claims) :
    Ensures X11State.Sound (reconcileLoaded env socket available claims records)
      (fun _ => X11State.Sound) (fun _ => X11State.Sound) s := by
  have hask : ∀ {α : Type} (answer : ℕ → Except String α) (t : X11State),
      t.Sound ∧ Loaded claims t.claims → Ensures X11State.Sound (askResult answer)
        (fun _ u => u.Sound ∧ Loaded claims u.claims) (fun _ => X11State.Sound) t :=
    fun answer t ht => askResult_holds (P := fun stored _ => Loaded claims stored) answer ht.1 ht.2
  refine ensures_bind (hask _ s ⟨hs, hl⟩) fun _ t ht => ?_
  refine ensures_bind (hask _ t ht) fun _ t ht => ensures_bind (hask _ t ht) fun _ t ht => ?_
  refine ensures_bind (hask _ t ht) fun _ t ht => ensures_bind (hask _ t ht) fun _ t ht => ?_
  refine ensures_bind (hask _ t ht) fun _ t ht => ?_
  split
  · exact reconcileEnabled_sound _ _ ht.1 ht.2
  · exact ensures_fail ht.1

theorem reconcileSync_sound (socket : HostX11Socket) :
    Preserves X11State.Sound (reconcileSync env socket) := by
  refine preserves_bind (askResult_sound _) fun opened => ?_
  split
  · exact preserves_pure
  · intro s hs
    refine ensures_bind (askResult_sound _ s hs) fun _ t ht => ?_
    refine ensures_bind (loadClaims_loaded _ ht) fun catalog t ht => ?_
    have hclaims : Ensures X11State.Sound
        (ofExcept (catalog.require id "X11 machine claim set is incomplete") :
          Desktop (List ManagedX11MachineClaim))
        (fun claims u => u.Sound ∧ Loaded claims u.claims) (fun _ => X11State.Sound) t := by
      refine ensures_ofExcept (fun claims hc => ⟨ht.1, ?_⟩) fun _ _ => ht.1
      obtain ⟨hcomplete, rfl⟩ := require_complete hc
      exact ht.2 hcomplete
    refine ensures_bind hclaims fun claims t ht => ?_
    have hrecords : Ensures X11State.Sound (loadRecords env)
        (fun _ u => u.Sound ∧ Loaded claims u.claims) (fun _ => X11State.Sound) t :=
      ensures_bind (ask_holds (P := fun stored _ => Loaded claims stored) _ ht.1 ht.2)
        fun _ u hu => ensures_read hu
    refine ensures_bind hrecords fun recordCatalog t ht => ?_
    refine ensures_bind (Q := fun _ u => u.Sound ∧ Loaded claims u.claims)
      (ensures_ofExcept (fun _ _ => ht) fun _ _ => ht.1) fun records t ht => ?_
    split
    · exact reconcileLoaded_sound _ _ _ _ ht.1 ht.2
    · exact ensures_pure ht.1

end Reconcile

inductive Operation
  | ensureAccess (request : X11AuthorizationRequest)
  | revokeAccess (request : X11RevokeRequest)
  | reconcile (socket : HostX11Socket)

/-- The states an operation passes through, and the one it ends in. -/
def Operation.states (env : Environment) (s : X11State) : Operation → List X11State
  | .ensureAccess request =>
    (ensureAccessSync env request s).passed ++ [(ensureAccessSync env request s).state]
  | .revokeAccess request =>
    (revokeAccessSync env request s).passed ++ [(revokeAccessSync env request s).state]
  | .reconcile socket => (reconcileSync env socket s).passed ++ [(reconcileSync env socket s).state]

/-- An operation runs to its end or stops somewhere on the way. -/
def Step (env : Environment) (s : X11State) (operation : Operation) (t : X11State) : Prop :=
  t ∈ operation.states env s

/-- A store before the first pass: no grace period is running yet. -/
structure X11State.Fresh (s : X11State) : Prop where
  distinct : (s.claims.map (·.claimId)).Nodup
  idle : ∀ claim ∈ s.claims, ∀ since, claim.phase ≠ .cleanupPending since
  unlogged : s.log = []

theorem X11State.Fresh.sound {s : X11State} (h : s.Fresh) : s.Sound where
  distinct := h.distinct
  backed := fun claim hc since hp => absurd hp (h.idle claim hc since)
  justified := by
    intro earlier key bootId claims later hl
    rw [h.unlogged] at hl
    simp at hl

theorem Preserves.states {α : Type} {p : Desktop α} (hp : Preserves X11State.Sound p) {s t : X11State}
    (hs : s.Sound) (ht : t ∈ (p s).passed ++ [(p s).state]) : t.Sound := by
  have h := hp s hs
  rcases List.mem_append.mp ht with ht | ht
  · exact h.always t ht
  · rw [List.mem_singleton.mp ht]
    cases hr : (p s).result with
    | ok a => exact h.returned a hr
    | error e => exact h.failed e hr

theorem Step.sound {env : Environment} {s t : X11State} {operation : Operation} (hs : s.Sound)
    (h : Step env s operation t) : t.Sound := by
  cases operation with
  | ensureAccess request => exact Preserves.states (ensureAccessSync_sound request) hs h
  | revokeAccess request => exact Preserves.states (revokeAccessSync_sound request) hs h
  | reconcile socket => exact Preserves.states (reconcileSync_sound socket) hs h

/-- Over every run of passes, authorizations and manual revocations: when a pass
removes an entry, every unresolved claim on that grant is pending since an
absence that was confirmed after the grace period and never disturbed. -/
theorem revocation_only_when_grant_ready (env : Environment) (s t : X11State)
    (operations : List Operation) (hs : s.Fresh) (h : Run (Step env) s operations t) :
    Justified SameGrant t.log := by
  have ht : t.Sound := h.invariant hs.sound fun _ _ _ hu hstep => hstep.sound hu
  exact ht.justified

section TwoEndpoints

/-- The two sockets of one server that serves both names of its display. -/
def endpoint (alternate : Bool) : HostX11Socket where
  display := 0
  alternate
  source := if alternate then "/tmp/.X11-unix/X0_" else "/tmp/.X11-unix/X0"
  canonicalPath := if alternate then "/tmp/.X11-unix/X0_" else "/tmp/.X11-unix/X0"
  peerIdentity := (100, 1000, 1000)
  revision := ⟨1, if alternate then 11 else 10, 0, 0⟩

theorem user_valid : isValidGuestUserName "user" = true := by decide

theorem a_valid : Provisioning.isValidNspawnHostname "a" = true := by decide

theorem b_valid : Provisioning.isValidNspawnHostname "b" = true := by decide

def authorization (machine : Provisioning.MachineName) (leaderPid : ℕ) (alternate : Bool) :
    X11AuthorizationRequest where
  target := ⟨machine, ⟨"user", user_valid⟩⟩
  projection := ⟨endpoint alternate, ⟨1000, 1000, 1000, 1000, ⟨leaderPid, some 5, none⟩⟩⟩
  purpose := .manual

/-- Machine `a` is gone and `b` is running; between the two authorizations
somebody else took the entry out of the ACL. -/
def twoEndpoints : Environment where
  effectiveUid := 1000
  openExisting _ := .ok (some true)
  openState _ := .ok ()
  lock _ := .ok ()
  readClaims _ := .ok ()
  readRecords _ := .ok ()
  readRecord _ := .ok ()
  write _ := .written
  connectCurrentSocket _ := .ok ()
  requireCurrentSocket _ := .ok ()
  peerStartTime _ := .ok 77
  hostBootId _ := .ok "2b1f4c6e-8a3d-4e5f-9b7a-1c2d3e4f5a6b"
  unixMillis n := .ok (if n < 54 then 1000 else 4000)
  readAcl n := .ok ⟨.enabled,
    if n < 10 ∨ (20 ≤ n ∧ n < 30) ∨ 66 < n then [] else [⟨5, numericLocalUserAddress 1000⟩]⟩
  changeHosts _ := .ok ()
  systemMachineRegistration _ machine :=
    if machine.text = "a" then .absent else .present 8 none
  newId n := if n < 20 then "aaaaaaaaaaaaaaaaaaaaaaaaaaaaaaaa" else "bbbbbbbbbbbbbbbbbbbbbbbbbbbbbbbb"

def twoEndpointsEnd : X11State :=
  let s := (ensureAccessSync twoEndpoints (authorization ⟨"a", a_valid⟩ 7 false) {}).state
  let s := (ensureAccessSync twoEndpoints (authorization ⟨"b", b_valid⟩ 8 true) s).state
  let s := (reconcileSync twoEndpoints (endpoint false) s).state
  (reconcileSync twoEndpoints (endpoint false) s).state

/-- A store whose only machine went away long ago. -/
def staleStore : X11State :=
  let s := (ensureAccessSync twoEndpoints (authorization ⟨"a", a_valid⟩ 7 false) {}).state
  { records := s.records, claims := s.claims.map fun claim => { claim with phase := .cleanupPending 1000 } }

def twoEndpointsRun : List Operation :=
  [.ensureAccess (authorization ⟨"a", a_valid⟩ 7 false), .ensureAccess (authorization ⟨"b", b_valid⟩ 8 true),
    .reconcile (endpoint false), .reconcile (endpoint false)]

private theorem twoEndpoints_run : Run (Step twoEndpoints) {} twoEndpointsRun twoEndpointsEnd := by
  have hlast : ∀ {α : Type} (l : List α) (a : α), a ∈ l ++ [a] := by simp
  exact .snoc (.snoc (.snoc (.snoc .nil (hlast _ _)) (hlast _ _)) (hlast _ _)) (hlast _ _)

private theorem empty_fresh : X11State.Fresh {} :=
  ⟨List.nodup_nil, fun _ hc => absurd hc List.not_mem_nil, rfl⟩

/-- A removal on this server that a running machine's claim should have stopped. -/
def overlooks : Event → Bool
  | .removed key bootId claims => claims.any fun claim =>
    claim.phase = .active && claim.bootId = bootId && claim.key.serverPeer = key.serverPeer &&
      claim.key.serverPeerStartTime = key.serverPeerStartTime && claim.key.aclEntry = key.aclEntry
  | .observed .. | .sent _ => false

private theorem twoEndpoints_overlooks : twoEndpointsEnd.log.any overlooks = true := by decide +kernel

theorem revocation_ready_two_endpoints :
    (∃ key bootId claims, .removed key bootId claims ∈ twoEndpointsEnd.log) ∧
      Justified SameGrant twoEndpointsEnd.log := by
  refine ⟨?_, revocation_only_when_grant_ready twoEndpoints {} twoEndpointsEnd twoEndpointsRun empty_fresh
    twoEndpoints_run⟩
  obtain ⟨event, hm, he⟩ := List.any_eq_true.mp twoEndpoints_overlooks
  cases event with
  | removed key bootId claims => exact ⟨key, bootId, claims, hm⟩
  | observed => cases he
  | sent => cases he

/-- The entry goes although another machine holds an active claim on the same
server process and address, through the other endpoint. -/
theorem other_endpoint_claim_overlooked :
    ¬ ∀ (env : Environment) (s t : X11State) (operations : List Operation), s.Fresh →
      Run (Step env) s operations t → Justified SameServer t.log := by
  intro h
  obtain ⟨event, hm, he⟩ := List.any_eq_true.mp twoEndpoints_overlooks
  cases event with
  | observed => cases he
  | sent => cases he
  | removed key bootId claims =>
    obtain ⟨claim, hc, hover⟩ := List.any_eq_true.mp he
    simp only [Bool.and_eq_true, decide_eq_true_eq] at hover
    obtain ⟨⟨⟨⟨hactive, hboot⟩, hpeer⟩, hstart⟩, hacl⟩ := hover
    obtain ⟨earlier, later, hlog⟩ := List.append_of_mem hm
    obtain ⟨since, hp, -⟩ := h twoEndpoints {} twoEndpointsEnd twoEndpointsRun empty_fresh twoEndpoints_run
      earlier key bootId claims later hlog claim hc ⟨hboot, hpeer, hstart, hacl⟩ (by rw [hactive]; simp)
    rw [hactive] at hp
    cases hp

end TwoEndpoints

end Lasper.X11
