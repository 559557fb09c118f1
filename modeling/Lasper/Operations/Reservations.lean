import Lasper.Lib.Runs
import Lasper.Operations.Registry

/-! Runs of reservations and drops by any number of holders. The registry holds
exactly the claims of the reservations that are alive, so whether a request is
granted depends on these alone. Reservations are told apart by a 64-bit number,
which repeats only after 2^64 of them; when it does while the first is still
alive, dropping one releases the claims of both. -/

namespace Lasper.Operations

open Lib

variable (debugText : ResourceKey → String)

/-- A live reservation and the claims it was granted. -/
structure Grant where
  reservation : ResourceReservation
  claims : List ResourceClaim
  deriving DecidableEq

structure System where
  registry : OperationRegistry := {}
  live : List Grant := []

inductive Action
  | reserve (iter : Iteration ResourceKey ResourceAccess) (claims : List ResourceClaim)
  | reserveImageRemoval (iter : Iteration ResourceKey ResourceAccess) (imageName : String)
      (claims : List ResourceClaim)
  | drop (grant : Grant)

/-- `reserve` and `reserve_image_removal` call `reserve_inner` with these arguments. -/
def Action.request : Action →
    Option (Iteration ResourceKey ResourceAccess × List ResourceClaim × Option String)
  | .reserve iter claims => some (iter, claims, none)
  | .reserveImageRemoval iter imageName claims => some (iter, claims, some imageName)
  | .drop _ => none

inductive Step : System → Action → System → Prop
  | granted {s : System} {action : Action} {iter : Iteration ResourceKey ResourceAccess}
      {claims : List ResourceClaim} {imageRemoval : Option String} {reservation : ResourceReservation}
      {registry : OperationRegistry} (request : action.request = some (iter, claims, imageRemoval))
      (result : reserveInner debugText iter claims imageRemoval s.registry = (.ok reservation, registry)) :
      Step s action ⟨registry, s.live ++ [⟨reservation, canonicalize debugText iter claims⟩]⟩
  | refused {s : System} {action : Action} {iter : Iteration ResourceKey ResourceAccess}
      {claims : List ResourceClaim} {imageRemoval : Option String} {conflict : ResourceConflict}
      {registry : OperationRegistry} (request : action.request = some (iter, claims, imageRemoval))
      (result : reserveInner debugText iter claims imageRemoval s.registry = (.error conflict, registry)) :
      Step s action ⟨registry, s.live⟩
  | dropped {s : System} {grant : Grant} {before after : List Grant}
      (alive : s.live = before ++ grant :: after) :
      Step s (.drop grant)
        ⟨release grant.reservation.id grant.reservation.keys s.registry, before ++ after⟩

/-- Steps after which all live reservations have different numbers. -/
def DistinctStep (s : System) (action : Action) (t : System) : Prop :=
  Step debugText s action t ∧ (t.live.map (·.reservation.id)).Nodup

def OperationRegistry.holders (registry : OperationRegistry) (key : ResourceKey) :
    List (ResourceAccess × ℕ) :=
  registry.state.claims.of key

/-- The holders of a key: one exclusive one, or shared ones only. -/
def Exclusion (holders : List (ResourceAccess × ℕ)) : Prop :=
  (∃ id, holders = [(.exclusive, id)]) ∨ ∀ holder ∈ holders, holder.1 = .shared

/-- The registry holds the claims of these reservations and no others. -/
def Backed (registry : OperationRegistry) (live : List Grant) : Prop :=
  ∀ key access id, (access, id) ∈ registry.holders key ↔
    ∃ grant ∈ live, grant.reservation.id = id ∧ ⟨key, access⟩ ∈ grant.claims

/-- None of the claims meets a live reservation, one of the two being exclusive. -/
def Compatible (live : List Grant) (claims : List ResourceClaim) : Prop :=
  ∀ claim ∈ claims, ∀ grant ∈ live, ∀ held ∈ grant.claims, held.key = claim.key →
    held.access = .shared ∧ claim.access = .shared

/-- What the registry promises in one state. -/
structure ReservationSafe (s : System) : Prop where
  exclusion : ∀ key, Exclusion (s.registry.holders key)
  backed : Backed s.registry s.live
  canonical : ∀ iter claims key access, ⟨key, access⟩ ∈ canonicalize debugText iter claims ↔
    (∃ claim ∈ claims, claim.key = key) ∧
      (access = .exclusive ↔ ∃ claim ∈ claims, claim.key = key ∧ claim.access = .exclusive)
  granted_iff : ∀ iter claims imageRemoval,
    (∃ reservation, (reserveInner debugText iter claims imageRemoval s.registry).1 = .ok reservation) ↔
      Compatible s.live (canonicalize debugText iter claims)
  refused : ∀ iter claims imageRemoval conflict,
    (reserveInner debugText iter claims imageRemoval s.registry).1 = .error conflict →
      (reserveInner debugText iter claims imageRemoval s.registry).2 = s.registry
  released : ∀ before grant after, s.live = before ++ grant :: after →
    Backed (release grant.reservation.id grant.reservation.keys s.registry) (before ++ after)

section Holding

variable {debugText} {registry : OperationRegistry} {live : List Grant}
  {iter : Iteration ResourceKey ResourceAccess} {claims : List ResourceClaim}
  {imageRemoval : Option String}

theorem conflicts_iff {claim : ResourceClaim} : registry.state.conflicts claim = true ↔
    ∃ holder ∈ registry.holders claim.key, holder.1 = .exclusive ∨ claim.access = .exclusive := by
  unfold RegistryState.conflicts OperationRegistry.holders Holders.of
  cases registry.state.claims.lookup claim.key with
  | none => simp
  | some holders => simp

theorem access_shared {access : ResourceAccess} : access = .shared ↔ access ≠ .exclusive := by
  cases access <;> simp

/-- The code's test against the holders is the test against the live reservations. -/
theorem find_conflict_iff (hb : Backed registry live) (claims : List ResourceClaim) :
    claims.find? registry.state.conflicts = none ↔ Compatible live claims := by
  rw [List.find?_eq_none]
  constructor
  · intro h claim hc grant hg held hh hk
    have hholder : (held.access, grant.reservation.id) ∈ registry.holders claim.key :=
      (hb _ _ _).mpr ⟨grant, hg, rfl, hk ▸ hh⟩
    have hfree := h claim hc
    rw [conflicts_iff] at hfree
    rw [access_shared, access_shared]
    exact ⟨fun he => hfree ⟨_, hholder, .inl he⟩, fun he => hfree ⟨_, hholder, .inr he⟩⟩
  · intro h claim hc hconflict
    obtain ⟨⟨access, id⟩, hholder, hex⟩ := conflicts_iff.mp hconflict
    obtain ⟨grant, hg, -, hh⟩ := (hb _ _ _).mp hholder
    obtain ⟨hshared, hclaim⟩ := h claim hc grant hg _ hh rfl
    rcases hex with he | he
    · simp only at hshared he
      rw [hshared] at he
      cases he
    · rw [hclaim] at he
      cases he

theorem reserveInner_ok {reservation : ResourceReservation} {registry' : OperationRegistry}
    (h : reserveInner debugText iter claims imageRemoval registry = (.ok reservation, registry')) :
    (canonicalize debugText iter claims).find? registry.state.conflicts = none ∧
      reservation = ⟨registry.drawId, (canonicalize debugText iter claims).map (·.key)⟩ ∧
      ∀ key, registry'.holders key = registry.holders key ++
        ((canonicalize debugText iter claims).filter fun claim => claim.key = key).map
          fun claim => (claim.access, registry.drawId) := by
  unfold reserveInner at h
  dsimp only at h
  split at h
  · cases h
  · rename_i hnone
    cases h
    exact ⟨hnone, rfl, fun key => Holders.of_foldl_add _ _ _ _ key⟩

theorem reserveInner_error {conflict : ResourceConflict}
    (h : (reserveInner debugText iter claims imageRemoval registry).1 = .error conflict) :
    (reserveInner debugText iter claims imageRemoval registry).2 = registry := by
  unfold reserveInner at h ⊢
  dsimp only at h ⊢
  split
  · rfl
  · rename_i hnone
    rw [hnone] at h
    cases h

theorem release_holders (id : ℕ) (keys : List ResourceKey) (key : ResourceKey) :
    (release id keys registry).holders key =
      if key ∈ keys then (registry.holders key).filter (fun holder => !decide (holder.2 = id))
      else registry.holders key :=
  Holders.of_foldl_dismiss _ keys registry.state.claims key

theorem filter_key_eq {key : ResourceKey} (h : (claims.map (·.key)).Nodup) :
    (claims.filter fun claim => claim.key = key) = [] ∨
      ∃ claim ∈ claims, claim.key = key ∧ (claims.filter fun claim => claim.key = key) = [claim] := by
  induction claims with
  | nil => exact .inl rfl
  | cons claim claims ih =>
    obtain ⟨hnot, hn⟩ := List.nodup_cons.mp h
    by_cases hk : claim.key = key
    · have hrest : (claims.filter fun claim => claim.key = key) = [] := by
        refine List.filter_eq_nil_iff.mpr fun other ho he => hnot ?_
        have hother : other.key = key := by simpa using he
        exact List.mem_map.mpr ⟨other, ho, hother.trans hk.symm⟩
      exact .inr ⟨claim, List.mem_cons_self, hk, by simp [hk, hrest]⟩
    · rcases ih hn with he | ⟨other, hm, ho, he⟩
      · exact .inl (by simp [hk, he])
      · exact .inr ⟨other, List.mem_cons_of_mem _ hm, ho, by simp [hk, he]⟩

theorem Exclusion.granted {key : ResourceKey} (h : Exclusion (registry.holders key))
    (hn : (claims.map (·.key)).Nodup) (hfree : claims.find? registry.state.conflicts = none) (id : ℕ) :
    Exclusion (registry.holders key ++
      (claims.filter fun claim => claim.key = key).map fun claim => (claim.access, id)) := by
  rcases filter_key_eq hn with he | ⟨claim, hm, hk, he⟩
  · rw [he, List.map_nil, List.append_nil]
    exact h
  · rw [he]
    have hclear := List.find?_eq_none.mp hfree claim hm
    rw [conflicts_iff, hk] at hclear
    by_cases hempty : registry.holders key = []
    · rw [hempty]
      cases ha : claim.access with
      | exclusive => exact .inl ⟨id, by simp [ha]⟩
      | shared => exact .inr (by simp [ha])
    · obtain ⟨first, hfirst⟩ := List.exists_mem_of_ne_nil _ hempty
      have hclaim : claim.access = .shared :=
        access_shared.mpr fun hex => hclear ⟨first, hfirst, .inr hex⟩
      refine .inr fun holder hh => ?_
      rcases List.mem_append.mp hh with hh | hh
      · exact access_shared.mpr fun hex => hclear ⟨holder, hh, .inl hex⟩
      · simp only [List.map_cons, List.map_nil, List.mem_singleton] at hh
        rw [hh]
        exact hclaim

theorem Exclusion.filter {holders : List (ResourceAccess × ℕ)} (h : Exclusion holders)
    (p : ResourceAccess × ℕ → Bool) : Exclusion (holders.filter p) := by
  rcases h with ⟨id, rfl⟩ | h
  · by_cases hp : p (.exclusive, id) = true
    · exact .inl ⟨id, by simp [hp]⟩
    · exact .inr (by simp [hp])
  · exact .inr fun holder hh => h holder (List.mem_filter.mp hh).1

theorem Backed.granted {registry' : OperationRegistry} {reservation : ResourceReservation}
    (hb : Backed registry live)
    (h : reserveInner debugText iter claims imageRemoval registry = (.ok reservation, registry')) :
    Backed registry' (live ++ [⟨reservation, canonicalize debugText iter claims⟩]) := by
  obtain ⟨-, rfl, hholders⟩ := reserveInner_ok h
  intro key access id
  rw [hholders, List.mem_append, hb]
  simp only [List.mem_map, List.mem_filter, decide_eq_true_eq, Prod.mk.injEq, List.mem_append,
    List.mem_singleton]
  constructor
  · rintro (⟨grant, hg, hid, hc⟩ | ⟨claim, ⟨hc, rfl⟩, rfl, rfl⟩)
    · exact ⟨grant, .inl hg, hid, hc⟩
    · exact ⟨_, .inr rfl, rfl, hc⟩
  · rintro ⟨grant, hg | rfl, hid, hc⟩
    · exact .inl ⟨grant, hg, hid, hc⟩
    · exact .inr ⟨_, ⟨hc, rfl⟩, rfl, hid⟩

/-- Dropping a reservation whose number no other one has. -/
theorem Backed.released {before after : List Grant} {grant : Grant}
    (hb : Backed registry (before ++ grant :: after))
    (hk : grant.reservation.keys = grant.claims.map (·.key))
    (hd : ∀ other ∈ before ++ after, other.reservation.id ≠ grant.reservation.id) :
    Backed (release grant.reservation.id grant.reservation.keys registry) (before ++ after) := by
  intro key access id
  have hheld : (access, id) ∈ (release grant.reservation.id grant.reservation.keys registry).holders key ↔
      (access, id) ∈ registry.holders key ∧
        (key ∈ grant.reservation.keys → id ≠ grant.reservation.id) := by
    rw [release_holders]
    by_cases hm : key ∈ grant.reservation.keys
    · simp [hm]
    · simp [hm]
  rw [hheld, hb]
  constructor
  · rintro ⟨⟨other, ho, hid, hc⟩, hne⟩
    have hsplit : other = grant ∨ other ∈ before ++ after := by
      simp only [List.mem_append, List.mem_cons] at ho ⊢
      tauto
    rcases hsplit with rfl | ho
    · have hmem : key ∈ other.reservation.keys := by
        rw [hk]
        exact List.mem_map.mpr ⟨_, hc, rfl⟩
      exact absurd hid.symm (hne hmem)
    · exact ⟨other, ho, hid, hc⟩
  · rintro ⟨other, ho, hid, hc⟩
    refine ⟨⟨other, ?_, hid, hc⟩, fun _ => hid ▸ hd other ho⟩
    simp only [List.mem_append, List.mem_cons] at ho ⊢
    tauto

end Holding

section Runs

variable {debugText} {s t : System} {action : Action}

/-- The invariant of the registry and its live reservations. -/
structure Held (s : System) : Prop where
  exclusion : ∀ key, Exclusion (s.registry.holders key)
  backed : Backed s.registry s.live
  keys : ∀ grant ∈ s.live, grant.reservation.keys = grant.claims.map (·.key)
  distinct : (s.live.map (·.reservation.id)).Nodup

theorem Held.released (h : Held s) {before after : List Grant} {grant : Grant}
    (hs : s.live = before ++ grant :: after) :
    Backed (release grant.reservation.id grant.reservation.keys s.registry) (before ++ after) := by
  have hgrant : grant ∈ s.live := by
    rw [hs]
    simp
  have hdistinct := h.distinct
  have hbacked := h.backed
  rw [hs] at hdistinct hbacked
  refine hbacked.released (h.keys grant hgrant) fun other ho he => ?_
  simp only [List.map_append, List.map_cons] at hdistinct
  have hmiddle := List.nodup_middle.mp hdistinct
  refine (List.nodup_cons.mp hmiddle).1 ?_
  rw [← List.map_append, ← he]
  exact List.mem_map_of_mem ho

theorem Held.safe (h : Held s) : ReservationSafe debugText s where
  exclusion := h.exclusion
  backed := h.backed
  canonical _ _ _ _ := mem_canonicalize
  granted_iff iter claims imageRemoval := by
    rw [← find_conflict_iff h.backed]
    unfold reserveInner
    dsimp only
    split
    · rename_i conflict hc
      simp [hc]
    · rename_i hnone
      simp [hnone]
  refused _ _ _ _ := reserveInner_error
  released _ _ _ hs := h.released hs

theorem DistinctStep.held (hs : DistinctStep debugText s action t) (h : Held s) : Held t := by
  obtain ⟨hstep, hdistinct⟩ := hs
  cases hstep with
  | granted request result =>
    refine ⟨fun key => ?_, h.backed.granted result, fun grant hg => ?_, hdistinct⟩
    · obtain ⟨hfree, -, hholders⟩ := reserveInner_ok result
      rw [hholders]
      exact (h.exclusion key).granted canonicalize_nodup hfree _
    · rcases List.mem_append.mp hg with hg | hg
      · exact h.keys grant hg
      · rw [List.mem_singleton.mp hg, (reserveInner_ok result).2.1]
  | refused request result =>
    have hsame := reserveInner_error (congrArg Prod.fst result)
    rw [result] at hsame
    simp only at hsame
    subst hsame
    exact h
  | dropped alive =>
    rename_i grant before after
    refine ⟨fun key => ?_, h.released alive, fun other ho => h.keys other ?_, hdistinct⟩
    · rw [release_holders]
      by_cases hm : key ∈ grant.reservation.keys
      · rw [if_pos hm]
        exact (h.exclusion key).filter _
      · rw [if_neg hm]
        exact h.exclusion key
    · rw [alive]
      simp only [List.mem_append, List.mem_cons] at ho ⊢
      tauto

/-- In every state reached without giving two live reservations the same number,
a key has one exclusive holder or shared holders only, a request is granted
exactly when its claims are compatible with the live reservations, a refused
request changes nothing, and a drop releases the claims of its reservation and
no others. -/
theorem reservation_safety {actions : List Action} (h : Run (DistinctStep debugText) {} actions s) :
    ReservationSafe debugText s := by
  have hstart : Held {} := by
    refine ⟨fun key => .inr (by simp [OperationRegistry.holders]), fun key access id => ?_, by simp, by simp⟩
    simp [OperationRegistry.holders]
  have hheld : Held s := h.invariant hstart fun _ _ _ hu hstep => hstep.held hu
  exact hheld.safe

end Runs

section Example

/-- Rust's debug text of a key, for plain names. -/
def debugName : ResourceKey → String
  | .nspawn name => "Nspawn(" ++ name.quote ++ ")"
  | .image name => "Image(" ++ name.quote ++ ")"
  | .systemdManager => "SystemdManager"

def base : ResourceClaim := ⟨.nspawn "base", .shared⟩

private theorem canonicalize_nil : canonicalize debugName (.stored _ _) [] = [] := List.mergeSort_nil

/-- The reservation of the base machine, whatever the counter says. -/
def baseGrant : Grant := ⟨⟨1, [base.key]⟩, [base]⟩

/-- The base machine is reserved, and the counter stands at some number. -/
def reservedBase (nextId : ℕ) : System :=
  ⟨⟨nextId, { claims := (∅ : Holders ResourceKey (ResourceAccess × ℕ)).add base.key (.shared, 1) }⟩,
    [baseGrant]⟩

private theorem reserve_base :
    DistinctStep debugName {} (.reserve (.stored _ _) [base]) (reservedBase 1) := by
  have hreserve : reserveInner debugName (.stored _ _) [base] none {} =
      (.ok ⟨1, [base.key]⟩, (reservedBase 1).registry) := by
    unfold reserveInner
    rw [canonicalize_singleton]
    rfl
  have hstep : Step debugName {} (.reserve (.stored _ _) [base]) ⟨(reservedBase 1).registry,
      [] ++ [⟨⟨1, [base.key]⟩, canonicalize debugName (.stored _ _) [base]⟩]⟩ := .granted rfl hreserve
  rw [canonicalize_singleton] at hstep
  exact ⟨hstep, List.nodup_singleton _⟩

private theorem image_le_nspawn (image machine : String) : debugName (.image image) ≤ debugName (.nspawn machine) := by
  have hfirst : ∀ rest rest' : String, "Image(" ++ rest ≤ "Nspawn(" ++ rest' := by
    intro rest rest'
    show ¬ ("Nspawn(" ++ rest').toList < ("Image(" ++ rest).toList
    rw [String.toList_append, String.toList_append]
    intro h
    cases h with
    | rel h => exact absurd h (by decide)
  have hle := hfirst (image.quote ++ ")") (machine.quote ++ ")")
  rwa [← String.append_assoc, ← String.append_assoc] at hle

/-- The base machine is shared by two reservations, and an image is the second one's alone. -/
def sharedBase : System :=
  let claims := ((reservedBase 1).registry.state.claims.add (.image "disk") (.exclusive, 2)).add base.key (.shared, 2)
  ⟨⟨2, { claims := claims }⟩,
    [baseGrant, ⟨⟨2, [.image "disk", base.key]⟩, [⟨.image "disk", .exclusive⟩, base]⟩]⟩

private theorem reserve_shared :
    DistinctStep debugName (reservedBase 1) (.reserve (.stored _ _) [base, ⟨.image "disk", .exclusive⟩]) sharedBase := by
  have hcanonical : canonicalize debugName (.stored _ _) [base, ⟨.image "disk", .exclusive⟩] =
      [⟨.image "disk", .exclusive⟩, base] :=
    List.mergeSort_of_pairwise (List.pairwise_pair.mpr (decide_eq_true (image_le_nspawn "disk" "base")))
  have hreserve : reserveInner debugName (.stored _ _) [base, ⟨.image "disk", .exclusive⟩] none (reservedBase 1).registry =
      (.ok ⟨2, [.image "disk", base.key]⟩, sharedBase.registry) := by
    unfold reserveInner
    rw [hcanonical]
    rfl
  have hstep : Step debugName (reservedBase 1) (.reserve (.stored _ _) [base, ⟨.image "disk", .exclusive⟩])
      ⟨sharedBase.registry, [baseGrant] ++ [⟨⟨2, [.image "disk", base.key]⟩,
        canonicalize debugName (.stored _ _) [base, ⟨.image "disk", .exclusive⟩]⟩]⟩ := .granted rfl hreserve
  rw [hcanonical] at hstep
  exact ⟨hstep, by decide⟩

theorem reservation_safety_base :
    Run (DistinctStep debugName) {} [.reserve (.stored _ _) [base],
        .reserve (.stored _ _) [base, ⟨.image "disk", .exclusive⟩]] sharedBase ∧
      ReservationSafe debugName sharedBase := by
  have hrun : Run (DistinctStep debugName) {} [.reserve (.stored _ _) [base],
      .reserve (.stored _ _) [base, ⟨.image "disk", .exclusive⟩]] sharedBase :=
    .snoc (.snoc .nil reserve_base) reserve_shared
  exact ⟨hrun, reservation_safety hrun⟩

/-- A reservation without claims that is dropped at once moves only the counter. -/
private theorem idle_steps (nextId : ℕ) : ∃ middle action,
    Step debugName (reservedBase nextId) (.reserve (.stored _ _) []) middle ∧
      Step debugName middle action (reservedBase ((nextId + 1) % 2 ^ 64)) := by
  have hreserve : reserveInner debugName (.stored _ _) [] none (reservedBase nextId).registry =
      (.ok ⟨(nextId + 1) % 2 ^ 64, []⟩, (reservedBase ((nextId + 1) % 2 ^ 64)).registry) := by
    unfold reserveInner
    rw [canonicalize_nil]
    rfl
  let idle : Grant := ⟨⟨(nextId + 1) % 2 ^ 64, []⟩, canonicalize debugName (.stored _ _) []⟩
  have hstep : Step debugName (reservedBase nextId) (.reserve (.stored _ _) [])
      ⟨(reservedBase ((nextId + 1) % 2 ^ 64)).registry, [baseGrant] ++ [idle]⟩ := .granted rfl hreserve
  have hdrop : Step debugName ⟨(reservedBase ((nextId + 1) % 2 ^ 64)).registry, [baseGrant] ++ [idle]⟩
      (.drop idle) ⟨release idle.reservation.id idle.reservation.keys
        (reservedBase ((nextId + 1) % 2 ^ 64)).registry, [baseGrant] ++ []⟩ := .dropped rfl
  exact ⟨_, _, hstep, hdrop⟩

private theorem idle_run (n : ℕ) (hn : n < 2 ^ 64) :
    ∃ actions, Run (Step debugName) {} actions (reservedBase ((1 + n) % 2 ^ 64)) := by
  induction n with
  | zero => exact ⟨_, .snoc .nil reserve_base.1⟩
  | succ n ih =>
    obtain ⟨actions, hrun⟩ := ih (by omega)
    obtain ⟨middle, action, hfirst, hsecond⟩ := idle_steps ((1 + n) % 2 ^ 64)
    have hcount : ((1 + n) % 2 ^ 64 + 1) % 2 ^ 64 = (1 + (n + 1)) % 2 ^ 64 := by omega
    rw [hcount] at hsecond
    exact ⟨_, .snoc (.snoc hrun hfirst) hsecond⟩

/-- The base machine is reserved twice, under the same number. -/
def reservedTwice : OperationRegistry :=
  ⟨1, { claims := (reservedBase 0).registry.state.claims.add base.key (.shared, 1) }⟩

/-- After 2^64 reservations the number of the first one is given out again, and
dropping the second takes the claims of the first with it. -/
theorem repeated_number_releases_both :
    ¬ ∀ (actions : List Action) (s : System), Run (Step debugName) {} actions s →
      ReservationSafe debugName s := by
  intro h
  obtain ⟨actions, hrun⟩ := idle_run (2 ^ 64 - 1) (by omega)
  have hwrapped : (1 + (2 ^ 64 - 1)) % 2 ^ 64 = 0 := by decide
  rw [hwrapped] at hrun
  have hreserve : reserveInner debugName (.stored _ _) [base] none (reservedBase 0).registry =
      (.ok ⟨1, [base.key]⟩, reservedTwice) := by
    unfold reserveInner
    rw [canonicalize_singleton]
    rfl
  have hstep : Step debugName (reservedBase 0) (.reserve (.stored _ _) [base])
      ⟨reservedTwice, [baseGrant] ++ [⟨⟨1, [base.key]⟩, canonicalize debugName (.stored _ _) [base]⟩]⟩ :=
    .granted rfl hreserve
  rw [canonicalize_singleton] at hstep
  have hsafe := h _ _ (.snoc hrun hstep)
  have hbacked := hsafe.released [baseGrant] baseGrant [] rfl base.key .shared 1
  have hgone : (release baseGrant.reservation.id baseGrant.reservation.keys reservedTwice).holders
      base.key = [] := by decide
  have hmem := hbacked.mpr ⟨baseGrant, by simp, rfl, by decide⟩
  rw [hgone] at hmem
  cases hmem

end Example

end Lasper.Operations
