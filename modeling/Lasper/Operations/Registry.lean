import Mathlib.Algebra.Order.Ring.Int
import Mathlib.Data.List.Sort
import Lasper.Lib.Holders

/-! The in-process registry of resource reservations. Its state is under one
lock, so a reservation and its release are atomic steps. The requested claims
are merged in a hash map, which is then visited in an unspecified order and
sorted by the text of the keys. -/

namespace Lasper.Operations

open Lib

/-- How a host operation is carried out. -/
inductive ExecutionRoute
  | directDbus
  | elevatedDbus
  | localSystemdTools
  | elevatedSystemdTools
  deriving DecidableEq

def ExecutionRoute.isDbus : ExecutionRoute → Bool
  | .directDbus | .elevatedDbus => true
  | _ => false

structure RouteFallback where
  from_ : ExecutionRoute
  to_ : ExecutionRoute
  reason : String
  deriving DecidableEq

inductive ResourceKey
  | nspawn (name : String)
  | image (name : String)
  | systemdManager
  deriving DecidableEq

inductive ResourceAccess
  | shared
  | exclusive
  deriving DecidableEq

structure ResourceClaim where
  key : ResourceKey
  access : ResourceAccess
  deriving DecidableEq

structure ResourceConflict where
  key : ResourceKey
  deriving DecidableEq

/-- Who holds which key, and which reservation removes which image. -/
structure RegistryState where
  claims : Holders ResourceKey (ResourceAccess × ℕ) := ∅
  imageRemovals : Table String ℕ := ∅

structure ResourceReservation where
  id : ℕ
  keys : List ResourceKey
  deriving DecidableEq

structure OperationRegistry where
  nextId : ℕ := 0
  state : RegistryState := {}

/-- An exclusive claim wins over the other claims on its key. -/
def mergeClaim (canonical : Table ResourceKey ResourceAccess) (claim : ResourceClaim) :
    Table ResourceKey ResourceAccess :=
  match canonical.lookup claim.key with
  | some access => canonical.insert claim.key (if claim.access = .exclusive then .exclusive else access)
  | none => canonical.insert claim.key claim.access

/-- Does a live reservation stand in the way of the claim? -/
def RegistryState.conflicts (state : RegistryState) (claim : ResourceClaim) : Bool :=
  (state.claims.lookup claim.key).any fun holders =>
    holders.any fun holder => holder.1 = .exclusive || claim.access = .exclusive

/-- The 64-bit number of the next reservation. -/
def OperationRegistry.drawId (registry : OperationRegistry) : ℕ := (registry.nextId + 1) % 2 ^ 64

section Reserve

variable (debugText : ResourceKey → String) (iter : Iteration ResourceKey ResourceAccess)

def canonicalize (claims : List ResourceClaim) : List ResourceClaim :=
  ((iter.order (claims.foldl mergeClaim ∅).entries).map fun entry => ⟨entry.1, entry.2⟩).mergeSort
    fun left right => debugText left.key ≤ debugText right.key

def reserveInner (claims : List ResourceClaim) (imageRemoval : Option String)
    (registry : OperationRegistry) : Except ResourceConflict ResourceReservation × OperationRegistry :=
  let claims := canonicalize debugText iter claims
  match claims.find? registry.state.conflicts with
  | some claim => (.error ⟨claim.key⟩, registry)
  | none =>
    let id := registry.drawId
    (.ok ⟨id, claims.map (·.key)⟩,
      { nextId := id
        state :=
          { claims := claims.foldl (fun held claim => held.add claim.key (claim.access, id))
              registry.state.claims
            imageRemovals := match imageRemoval with
              | some imageName => registry.state.imageRemovals.insert imageName id
              | none => registry.state.imageRemovals } })

end Reserve

/-- What dropping a reservation does. -/
def release (id : ℕ) (keys : List ResourceKey) (registry : OperationRegistry) : OperationRegistry :=
  { registry with
    state :=
      { claims := keys.foldl (Holders.dismiss fun holder => holder.2 = id) registry.state.claims
        imageRemovals := registry.state.imageRemovals.retain (· ≠ id) } }

section Canonical

variable {debugText : ResourceKey → String} {iter : Iteration ResourceKey ResourceAccess}
  {claims : List ResourceClaim}

theorem lookup_mergeClaim (m : Table ResourceKey ResourceAccess) (claim : ResourceClaim) (key : ResourceKey) :
    (mergeClaim m claim).lookup key =
      if key = claim.key then some (if claim.access = .exclusive then .exclusive
        else (m.lookup key).getD .shared) else m.lookup key := by
  unfold mergeClaim
  by_cases hk : key = claim.key
  · subst hk
    cases hl : m.lookup claim.key with
    | none => cases claim.access <;> simp
    | some access => simp
  · cases m.lookup claim.key <;> simp [hk, AList.lookup_insert_ne]

/-- What the merged claims say of one key. -/
theorem lookup_merged (claims : List ResourceClaim) (m : Table ResourceKey ResourceAccess)
    (key : ResourceKey) (access : ResourceAccess) :
    (claims.foldl mergeClaim m).lookup key = some access ↔
      ((∃ claim ∈ claims, claim.key = key) ∨ key ∈ m) ∧
        (access = .exclusive ↔ (∃ claim ∈ claims, claim.key = key ∧ claim.access = .exclusive) ∨
          m.lookup key = some .exclusive) := by
  induction claims generalizing m with
  | nil =>
    cases hl : m.lookup key with
    | none =>
      have hn : key ∉ m := AList.lookup_eq_none.mp hl
      simp [hl, hn]
    | some held =>
      have hm : key ∈ m := Table.mem_of_lookup hl
      cases held <;> cases access <;> simp [hl, hm]
  | cons claim claims ih =>
    rw [List.foldl_cons, ih, lookup_mergeClaim]
    have hmem : key ∈ mergeClaim m claim ↔ key = claim.key ∨ key ∈ m := by
      rw [← AList.lookup_isSome, lookup_mergeClaim, ← AList.lookup_isSome (a := key)]
      by_cases hk : key = claim.key
      · simp [hk]
      · simp [hk]
    rw [hmem]
    by_cases hk : key = claim.key
    · subst hk
      cases hl : m.lookup claim.key with
      | none => cases ha : claim.access <;> simp [ha]
      | some held => cases ha : claim.access <;> cases held <;> simp [ha]
    · have hne : claim.key ≠ key := fun he => hk he.symm
      simp [hk, hne]

theorem mem_canonicalize {key : ResourceKey} {access : ResourceAccess} :
    (⟨key, access⟩ : ResourceClaim) ∈ canonicalize debugText iter claims ↔
      (∃ claim ∈ claims, claim.key = key) ∧
        (access = .exclusive ↔ ∃ claim ∈ claims, claim.key = key ∧ claim.access = .exclusive) := by
  have hlookup := lookup_merged claims ∅ key access
  simp only [AList.notMem_empty, or_false, AList.lookup_empty, reduceCtorEq] at hlookup
  rw [← hlookup]
  unfold canonicalize
  rw [List.mem_mergeSort, List.mem_map]
  constructor
  · rintro ⟨entry, hm, he⟩
    obtain ⟨rfl, rfl⟩ := ResourceClaim.mk.inj he
    exact AList.mem_lookup_iff.mpr ((iter.perm _).mem_iff.mp hm)
  · intro hl
    exact ⟨⟨key, access⟩, (iter.perm _).mem_iff.mpr (AList.mem_lookup_iff.mp hl), rfl⟩

theorem canonicalize_nodup : ((canonicalize debugText iter claims).map (·.key)).Nodup := by
  unfold canonicalize
  have hperm := List.mergeSort_perm ((iter.order (claims.foldl mergeClaim ∅).entries).map
    fun entry => (⟨entry.1, entry.2⟩ : ResourceClaim))
    (fun left right => decide (debugText left.key ≤ debugText right.key))
  refine (hperm.map _).nodup_iff.mpr ?_
  rw [List.map_map]
  refine ((iter.perm _).map _).nodup_iff.mpr ?_
  exact (claims.foldl mergeClaim ∅).nodupKeys

theorem canonicalize_singleton (claim : ResourceClaim) : canonicalize debugText iter [claim] = [claim] := by
  have hentries : (mergeClaim ∅ claim).entries = [⟨claim.key, claim.access⟩] := rfl
  have horder : iter.order (mergeClaim ∅ claim).entries = [⟨claim.key, claim.access⟩] := by
    rw [hentries]
    exact List.perm_singleton.mp (iter.perm _)
  show List.mergeSort ((iter.order (mergeClaim ∅ claim).entries).map _) _ = _
  rw [horder]
  exact List.mergeSort_singleton _

end Canonical

end Lasper.Operations
