import Lasper.Lib.Checked
import Lasper.Lib.Numbers
import Lasper.Sessions.Startup

/-! The user of a guest as the host sees it. The kernel lists the extents of a user
namespace as text; an id is mapped when one extent alone has it. -/

namespace Lasper.Sessions

open Lib Checked

section Map

def maxIdMapExtents : ℕ := 340

def idBound : ℕ := 2 ^ 32

/-- The id that stands for no user. -/
def reservedId : ℕ := 2 ^ 32 - 1

structure IdMapExtent where
  inside : ℕ
  outside : ℕ
  length : ℕ
  deriving DecidableEq

/-- A failure to read the map, with its text. -/
structure InvalidData where
  message : String

def parseMapField (value : Text) : Except InvalidData ℕ :=
  match Text.parseUnsigned wordBound value with
  | some n => .ok n
  | none => .error ⟨"identity map contains a non-numeric field"⟩

/-- The end of an extent is computed with a check, and compared with the bound. -/
def outsideRange (start length : ℕ) : Bool :=
  match add? start length with
  | some stop => idBound < stop
  | none => true

def parseIdMapRow (line : Text) : Except InvalidData IdMapExtent :=
  match Text.splitAsciiWhitespace line with
  | [first, second, third] => do
    let inside ← parseMapField first
    let outside ← parseMapField second
    let length ← parseMapField third
    if length = 0 ∨ outsideRange inside length = true ∨ outsideRange outside length = true then
      .error ⟨"identity map row is outside the UID/GID range"⟩
    else .ok ⟨inside, outside, length⟩
  | _ => .error ⟨"identity map row does not have three fields"⟩

def addRow (extents : List IdMapExtent) (line : Text) : Except InvalidData (List IdMapExtent) :=
  if maxIdMapExtents ≤ extents.length then .error ⟨"identity map has too many extents"⟩
  else do
    let extent ← parseIdMapRow line
    return extents ++ [extent]

def parseIdMap (text : Text) : Except InvalidData (List IdMapExtent) := do
  let extents ← (Text.lines text).foldlM addRow []
  if extents = [] then .error ⟨"identity map is empty"⟩ else .ok extents

/-- The loop over the extents, with what is mapped so far. -/
def mapIdFrom {ε : Type} (id : ℕ) (mapped : Option ℕ) : List IdMapExtent → Checked ε (Option ℕ)
  | [] => .ok mapped
  | extent :: rest =>
    if id < extent.inside then mapIdFrom id mapped rest
    else do
      let stop ← plus extent.inside extent.length
      if stop ≤ id then mapIdFrom id mapped rest
      else do
        let distance ← minus id extent.inside
        let value ← plus extent.outside distance
        if idBound ≤ value then .ok none
        else if value = reservedId ∨ mapped.isSome then .ok none
        else mapIdFrom id (some value) rest

def mapId {ε : Type} (extents : List IdMapExtent) (id : ℕ) : Checked ε (Option ℕ) := mapIdFrom id none extents

end Map

section Identity

structure ObservedNamespaceIdentity where
  device : ℕ
  inode : ℕ
  deriving DecidableEq

structure ObservedMachineInstance where
  leaderPid : ℕ
  leaderStartTime : Option ℕ
  namespaces : Option (ObservedNamespaceIdentity × ObservedNamespaceIdentity)
  deriving DecidableEq

structure ObservedGuestIdentity where
  uid : ℕ
  gid : ℕ
  deriving DecidableEq

structure MappedGuestIdentity where
  guest : ObservedGuestIdentity
  hostUid : ℕ
  hostGid : ℕ
  observed : ObservedMachineInstance
  deriving DecidableEq

structure MachineInstanceSnapshot where
  revision : ObservedMachineInstance
  uidMap : List IdMapExtent
  gidMap : List IdMapExtent

def mappedIdentity (snapshot : MachineInstanceSnapshot) (guest : ObservedGuestIdentity)
    (probeUserNamespace : ObservedNamespaceIdentity) : Checked SessionError MappedGuestIdentity :=
  if snapshot.revision.namespaces.any fun (_, user) => probeUserNamespace ≠ user then
    report ⟨"guest identity probe ran in a different user namespace than the machine leader", none⟩
  else do
    let uid ← mapId snapshot.uidMap guest.uid
    let hostUid ← orReport uid ⟨s!"guest uid {guest.uid} is not mapped into the host user namespace", none⟩
    let gid ← mapId snapshot.gidMap guest.gid
    let hostGid ← orReport gid ⟨s!"guest gid {guest.gid} is not mapped into the host user namespace", none⟩
    return ⟨guest, hostUid, hostGid, snapshot.revision⟩

end Identity

section Extents

namespace IdMapExtent

def contains (extent : IdMapExtent) (id : ℕ) : Bool := extent.inside ≤ id && id < extent.inside + extent.length

/-- The host's id for an id of the extent. -/
def hostId (extent : IdMapExtent) (id : ℕ) : ℕ := extent.outside + (id - extent.inside)

structure Valid (extent : IdMapExtent) : Prop where
  positive : 0 < extent.length
  inside_le : extent.inside + extent.length ≤ idBound
  outside_le : extent.outside + extent.length ≤ idBound

variable {extent : IdMapExtent} {id : ℕ}

theorem Valid.hostId_lt (h : extent.Valid) (hid : extent.contains id = true) : extent.hostId id < idBound := by
  have houtside := h.outside_le
  simp only [contains, Bool.and_eq_true, decide_eq_true_eq] at hid
  unfold hostId
  omega

end IdMapExtent

/-- The extents that have the id. -/
def holders (extents : List IdMapExtent) (id : ℕ) : List IdMapExtent := extents.filter fun extent => extent.contains id

/-- One extent alone has the id, and the host's id is that of a user. -/
def MapsTo (extents : List IdMapExtent) (id host : ℕ) : Prop :=
  ∃ extent, holders extents id = [extent] ∧ host = extent.hostId id ∧ host ≠ reservedId

variable {extents : List IdMapExtent}

theorem holders_cons_pos {extent : IdMapExtent} {id : ℕ} (h : extent.contains id = true) :
    holders (extent :: extents) id = extent :: holders extents id := List.filter_cons_of_pos h

theorem holders_cons_neg {extent : IdMapExtent} {id : ℕ} (h : ¬ extent.contains id = true) :
    holders (extent :: extents) id = holders extents id := List.filter_cons_of_neg h

theorem outsideRange_le {start length : ℕ} (h : outsideRange start length = false) : start + length ≤ idBound := by
  unfold outsideRange add? at h
  split_ifs at h with hword
  simpa using h

theorem parseIdMapRow_valid {line : Text} {extent : IdMapExtent} (h : parseIdMapRow line = .ok extent) :
    extent.Valid := by
  unfold parseIdMapRow at h
  split at h
  · obtain ⟨inside, -, h⟩ := bind_ok h
    obtain ⟨outside, -, h⟩ := bind_ok h
    obtain ⟨length, -, h⟩ := bind_ok h
    split_ifs at h with hrange
    rw [← Except.ok.inj h]
    simp only [not_or, Bool.not_eq_true] at hrange
    exact ⟨Nat.pos_of_ne_zero hrange.1, outsideRange_le hrange.2.1, outsideRange_le hrange.2.2⟩
  · cases h

theorem addRow_valid {line : Text} {next : List IdMapExtent} (h : addRow extents line = .ok next)
    (hvalid : ∀ extent ∈ extents, extent.Valid) : ∀ extent ∈ next, extent.Valid := by
  unfold addRow at h
  split_ifs at h
  obtain ⟨row, hrow, h⟩ := bind_ok h
  rw [← Except.ok.inj h]
  intro extent hextent
  rcases List.mem_append.mp hextent with hextent | hextent
  · exact hvalid extent hextent
  · rw [List.mem_singleton.mp hextent]
    exact parseIdMapRow_valid hrow

theorem foldlM_addRow_valid {lines : List Text} {next : List IdMapExtent}
    (h : lines.foldlM addRow extents = .ok next) (hvalid : ∀ extent ∈ extents, extent.Valid) :
    ∀ extent ∈ next, extent.Valid := by
  induction lines generalizing extents with
  | nil =>
    rw [← Except.ok.inj h]
    exact hvalid
  | cons line lines ih =>
    rw [List.foldlM_cons] at h
    obtain ⟨more, hline, h⟩ := bind_ok h
    exact ih h (addRow_valid hline hvalid)

/-- Every extent of a map that was read lies in the range of the ids, on both sides. -/
theorem parseIdMap_valid {text : Text} (h : parseIdMap text = .ok extents) : ∀ extent ∈ extents, extent.Valid := by
  unfold parseIdMap at h
  obtain ⟨rows, hrows, h⟩ := bind_ok h
  split_ifs at h
  rw [← Except.ok.inj h]
  exact foldlM_addRow_valid hrows nofun

end Extents

section Mapping

variable {ε : Type} {id : ℕ} {extents : List IdMapExtent} {extent : IdMapExtent}

/-- What one extent does to the loop. -/
theorem mapIdFrom_cons (hvalid : extent.Valid) (mapped : Option ℕ) (rest : List IdMapExtent) :
    (mapIdFrom id mapped (extent :: rest) : Checked ε (Option ℕ)) =
      if extent.contains id then
        if extent.hostId id = reservedId ∨ mapped.isSome then .ok none
        else mapIdFrom id (some (extent.hostId id)) rest
      else mapIdFrom id mapped rest := by
  have hinside := hvalid.inside_le
  have houtside := hvalid.outside_le
  unfold idBound at hinside houtside
  rw [mapIdFrom]
  by_cases hbelow : id < extent.inside
  · have hnot : extent.contains id = false := by simp [IdMapExtent.contains, Nat.not_le.mpr hbelow]
    rw [if_pos hbelow, hnot]
    rfl
  · have hstop : (plus extent.inside extent.length : Checked ε ℕ) = .ok (extent.inside + extent.length) :=
      plus_of_lt (by unfold wordBound; omega)
    rw [if_neg hbelow, bind_of_ok hstop]
    by_cases habove : extent.inside + extent.length ≤ id
    · have hnot : extent.contains id = false := by simp [IdMapExtent.contains, habove]
      rw [if_pos habove, hnot]
      rfl
    · have hhas : extent.contains id = true := by
        simp only [IdMapExtent.contains, Bool.and_eq_true, decide_eq_true_eq]
        omega
      have hdistance : (minus id extent.inside : Checked ε ℕ) = .ok (id - extent.inside) := minus_of_le (by omega)
      have hvalue : (plus extent.outside (id - extent.inside) : Checked ε ℕ) = .ok (extent.hostId id) :=
        plus_of_lt (by unfold wordBound; omega)
      have hlt := hvalid.hostId_lt hhas
      rw [if_neg habove, bind_of_ok hdistance, bind_of_ok hvalue, if_neg (by omega), if_pos hhas]

/-- Behind an id that was mapped, nothing else may have it. -/
theorem mapIdFrom_some (hvalid : ∀ extent ∈ extents, extent.Valid) (value : ℕ) :
    (mapIdFrom id (some value) extents : Checked ε (Option ℕ)) =
      .ok (if holders extents id = [] then some value else none) := by
  induction extents with
  | nil => rfl
  | cons extent rest ih =>
    rw [mapIdFrom_cons (hvalid extent List.mem_cons_self)]
    by_cases hhas : extent.contains id = true
    · rw [if_pos hhas, if_pos (Or.inr Option.isSome_some), holders_cons_pos hhas, if_neg (List.cons_ne_nil _ _)]
    · rw [if_neg hhas, holders_cons_neg hhas, ih fun other hother => hvalid other (List.mem_cons_of_mem _ hother)]

/-- The loop returns the id of the one extent that has it. -/
theorem mapId_mapsTo (hvalid : ∀ extent ∈ extents, extent.Valid) :
    ∃ answer, (mapId extents id : Checked ε (Option ℕ)) = .ok answer ∧ ∀ host, answer = some host ↔ MapsTo extents id host := by
  unfold mapId
  induction extents with
  | nil => exact ⟨none, rfl, fun host => ⟨nofun, fun ⟨_, hnone, _⟩ => nomatch hnone⟩⟩
  | cons extent rest ih =>
    have hrest : ∀ other ∈ rest, other.Valid := fun other hother => hvalid other (List.mem_cons_of_mem _ hother)
    rw [mapIdFrom_cons (hvalid extent List.mem_cons_self)]
    unfold MapsTo
    by_cases hhas : extent.contains id = true
    · rw [if_pos hhas, holders_cons_pos hhas]
      by_cases hreserved : extent.hostId id = reservedId
      · refine ⟨none, if_pos (Or.inl hreserved), fun host => ⟨nofun, ?_⟩⟩
        rintro ⟨other, hone, hhost, hne⟩
        rw [← (List.cons.inj hone).1] at hhost
        exact absurd (hhost.trans hreserved) hne
      · refine ⟨_, (if_neg (by simpa using hreserved)).trans (mapIdFrom_some hrest _), fun host => ?_⟩
        by_cases hmore : holders rest id = []
        · rw [if_pos hmore, hmore]
          constructor
          · rintro ⟨⟩
            exact ⟨extent, rfl, rfl, hreserved⟩
          · rintro ⟨other, hone, hhost, -⟩
            rw [← (List.cons.inj hone).1] at hhost
            rw [hhost]
        · rw [if_neg hmore]
          exact ⟨nofun, fun ⟨_, hone, _⟩ => absurd (List.cons.inj hone).2 hmore⟩
    · rw [if_neg hhas, holders_cons_neg hhas]
      exact ih hrest

theorem mappedIdentity_yields {snapshot : MachineInstanceSnapshot}
    (huid : ∀ extent ∈ snapshot.uidMap, extent.Valid) (hgid : ∀ extent ∈ snapshot.gidMap, extent.Valid)
    (guest : ObservedGuestIdentity) (probe : ObservedNamespaceIdentity) :
    Yields (mappedIdentity snapshot guest probe) fun identity => identity.guest = guest ∧
      MapsTo snapshot.uidMap guest.uid identity.hostUid ∧ MapsTo snapshot.gidMap guest.gid identity.hostGid := by
  obtain ⟨uid, huidAnswer, huidIff⟩ := @mapId_mapsTo SessionError guest.uid _ huid
  obtain ⟨gid, hgidAnswer, hgidIff⟩ := @mapId_mapsTo SessionError guest.gid _ hgid
  unfold mappedIdentity
  split_ifs
  · exact yields_report _
  · apply yields_pass huidAnswer
    apply yields_bind (yields_orReport uid _)
    intro hostUid hhostUid
    apply yields_pass hgidAnswer
    apply yields_bind (yields_orReport gid _)
    intro hostGid hhostGid
    exact yields_pure ⟨rfl, (huidIff hostUid).mp hhostUid, (hgidIff hostGid).mp hhostGid⟩

/-- Ids are mapped exactly as the maps say, without an overflow, and a user of the guest is only ever
taken for the user of the host that its maps name alone. -/
theorem mappedIdentity_exact {uidText gidText : Text} {snapshot : MachineInstanceSnapshot}
    (huid : parseIdMap uidText = .ok snapshot.uidMap) (hgid : parseIdMap gidText = .ok snapshot.gidMap) :
    (∀ extents ∈ [snapshot.uidMap, snapshot.gidMap], ∀ id,
      ∃ answer, (mapId extents id : Checked SessionError (Option ℕ)) = .ok answer ∧
        ∀ host, answer = some host ↔ MapsTo extents id host) ∧
    ∀ guest probe,
      mappedIdentity snapshot guest probe ≠ .error .panicked ∧
      ∀ identity, mappedIdentity snapshot guest probe = .ok identity →
        identity.guest = guest ∧ MapsTo snapshot.uidMap guest.uid identity.hostUid ∧
          MapsTo snapshot.gidMap guest.gid identity.hostGid := by
  have huidValid := parseIdMap_valid huid
  have hgidValid := parseIdMap_valid hgid
  constructor
  · simp only [List.forall_mem_cons]
    exact ⟨fun id => mapId_mapsTo huidValid, fun id => mapId_mapsTo hgidValid, nofun⟩
  · intro guest probe
    have hyields := mappedIdentity_yields huidValid hgidValid guest probe
    exact ⟨hyields.faultless.1, hyields.returned⟩

/-- The ids of a machine are those of the host from 100000 on, and ten of them are
others as well. -/
def overlappingText : Text := "         0     100000      65536\n      1000     300000         10\n".toList

def overlappingSnapshot : MachineInstanceSnapshot :=
  ⟨⟨1, none, none⟩, [⟨0, 100000, 65536⟩, ⟨1000, 300000, 10⟩], [⟨0, 100000, 65536⟩, ⟨1000, 300000, 10⟩]⟩

/-- An id of both extents is mapped to none, and an id of one to its own. -/
theorem mappedIdentity_exact_shifted :
    parseIdMap overlappingText = .ok overlappingSnapshot.uidMap ∧
      (∀ host, ¬ MapsTo overlappingSnapshot.uidMap 1000 host) ∧
      ∃ identity, mappedIdentity overlappingSnapshot ⟨2000, 100⟩ ⟨0, 0⟩ = .ok identity ∧
        identity.hostUid = 102000 ∧ MapsTo overlappingSnapshot.uidMap 2000 identity.hostUid := by
  have hread : parseIdMap overlappingText = .ok overlappingSnapshot.uidMap := by rfl
  obtain ⟨hexact, hmapped⟩ := mappedIdentity_exact hread hread
  obtain ⟨answer, hanswer, hmaps⟩ := hexact overlappingSnapshot.uidMap List.mem_cons_self 1000
  refine ⟨hread, fun host hhost => ?_, _, rfl, rfl, ((hmapped ⟨2000, 100⟩ ⟨0, 0⟩).2 _ rfl).2.1⟩
  have hsome := (hmaps host).mpr hhost
  rw [hsome] at hanswer
  cases hanswer

end Mapping

end Lasper.Sessions
