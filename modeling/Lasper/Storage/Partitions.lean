import Lasper.Config.Apply
import Lasper.Lib.Numbers
import Lasper.Lib.Checked

/-! Which partition of an image is the root file system, and whether its type has to be
changed so that it is found. -/

namespace Lasper.Storage

open Lib Config

section Tables

def maxDiskImagePartitions : ℕ := 128

structure DiskImagePartition where
  number : ℕ
  valid : 1 ≤ number ∧ number ≤ maxDiskImagePartitions
  deriving DecidableEq

def DiskImagePartition.new (number : ℕ) : Except NspawnError DiskImagePartition :=
  if h : 1 ≤ number ∧ number ≤ maxDiskImagePartitions then .ok ⟨number, h⟩
  else .error (.validation "disk image partition must be between 1 and 128")

structure ImagePartitionLayout where
  number : DiskImagePartition
  node : Text
  typeId : Text

structure ImagePartitionTable where
  label : Text
  partitions : List ImagePartitionLayout

structure RootPartitionResolution where
  partition : Option DiskImagePartition
  markSelectedAsRoot : Bool

/-- The table as `sfdisk` lists it. -/
structure SfdiskPartitionTable where
  label : Text
  device : Text
  partitions : List (Text × Text)

end Tables

section Resolution

variable (architecture : String)

def discoverableRootUuid : Except NspawnError Text :=
  match architecture with
  | "aarch64" => .ok "B921B045-1DF0-41C3-AF44-4C6F280D3FAE".toList
  | "x86_64" => .ok "4F68BCE3-E8CD-4DB1-96E7-FBCAF984B709".toList
  | "x86" => .ok "44479540-F297-41B2-9AF7-D131D5F0458A".toList
  | "arm" => .ok "69DAD710-2CE4-4E3C-B16C-21A1D49ABED3".toList
  | "riscv64" => .ok "1AE5EE25-DDF4-4BD0-8459-24AC0BBE1559".toList
  | _ => .error (.validation
      s!"No discoverable root partition type is configured for architecture {architecture}")

def hasType (rootType : Text) (partition : ImagePartitionLayout) : Bool :=
  Text.eqIgnoreAsciiCase partition.typeId rootType

def discoverableRootPartitions (table : ImagePartitionTable) : Except NspawnError (List DiskImagePartition) := do
  let rootType ← discoverableRootUuid architecture
  return (table.partitions.filter (hasType rootType)).map (·.number)

def partitionSummary (table : ImagePartitionTable) : String :=
  ", ".intercalate (table.partitions.map fun partition =>
    let typeId := if partition.typeId = [] then "unknown" else String.ofList partition.typeId
    s!"p{partition.number.number} ({typeId})")

def partitionList (partitions : List DiskImagePartition) : String :=
  ", ".intercalate (partitions.map fun partition => s!"p{partition.number}")

def multipleRoots (roots : List DiskImagePartition) : NspawnError :=
  .validation s!"Image contains multiple current architecture root partitions: {partitionList roots}"

def resolveSelected (table : ImagePartitionTable) (selected : DiskImagePartition) :
    Except NspawnError RootPartitionResolution :=
  if ¬ table.partitions.any (·.number = selected) then
    .error (.validation s!"Selected root partition p{selected.number} does not exist; available partitions: {partitionSummary table}")
  else if table.partitions.length = 1 then .ok ⟨some selected, false⟩
  else if ¬ Text.eqIgnoreAsciiCase table.label "gpt".toList then
    .error (.validation "Manual root selection for a multi-partition image requires GPT so systemd-nspawn can discover it")
  else do
    let roots ← discoverableRootPartitions architecture table
    match roots with
    | [] => .ok ⟨some selected, true⟩
    | [root] =>
      if root = selected then .ok ⟨some selected, false⟩
      else .error (.validation s!"p{root.number} is already marked as the current architecture root partition; refusing to replace it with p{selected.number}")
    | _ => .error (multipleRoots roots)

def resolveDiscovered (table : ImagePartitionTable) : Except NspawnError RootPartitionResolution :=
  match table.partitions with
  | [partition] => .ok ⟨some partition.number, false⟩
  | _ => do
    let roots ← discoverableRootPartitions architecture table
    match roots with
    | [root] => .ok ⟨some root, false⟩
    | [] => .error (.validation s!"Multi-partition image has no root partition for this architecture; select one in the storage step. Available partitions: {partitionSummary table}")
    | _ => .error (multipleRoots roots)

def resolveRootPartition (table : Option ImagePartitionTable) (selected : Option DiskImagePartition) :
    Except NspawnError RootPartitionResolution :=
  match table with
  | none => match selected with
    | some selected =>
      .error (.validation s!"Cannot select p{selected.number} from an image without a partition table")
    | none => .ok ⟨none, false⟩
  | some table =>
    if table.partitions = [] then .error (.validation "Disk image partition table contains no partitions")
    else match selected with
      | some selected => resolveSelected architecture table selected
      | none => resolveDiscovered architecture table

def allowsLoopFallback (table : Option ImagePartitionTable) (selected : Option DiskImagePartition) :
    Except NspawnError Bool :=
  if table.any fun table => 1 < table.partitions.length then do
    let _ ← resolveRootPartition architecture table selected
    return false
  else .ok true

end Resolution

section Listing

/-- What follows the device's name, and a `p` where there is one. -/
def nodeSuffix (device node : Text) : Option Text :=
  ((Text.stripPrefix device node).map fun suffix => (Text.stripPrefix ['p'] suffix).getD suffix).filter fun suffix =>
    suffix ≠ [] && suffix.all Char.isDigit

def partitionNumberFromNode (device node : Text) : Except NspawnError DiskImagePartition :=
  match nodeSuffix device node with
  | none => .error (.validation s!"Invalid partition node returned by sfdisk: {String.ofList node} for {String.ofList device}")
  | some suffix => match Text.parseUnsigned (2 ^ 32) suffix with
    | none => .error (.validation s!"Invalid partition number returned by sfdisk: {String.ofList node}")
    | some number => DiskImagePartition.new number

def parseSfdiskPartition (device : Text) (entry : Text × Text) : Except NspawnError ImagePartitionLayout := do
  let number ← partitionNumberFromNode device entry.1
  return ⟨number, entry.1, entry.2⟩

def parseSfdiskPartitionTable (parsed : SfdiskPartitionTable) : Except NspawnError ImagePartitionTable := do
  let partitions ← parsed.partitions.mapM (parseSfdiskPartition parsed.device)
  return ⟨parsed.label, partitions.mergeSort fun a b => a.number.number ≤ b.number.number⟩

/-- The digits at the end of a name. -/
def decimalSuffix (node : Text) : Text := node.rtakeWhile Char.isDigit

end Listing

section Resolved

variable {architecture : String} {table : ImagePartitionTable} {selected : DiskImagePartition}
  {resolution : RootPartitionResolution}

theorem discoverableRootPartitions_ok {roots : List DiskImagePartition}
    (h : discoverableRootPartitions architecture table = .ok roots) : ∃ rootType,
      discoverableRootUuid architecture = .ok rootType ∧
        roots = (table.partitions.filter (hasType rootType)).map (·.number) := by
  obtain ⟨rootType, hrootType, h⟩ := bind_ok h
  exact ⟨rootType, hrootType, (Except.ok.inj h).symm⟩

/-- The partition that was selected is there; it is marked only where no root is. -/
theorem resolveSelected_ok (h : resolveSelected architecture table selected = .ok resolution) :
    resolution.partition = some selected ∧ (∃ partition ∈ table.partitions, partition.number = selected) ∧
      (resolution.markSelectedAsRoot = true → ∃ rootType, discoverableRootUuid architecture = .ok rootType ∧
        Text.eqIgnoreAsciiCase table.label "gpt".toList = true ∧ table.partitions.length ≠ 1 ∧
        ∀ partition ∈ table.partitions, hasType rootType partition = false) := by
  unfold resolveSelected at h
  split_ifs at h with hexists hsingle hlabel
  · rw [← Except.ok.inj h]
    exact ⟨rfl, by simpa using hexists, nofun⟩
  · have hthere : ∃ partition ∈ table.partitions, partition.number = selected := by simpa using hexists
    obtain ⟨roots, hroots, h⟩ := bind_ok h
    obtain ⟨rootType, hrootType, hroots⟩ := discoverableRootPartitions_ok hroots
    split at h
    · rw [← Except.ok.inj h]
      refine ⟨rfl, hthere, fun _ => ⟨rootType, hrootType, by simpa using hlabel, hsingle, fun partition hmem => ?_⟩⟩
      rw [eq_comm, List.map_eq_nil_iff, List.filter_eq_nil_iff] at hroots
      simpa using hroots partition hmem
    · split_ifs at h
      rw [← Except.ok.inj h]
      exact ⟨rfl, hthere, nofun⟩
    · cases h

/-- What is found without a selection is the only partition, or the only one of the type. -/
theorem resolveDiscovered_ok (h : resolveDiscovered architecture table = .ok resolution) :
    resolution.markSelectedAsRoot = false ∧
      ∃ partition ∈ table.partitions, resolution.partition = some partition.number := by
  unfold resolveDiscovered at h
  split at h
  · next partition hpartitions =>
    rw [← Except.ok.inj h, hpartitions]
    exact ⟨rfl, partition, List.mem_cons_self, rfl⟩
  · obtain ⟨roots, hroots, h⟩ := bind_ok h
    obtain ⟨rootType, -, hroots⟩ := discoverableRootPartitions_ok hroots
    rcases roots with _ | ⟨root, _ | ⟨other, more⟩⟩
    · cases h
    · rw [← Except.ok.inj h]
      have hmem : root ∈ (table.partitions.filter (hasType rootType)).map (·.number) := by
        rw [← hroots]
        exact List.mem_cons_self
      obtain ⟨partition, hpartition, rfl⟩ := List.mem_map.mp hmem
      exact ⟨rfl, partition, (List.mem_filter.mp hpartition).1, rfl⟩
    · cases h

/-- A table of several partitions resolves exactly when one of them has the type of a root. -/
theorem resolveDiscovered_iff (hseveral : 2 ≤ table.partitions.length) :
    (∃ resolution, resolveDiscovered architecture table = .ok resolution) ↔
      ∃ rootType, discoverableRootUuid architecture = .ok rootType ∧
        (table.partitions.filter (hasType rootType)).length = 1 := by
  have hunfold : resolveDiscovered architecture table = (do
      let roots ← discoverableRootPartitions architecture table
      match roots with
      | [root] => .ok ⟨some root, false⟩
      | [] => .error (.validation s!"Multi-partition image has no root partition for this architecture; select one in the storage step. Available partitions: {partitionSummary table}")
      | _ => .error (multipleRoots roots)) := by
    unfold resolveDiscovered
    split
    · next partition hpartitions =>
      rw [hpartitions] at hseveral
      exact absurd hseveral (Nat.not_succ_le_self 1)
    · rfl
  rw [hunfold]
  constructor
  · rintro ⟨resolution, h⟩
    obtain ⟨roots, hroots, h⟩ := bind_ok h
    obtain ⟨rootType, hrootType, hroots⟩ := discoverableRootPartitions_ok hroots
    refine ⟨rootType, hrootType, ?_⟩
    have hlength := congrArg List.length hroots
    rw [List.length_map] at hlength
    rw [← hlength]
    split at h
    · rfl
    · cases h
    · cases h
  · rintro ⟨rootType, hrootType, hone⟩
    obtain ⟨partition, hpartition⟩ := List.length_eq_one_iff.mp hone
    refine ⟨⟨some partition.number, false⟩, ?_⟩
    rw [discoverableRootPartitions, hrootType]
    show (match (table.partitions.filter (hasType rootType)).map (·.number) with
      | [root] => (.ok ⟨some root, false⟩ : Except NspawnError RootPartitionResolution)
      | [] => _
      | _ => _) = _
    rw [hpartition]
    rfl

/-- A resolved partition is one of the table. -/
theorem resolveRootPartition_mem {table : Option ImagePartitionTable} {selected : Option DiskImagePartition}
    (h : resolveRootPartition architecture table selected = .ok resolution) :
    (∀ number ∈ resolution.partition, ∃ known ∈ table, ∃ partition ∈ known.partitions, partition.number = number) ∧
      (resolution.markSelectedAsRoot = true → ∃ known ∈ table, ∃ rootType,
        discoverableRootUuid architecture = .ok rootType ∧
        Text.eqIgnoreAsciiCase known.label "gpt".toList = true ∧ 2 ≤ known.partitions.length ∧
        ∀ partition ∈ known.partitions, hasType rootType partition = false) := by
  unfold resolveRootPartition at h
  split at h
  · split at h
    · cases h
    · rw [← Except.ok.inj h]
      exact ⟨nofun, nofun⟩
  · next known =>
    split_ifs at h with hempty
    split at h
    · next selected =>
      obtain ⟨hpartition, hmem, hmark⟩ := resolveSelected_ok h
      constructor
      · intro number hnumber
        rw [hpartition] at hnumber
        cases hnumber
        exact ⟨known, rfl, hmem⟩
      · intro hmarked
        obtain ⟨rootType, hrootType, hlabel, hsingle, hnone⟩ := hmark hmarked
        have hpositive := List.length_pos_of_ne_nil hempty
        exact ⟨known, rfl, rootType, hrootType, hlabel, by omega, hnone⟩
    · obtain ⟨hmark, partition, hmem, hpartition⟩ := resolveDiscovered_ok h
      constructor
      · intro number hnumber
        rw [hpartition] at hnumber
        cases hnumber
        exact ⟨known, rfl, partition, hmem, rfl⟩
      · intro hmarked
        rw [hmark] at hmarked
        cases hmarked

end Resolved

section Named

variable {device node : Text}

/-- What is read behind the name of the device, with a `p` or without. -/
theorem nodeSuffix_some {suffix : Text} (h : nodeSuffix device node = some suffix) :
    suffix ≠ [] ∧ (∀ c ∈ suffix, c.isDigit = true) ∧
      (node = device ++ suffix ∨ node = device ++ 'p' :: suffix) := by
  obtain ⟨hmap, hdigits⟩ := Option.filter_eq_some_iff.mp h
  obtain ⟨rest, hrest, hsuffix⟩ := Option.map_eq_some_iff.mp hmap
  simp only [Bool.and_eq_true, decide_eq_true_eq, List.all_eq_true] at hdigits
  refine ⟨hdigits.1, hdigits.2, ?_⟩
  rw [Text.stripPrefix_some hrest]
  cases hletter : Text.stripPrefix ['p'] rest with
  | none =>
    rw [hletter, Option.getD_none] at hsuffix
    exact .inl (by rw [hsuffix])
  | some digits =>
    rw [hletter, Option.getD_some] at hsuffix
    exact .inr (by rw [Text.stripPrefix_some hletter, hsuffix]; rfl)

theorem withoutPlus_digits {digits : Text} (h : ∀ c ∈ digits, c.isDigit = true) : Text.withoutPlus digits = digits := by
  unfold Text.withoutPlus
  split
  · next rest => exact absurd (h '+' List.mem_cons_self) (by decide)
  · rfl

theorem partitionNumberFromNode_ok {number : DiskImagePartition} (h : partitionNumberFromNode device node = .ok number) :
    ∃ digits, digits ≠ [] ∧ (∀ c ∈ digits, c.isDigit = true) ∧ number.number = Text.decimalValue digits ∧
      (node = device ++ digits ∨ node = device ++ 'p' :: digits) := by
  unfold partitionNumberFromNode at h
  split at h
  · cases h
  · next suffix hsuffix =>
    obtain ⟨hne, hdigits, hnode⟩ := nodeSuffix_some hsuffix
    split at h
    · cases h
    · next value hvalue =>
      unfold Text.parseUnsigned at hvalue
      split_ifs at hvalue with hbound
      rw [withoutPlus_digits hdigits, Option.some_inj] at hvalue
      unfold DiskImagePartition.new at h
      split_ifs at h with hvalid
      refine ⟨suffix, hne, hdigits, ?_, hnode⟩
      rw [← Except.ok.inj h, hvalue]

theorem decimalSuffix_append {front digits : Text} (hdigits : ∀ c ∈ digits, c.isDigit = true)
    (hfront : ∀ c ∈ front.getLast?, c.isDigit = false) : decimalSuffix (front ++ digits) = digits := by
  unfold decimalSuffix
  induction digits using List.reverseRecOn with
  | nil =>
    rw [List.append_nil, List.rtakeWhile_eq_nil_iff]
    intro hne
    rw [hfront _ (List.getLast?_eq_some_getLast hne)]
    exact Bool.false_ne_true
  | append_singleton digits c ih =>
    rw [← List.append_assoc, List.rtakeWhile_concat_pos _ _ _ (hdigits c (List.mem_append_right _ List.mem_cons_self)),
      ih fun d hd => hdigits d (List.mem_append_left _ hd)]

/-- Where a `p` follows a device that ends in a digit, the number is the suffix of the node. -/
theorem number_decimalSuffix {number : DiskImagePartition} (h : partitionNumberFromNode device node = .ok number)
    (hnamed : device.getLast?.any Char.isDigit = true → device ++ ['p'] <+: node) :
    number.number = Text.decimalValue (decimalSuffix node) := by
  obtain ⟨digits, hne, hdigits, hnumber, hnode⟩ := partitionNumberFromNode_ok h
  have hletter : decimalSuffix (device ++ 'p' :: digits) = digits := by
    rw [List.append_cons]
    apply decimalSuffix_append hdigits
    intro c hc
    rw [List.getLast?_concat] at hc
    cases hc
    decide
  rw [hnumber]
  rcases hnode with rfl | rfl
  · by_cases hdigit : device.getLast?.any Char.isDigit = true
    · obtain ⟨rest, hrest⟩ := hnamed hdigit
      rw [List.append_assoc] at hrest
      rw [← List.append_cancel_left hrest] at hdigits
      exact absurd (hdigits 'p' List.mem_cons_self) (by decide)
    · rw [decimalSuffix_append hdigits]
      intro c hc
      rw [Option.mem_def.mp hc] at hdigit
      simpa using hdigit
  · rw [hletter]

theorem mapM_mem {α β ε : Type} {f : α → Except ε β} {xs : List α} {ys : List β} (h : xs.mapM f = .ok ys) {y : β}
    (hy : y ∈ ys) : ∃ x ∈ xs, f x = .ok y := by
  induction xs generalizing ys with
  | nil =>
    rw [← Except.ok.inj h] at hy
    cases hy
  | cons x xs ih =>
    rw [List.mapM_cons] at h
    obtain ⟨z, hz, h⟩ := bind_ok h
    obtain ⟨zs, hzs, h⟩ := bind_ok h
    rw [← Except.ok.inj h] at hy
    rcases List.mem_cons.mp hy with rfl | hy
    · exact ⟨x, List.mem_cons_self, hz⟩
    · obtain ⟨other, hother, hfound⟩ := ih hzs hy
      exact ⟨other, List.mem_cons_of_mem _ hother, hfound⟩

theorem parseSfdiskPartitionTable_mem {parsed : SfdiskPartitionTable} {table : ImagePartitionTable}
    (h : parseSfdiskPartitionTable parsed = .ok table) {partition : ImagePartitionLayout}
    (hpartition : partition ∈ table.partitions) :
    (partition.node, partition.typeId) ∈ parsed.partitions ∧
      partitionNumberFromNode parsed.device partition.node = .ok partition.number := by
  obtain ⟨partitions, hpartitions, h⟩ := bind_ok h
  rw [← Except.ok.inj h, List.mem_mergeSort] at hpartition
  obtain ⟨entry, hentry, hfound⟩ := mapM_mem hpartitions hpartition
  obtain ⟨number, hnumber, hlayout⟩ := bind_ok hfound
  rw [← Except.ok.inj hlayout]
  exact ⟨hentry, hnumber⟩

end Named

section Root

/-- The decision about the root of an image, and the numbers that it rests on. -/
theorem rootPartition_decided (architecture : String) :
    (∀ table selected resolution, resolveRootPartition architecture table selected = .ok resolution →
      (∀ number ∈ resolution.partition, ∃ known ∈ table, ∃ partition ∈ known.partitions, partition.number = number) ∧
      (resolution.markSelectedAsRoot = true → ∃ known ∈ table, ∃ rootType,
        discoverableRootUuid architecture = .ok rootType ∧
        Text.eqIgnoreAsciiCase known.label "gpt".toList = true ∧ 2 ≤ known.partitions.length ∧
        ∀ partition ∈ known.partitions, hasType rootType partition = false)) ∧
    (∀ table : ImagePartitionTable, 2 ≤ table.partitions.length →
      ((∃ resolution, resolveRootPartition architecture (some table) none = .ok resolution) ↔
        ∃ rootType, discoverableRootUuid architecture = .ok rootType ∧
          (table.partitions.filter (hasType rootType)).length = 1)) ∧
    (∀ table selected, allowsLoopFallback architecture table selected = .ok true →
      ∀ known ∈ table, known.partitions.length ≤ 1) ∧
    ∀ parsed table, parseSfdiskPartitionTable parsed = .ok table → ∀ partition ∈ table.partitions,
      (partition.node, partition.typeId) ∈ parsed.partitions ∧
      ((parsed.device.getLast?.any Char.isDigit = true → parsed.device ++ ['p'] <+: partition.node) →
        partition.number.number = Text.decimalValue (decimalSuffix partition.node)) := by
  refine ⟨fun table selected resolution h => resolveRootPartition_mem h, fun table hseveral => ?_,
    fun table selected h known hknown => ?_, fun parsed table h partition hpartition => ?_⟩
  · have hne : table.partitions ≠ [] := by
      intro hempty
      rw [hempty] at hseveral
      exact absurd hseveral (by decide)
    rw [← resolveDiscovered_iff hseveral, resolveRootPartition]
    rw [if_neg hne]
  · rw [Option.mem_def] at hknown
    rw [hknown] at h
    unfold allowsLoopFallback at h
    split_ifs at h with hmany
    · obtain ⟨resolution, -, h⟩ := bind_ok h
      cases h
    · simpa using hmany
  · obtain ⟨hmem, hnumber⟩ := parseSfdiskPartitionTable_mem h hpartition
    exact ⟨hmem, number_decimalSuffix hnumber⟩

/-- An image on a loop device with a boot partition and a root. -/
def loopPartitions : ImagePartitionTable :=
  ⟨"gpt".toList, [⟨⟨1, by decide⟩, "/dev/loop0p1".toList, "C12A7328-F81F-11D2-BA4B-00A0C93EC93B".toList⟩,
    ⟨⟨2, by decide⟩, "/dev/loop0p2".toList, "4f68bce3-e8cd-4db1-96e7-fbcaf984b709".toList⟩]⟩

/-- What sfdisk lists of it: the device's name ends in a digit. -/
def loopListing : SfdiskPartitionTable :=
  ⟨"gpt".toList, "/dev/loop0".toList,
    [("/dev/loop0p1".toList, "C12A7328-F81F-11D2-BA4B-00A0C93EC93B".toList),
      ("/dev/loop0p2".toList, "4f68bce3-e8cd-4db1-96e7-fbcaf984b709".toList)]⟩

private theorem loopListing_parse : parseSfdiskPartitionTable loopListing = .ok loopPartitions := by
  have hnodes : loopListing.partitions.mapM (parseSfdiskPartition loopListing.device) =
      .ok loopPartitions.partitions := by rfl
  have hsorted : loopPartitions.partitions.mergeSort (fun a b => a.number.number ≤ b.number.number) =
      loopPartitions.partitions := List.mergeSort_of_pairwise (by decide)
  unfold parseSfdiskPartitionTable
  rw [hnodes]
  exact congrArg (fun partitions => Except.ok (ImagePartitionTable.mk loopListing.label partitions)) hsorted

theorem rootPartition_decided_loop :
    2 ≤ loopPartitions.partitions.length ∧
      (∃ resolution, resolveRootPartition "x86_64" (some loopPartitions) none = .ok resolution) ∧
      parseSfdiskPartitionTable loopListing = .ok loopPartitions ∧
      ∀ partition ∈ loopPartitions.partitions,
        partition.number.number = Text.decimalValue (decimalSuffix partition.node) := by
  obtain ⟨-, hroot, -, hlisted⟩ := rootPartition_decided "x86_64"
  refine ⟨by decide, (hroot loopPartitions (by decide)).mpr
    ⟨"4F68BCE3-E8CD-4DB1-96E7-FBCAF984B709".toList, rfl, by decide +kernel⟩, loopListing_parse, ?_⟩
  have hnamed : ∀ partition ∈ loopPartitions.partitions, loopListing.device ++ ['p'] <+: partition.node := by
    decide +kernel
  exact fun partition h => (hlisted loopListing loopPartitions loopListing_parse partition h).2 fun _ => hnamed partition h

end Root

end Lasper.Storage
