import Mathlib.Algebra.Order.BigOperators.Group.List
import Mathlib.Algebra.Order.Group.Nat
import Mathlib.Data.List.Perm.Subperm
import Lasper.Nvidia.Discovery

/-! What a change of the host leaves behind. The paths to clean up are read off
the binds and off the older encodings of the same binds, in which a path is cut at
its colons. -/

namespace Lasper.Nvidia

open Lib Config

section Validate

def maxCleanupPaths : ℕ := 16384
def maxPathBytes : ℕ := 4096
def maxMutationBytes : ℕ := 1024 * 1024

def plainComponent : Component → Bool
  | .rootDir | .normal _ => true
  | .curDir | .parentDir => false

def validateContainerPath (label : String) (value : Text) : Except NspawnError Unit :=
  if value = [] ∨ maxPathBytes < value.byteLen ∨ value.any isControl ∨ ¬ Path.isAbsolute value then
    .error (.validation s!"Invalid {label}: \"{String.ofList value}\"")
  else if (Path.components value).any (! plainComponent ·) then
    .error (.validation s!"{label} contains relative path components: \"{String.ofList value}\"")
  else .ok ()

/-- The sum saturates at the largest word. -/
def cleanupStep (total : ℕ) (path : Text) : Except NspawnError ℕ := do
  validateContainerPath "NVIDIA cleanup path" path
  if path = ['/'] then .error (.validation "NVIDIA cleanup path must not be the container root")
  else return min (total + path.byteLen) (2 ^ 64 - 1)

def validateCleanupPaths (paths : List Text) : Except NspawnError Unit := do
  if maxCleanupPaths < paths.length then .error (.validation "Too many NVIDIA cleanup paths")
  else
    let total ← paths.foldlM cleanupStep 0
    if maxMutationBytes < total then .error (.validation "NVIDIA cleanup paths exceed 1 MiB")
    else return ()

/-- A path that may be cleaned up. -/
structure Cleanable (path : Text) : Prop where
  valid : validateContainerPath "NVIDIA cleanup path" path = .ok ()
  not_root : path ≠ ['/']

theorem ok_iff_isOk {ε : Type*} (result : Except ε Unit) : result.isOk = true ↔ result = .ok () := by
  cases result with
  | error error => exact ⟨nofun, nofun⟩
  | ok value => exact ⟨fun _ => rfl, fun _ => rfl⟩

instance (path : Text) : Decidable (Cleanable path) :=
  decidable_of_iff ((validateContainerPath "NVIDIA cleanup path" path).isOk = true ∧ path ≠ ['/'])
    ⟨fun h => ⟨(ok_iff_isOk _).mp h.1, h.2⟩, fun h => ⟨(ok_iff_isOk _).mpr h.valid, h.not_root⟩⟩

theorem foldlM_cleanupStep {paths : List Text} (h : ∀ path ∈ paths, Cleanable path) (total : ℕ) :
    ∃ sum, paths.foldlM cleanupStep total = .ok sum ∧ sum ≤ total + (paths.map Text.byteLen).sum := by
  induction paths generalizing total with
  | nil => exact ⟨total, rfl, Nat.le_refl _⟩
  | cons path paths ih =>
    have hpath := h path List.mem_cons_self
    have hstep : cleanupStep total path = .ok (min (total + path.byteLen) (2 ^ 64 - 1)) := by
      rw [cleanupStep, hpath.valid]
      exact if_neg hpath.not_root
    obtain ⟨sum, hsum, hle⟩ := ih (fun other hother => h other (List.mem_cons_of_mem _ hother))
      (min (total + path.byteLen) (2 ^ 64 - 1))
    refine ⟨sum, ?_, ?_⟩
    · rw [List.foldlM_cons, hstep]
      exact hsum
    · rw [List.map_cons, List.sum_cons]
      have hmin := Nat.min_le_left (total + path.byteLen) (2 ^ 64 - 1)
      omega

theorem validateCleanupPaths_of_cleanable {paths : List Text} (h : ∀ path ∈ paths, Cleanable path)
    (hcount : paths.length ≤ maxCleanupPaths) (hbytes : (paths.map Text.byteLen).sum ≤ maxMutationBytes) :
    validateCleanupPaths paths = .ok () := by
  obtain ⟨sum, hsum, hle⟩ := foldlM_cleanupStep h 0
  rw [validateCleanupPaths, if_neg (by omega), hsum]
  exact if_neg (by omega)

end Validate

section Listing

/-- A list in place of a longer one holds no more, whatever is counted. -/
theorem sum_le_of_nodup {α : Type*} {small large : List α} (hnodup : small.Nodup) (hsub : small ⊆ large)
    (size : α → ℕ) : (small.map size).sum ≤ (large.map size).sum := by
  obtain ⟨middle, hperm, hsublist⟩ := hnodup.subperm hsub
  rw [← (hperm.map size).sum_eq]
  exact (hsublist.map size).sum_le_sum fun _ _ => Nat.zero_le _

def legacyPath (bind : PassthroughBind) : Text :=
  lastField (if bind.readonly then bind.containerPath else bind.hostPath)

theorem lastField_colon (first second : Text) : lastField (first ++ ':' :: second) = lastField second := by
  have hne := List.splitOn_ne_nil ':' second
  rw [lastField, List.splitOn_append_cons_self, lastField, List.getLastD_eq_getLast?, List.getLastD_eq_getLast?,
    List.getLast?_append_of_ne_nil _ hne, List.getLast?_eq_some_getLast hne]
  rfl

theorem lastField_legacyReadonlyBind (bind : PassthroughBind) :
    lastField (legacyReadonlyBind bind) = lastField bind.containerPath := by
  unfold legacyReadonlyBind
  split_ifs with h
  · rw [h]
  · exact lastField_colon _ _

section Built

variable (spec : CdiSpec) (driverVersion : Text) (profile : Option NvidiaPassthroughProfile) (host : HostLibraries)

/-- The paths of a state that was built are its container paths and what the
older encodings make of them. -/
theorem mem_allPaths_build (path : Text) :
    path ∈ (buildNvidiaState spec driverVersion profile host).allPaths ↔
      ∃ bind ∈ (buildNvidiaState spec driverVersion profile host).binds,
        path = bind.containerPath ∨ path = legacyPath bind := by
  set state := buildNvidiaState spec driverVersion profile host with hstate
  have hreadonly : state.readonlyBinds = (state.binds.filter (·.readonly)).map legacyReadonlyBind := rfl
  have hdevice : state.deviceBinds = (state.binds.filter (! ·.readonly)).map (·.hostPath) := rfl
  have hentries : state.classifiedEntries = extractClassifiedEntries state.binds := rfl
  have hlinks : state.symlinks = [] := rfl
  rw [NvidiaState.allPaths, NvidiaState.allContainerPaths, List.mem_dedup, hreadonly, hdevice, hentries, hlinks]
  simp only [List.mem_append, List.mem_map, List.mem_filter, extractClassifiedEntries, List.mem_filterMap,
    List.map_nil, List.not_mem_nil, or_false, Option.map_eq_some_iff, legacyPath]
  constructor
  · rintro (((⟨bind, hbind, rfl⟩ | ⟨_, ⟨bind, ⟨hbind, hro⟩, rfl⟩, rfl⟩) |
      ⟨_, ⟨bind, ⟨hbind, hrw⟩, rfl⟩, rfl⟩) | ⟨_, ⟨bind, hbind, category, -, rfl⟩, rfl⟩)
    · exact ⟨bind, hbind, .inl rfl⟩
    · exact ⟨bind, hbind, .inr (by rw [lastField_legacyReadonlyBind, if_pos hro])⟩
    · exact ⟨bind, hbind, .inr (by rw [if_neg (by simpa using hrw)])⟩
    · exact ⟨bind, hbind, .inl rfl⟩
  · rintro ⟨bind, hbind, rfl | rfl⟩
    · exact .inl (.inl (.inl ⟨bind, hbind, rfl⟩))
    · cases hro : bind.readonly with
      | true =>
        exact .inl (.inl (.inr ⟨_, ⟨bind, ⟨hbind, hro⟩, rfl⟩, by
          rw [lastField_legacyReadonlyBind, if_pos rfl]⟩))
      | false =>
        exact .inl (.inr ⟨_, ⟨bind, ⟨hbind, by rw [hro]; rfl⟩, rfl⟩, by rw [if_neg Bool.false_ne_true]⟩)

end Built

end Listing

section DeathList

variable {old new : NvidiaState}

theorem mem_calculateDeathList (path : Text) :
    path ∈ calculateDeathList old new ↔ path ∈ old.allPaths ∧ path ∉ new.allPaths := by
  rw [calculateDeathList, List.mem_filter, decide_eq_true_eq]

theorem nodup_calculateDeathList : (calculateDeathList old new).Nodup :=
  (List.nodup_dedup _).filter _

/-- Each check of a state has passed. -/
theorem binds_length_of_validateState {state : NvidiaState} (h : validateState state = .ok ()) :
    state.binds.length ≤ maxNvidiaStateItems := by
  unfold validateState at h
  split_ifs at h with hmarker hitems
  unfold totalItems at hitems
  omega

/-- The state was written to its file, with the encoder that is used there. -/
def Persisted (encode : NvidiaState → Text) (state : NvidiaState) : Prop :=
  ∃ content, stateContent encode state = .ok content

/-- An encoding holds the text of every container path. -/
def SpellsPaths (encode : NvidiaState → Text) : Prop :=
  ∀ state, (state.binds.map (·.containerPath.byteLen)).sum ≤ (encode state).byteLen

theorem Persisted.fits {encode : NvidiaState → Text} (hspells : SpellsPaths encode) {state : NvidiaState}
    (h : Persisted encode state) :
    state.binds.length ≤ maxCleanupPaths ∧ (state.binds.map (·.containerPath.byteLen)).sum ≤ maxMutationBytes := by
  obtain ⟨content, hcontent⟩ := h
  rw [stateContent] at hcontent
  cases hvalid : validateState state with
  | error error =>
    rw [hvalid] at hcontent
    cases hcontent
  | ok =>
    rw [hvalid] at hcontent
    change (if _ then _ else _) = _ at hcontent
    split_ifs at hcontent with hlarge
    have hbytes := hspells { state with ownershipMarker := some nvidiaStateMarker }
    exact ⟨binds_length_of_validateState hvalid, Nat.le_trans hbytes (Nat.not_lt.mp hlarge)⟩

/-- The paths to clean up are container paths that the old state had and the new
state has not, and pass the checks of the cleanup, exactly if the older encodings
name nothing more. -/
theorem cleanup_sound_iff {encode : NvidiaState → Text} (hspells : SpellsPaths encode)
    (oldSpec newSpec : CdiSpec) (oldVersion newVersion : Text) (oldProfile newProfile : Option NvidiaPassthroughProfile)
    (oldHost newHost : HostLibraries) (hold : old = buildNvidiaState oldSpec oldVersion oldProfile oldHost)
    (hnew : new = buildNvidiaState newSpec newVersion newProfile newHost)
    (hclean : ∀ bind ∈ old.binds ++ new.binds, Cleanable bind.containerPath)
    {deaths : List Text} (horder : deaths.Perm (calculateDeathList old new)) :
    ((∀ path ∈ deaths, path ∈ old.binds.map (·.containerPath) ∧ path ∉ new.binds.map (·.containerPath)) ∧
      (Persisted encode old → validateCleanupPaths deaths = .ok ())) ↔
    ∀ bind ∈ old.binds, legacyPath bind ∈ old.binds.map (·.containerPath) ∨
      legacyPath bind ∈ new.binds.map (·.containerPath) ∨ legacyPath bind ∈ new.binds.map legacyPath := by
  have hmem : ∀ path, path ∈ deaths ↔ path ∈ old.allPaths ∧ path ∉ new.allPaths := by
    intro path
    rw [horder.mem_iff, mem_calculateDeathList]
  have hlisted : ∀ path, path ∈ new.allPaths ↔
      path ∈ new.binds.map (·.containerPath) ∨ path ∈ new.binds.map legacyPath := by
    intro path
    rw [hnew, mem_allPaths_build, ← hnew]
    simp only [List.mem_map, eq_comm]
    constructor
    · rintro ⟨bind, hbind, h | h⟩
      · exact .inl ⟨bind, hbind, h⟩
      · exact .inr ⟨bind, hbind, h⟩
    · rintro (⟨bind, hbind, h⟩ | ⟨bind, hbind, h⟩)
      · exact ⟨bind, hbind, .inl h⟩
      · exact ⟨bind, hbind, .inr h⟩
  have hpaths : ∀ path, path ∈ old.allPaths ↔ ∃ bind ∈ old.binds, path = bind.containerPath ∨ path = legacyPath bind := by
    intro path
    rw [hold, mem_allPaths_build]
  constructor
  · rintro ⟨hsound, -⟩ bind hbind
    by_cases hdead : legacyPath bind ∈ deaths
    · exact .inl (hsound _ hdead).1
    · have hkept : legacyPath bind ∈ new.allPaths := by
        rw [hmem, not_and, not_not] at hdead
        exact hdead ((hpaths _).mpr ⟨bind, hbind, .inr rfl⟩)
      exact .inr ((hlisted _).mp hkept)
  · intro hlegacy
    have hsound : ∀ path ∈ deaths, path ∈ old.binds.map (·.containerPath) ∧
        path ∉ new.binds.map (·.containerPath) := by
      intro path hpath
      obtain ⟨hin, hout⟩ := (hmem path).mp hpath
      rw [hlisted, not_or] at hout
      refine ⟨?_, hout.1⟩
      obtain ⟨bind, hbind, rfl | rfl⟩ := (hpaths path).mp hin
      · exact List.mem_map_of_mem hbind
      · rcases hlegacy bind hbind with h | h | h
        · exact h
        · exact absurd h hout.1
        · exact absurd h hout.2
    refine ⟨hsound, fun hpersisted => ?_⟩
    obtain ⟨hcount, hbytes⟩ := hpersisted.fits hspells
    have hnodup : deaths.Nodup := horder.nodup_iff.mpr nodup_calculateDeathList
    have hsub : deaths ⊆ old.binds.map (·.containerPath) := fun path hpath => (hsound path hpath).1
    have hlength := (hnodup.subperm hsub).length_le
    have hsum := sum_le_of_nodup hnodup hsub Text.byteLen
    rw [List.map_map] at hsum
    rw [List.length_map] at hlength
    refine validateCleanupPaths_of_cleanable (fun path hpath => ?_) (hlength.trans hcount) (hsum.trans hbytes)
    obtain ⟨bind, hbind, rfl⟩ := List.mem_map.mp (hsub hpath)
    exact hclean bind (List.mem_append_left _ hbind)

/-- A document with one device that has a node and the given mounts. -/
def cardSpec (mounts : List Text) : CdiSpec where
  containerEdits := none
  devices := some [{
    name := "all".toList
    containerEdits := some {
      deviceNodes := some [⟨"/dev/nvidia0".toList, none⟩]
      mounts := some (mounts.map fun path => ⟨path, path, some ["ro".toList]⟩)
      hooks := none
      env := none } }]

def bareHost : HostLibraries where
  ldconfigCache := none
  readDir := fun _ => none

def cardState (mounts : List Text) : NvidiaState := buildNvidiaState (cardSpec mounts) "550.54".toList none bareHost

def libraryPath : Text := "/usr/lib/libcuda.so.1".toList

def libraryStateHead : Text :=
  "\x7b\n  \"driver_version\": \"550.54\",\n  \"ownership_marker\": \"lasper-nvidia-state-v1\",\n".toList ++
    "  \"binds\": [\n    \x7b\n      \"host_path\": \"/dev/nvidia0\",\n".toList ++
    "      \"container_path\": \"/dev/nvidia0\",\n      \"readonly\": false\n    \x7d,\n".toList ++
    "    \x7b\n      \"host_path\": \"/usr/lib/libcuda.so.1\",\n".toList ++
    "      \"container_path\": \"/usr/lib/libcuda.so.1\",\n      \"readonly\": true\n    \x7d\n  ],\n".toList ++
    "  \"readonly_binds\": [\n    \"/usr/lib/libcuda.so.1\"\n  ],\n".toList ++
    "  \"device_binds\": [\n    \"/dev/nvidia0\"\n  ],\n  \"classified_entries\": [\n    \x7b\n".toList ++
    "      \"host_path\": \"/usr/lib/libcuda.so.1\",\n      \"default_container_path\": ".toList ++
    "\"/usr/lib/libcuda.so.1\",\n      \"category\": \"Lib64\",\n      \"readonly\": true\n    \x7d\n  ],\n".toList

def libraryStateTail : Text :=
  "  \"symlinks\": [],\n  \"ldcache_folders\": [],\n  \"env_vars\": []\n\x7d".toList

/-- The file of the state with one library. -/
def libraryStateJson : Text := libraryStateHead ++ libraryStateTail

def libraryEncode (state : NvidiaState) : Text :=
  if state.binds = (cardState [libraryPath]).binds then libraryStateJson else state.binds.flatMap (·.containerPath)

theorem libraryEncode_spells : SpellsPaths libraryEncode := by
  intro state
  unfold libraryEncode
  split_ifs with h
  · have hpaths : (state.binds.map (·.containerPath.byteLen)).sum = 33 := by
      rw [h]
      decide +kernel
    have hline : 33 ≤ Text.byteLen libraryStateTail := by decide +kernel
    have htail : Text.byteLen libraryStateTail ≤ Text.byteLen (libraryStateHead ++ libraryStateTail) := by
      rw [Text.byteLen_append]
      exact Nat.le_add_left _ _
    exact hpaths.trans_le (hline.trans htail)
  · induction state.binds with
    | nil => exact Nat.le_refl 0
    | cons bind binds ih =>
      rw [List.map_cons, List.sum_cons, List.flatMap_cons, Text.byteLen_append]
      exact Nat.add_le_add_left ih _

theorem cleanup_of_removed_library :
    (∀ path ∈ calculateDeathList (cardState [libraryPath]) (cardState []),
      path ∈ (cardState [libraryPath]).binds.map (·.containerPath) ∧
        path ∉ (cardState []).binds.map (·.containerPath)) ∧
    (Persisted libraryEncode (cardState [libraryPath]) →
      validateCleanupPaths (calculateDeathList (cardState [libraryPath]) (cardState [])) = .ok ()) :=
  (cleanup_sound_iff libraryEncode_spells (cardSpec [libraryPath]) (cardSpec []) _ _ _ _ _ _ rfl rfl
    (by decide +kernel) (List.Perm.refl _)).mpr (by decide +kernel)

def linkPath : Text := "/dev/dri/by-path/pci-0000:01:00.0-card".toList

/-- A path with colons in it leaves its last part to clean up, which is no path at all. -/
theorem colon_path_breaks_cleanup :
    (∀ bind ∈ (cardState [linkPath]).binds ++ (cardState []).binds, Cleanable bind.containerPath) ∧
    "00.0-card".toList ∈ calculateDeathList (cardState [linkPath]) (cardState []) ∧
    "00.0-card".toList ∉ (cardState [linkPath]).binds.map (·.containerPath) ∧
    validateCleanupPaths (calculateDeathList (cardState [linkPath]) (cardState [])) ≠ .ok () := by
  refine ⟨by decide +kernel, by decide +kernel, by decide +kernel, ?_⟩
  rw [Ne, ← ok_iff_isOk]
  decide +kernel

end DeathList

end Lasper.Nvidia
