import Lasper.Nvidia.State
import Lasper.Overrides.DropIns

/-! The state file of a machine. It is checked when it is written; when it is
read, the binds of an older encoding are added first, and then it is checked. -/

namespace Lasper.Nvidia

open Lib Config

section Directory

/-- The content is taken as text. -/
structure TrustedFile where
  bytes : Text
  uid : ℕ
  mode : ℕ

inductive TrustedEntry
  | file (file : TrustedFile)
  | symlink
  | special

/-- A directory that belongs to the user as whom the process runs. -/
structure TrustedDirectory where
  path : String
  expectedUid : ℕ
  entries : String → Option TrustedEntry

namespace TrustedDirectory

variable (directory : TrustedDirectory)

def readBounded (name : String) (maxBytes : ℕ) : Except NspawnError (Option TrustedFile) :=
  match directory.entries name with
  | none => .ok none
  | some .symlink => .error (.validation s!"trusted state path must not be a symlink: {directory.path}/{name}")
  | some .special => .error (.validation s!"trusted state entry is not a regular file: {directory.path}/{name}")
  | some (.file file) =>
    if maxBytes < file.bytes.byteLen then
      .error (.validation s!"trusted state entry exceeds {maxBytes} bytes: {directory.path}/{name}")
    else .ok (some file)

/-- A new file takes the name, unless something else than a file has it. -/
def writeAtomic (name : String) (bytes : Text) (mode : ℕ) : Except NspawnError TrustedDirectory :=
  let written := { directory with
    entries := Function.update directory.entries name (some (.file ⟨bytes, directory.expectedUid, mode⟩)) }
  match directory.entries name with
  | none | some (.file _) => .ok written
  | some _ => .error (.validation s!"trusted state target is not a regular file: {directory.path}/{name}")

end TrustedDirectory

end Directory

section Migration

def splitHostContainer (text : Text) : Text × Text := (text.splitOnce ':').getD (text, text)

def expressionBind (readonly : Bool) (text : Text) : PassthroughBind :=
  ⟨(splitHostContainer text).1, (splitHostContainer text).2, readonly⟩

def bindKey (bind : PassthroughBind) : Text := bind.hostPath ++ "::".toList ++ bind.containerPath

namespace NvidiaState

def expressionBinds (state : NvidiaState) : List PassthroughBind :=
  state.deviceBinds.map (expressionBind false) ++ state.readonlyBinds.map (expressionBind true)

def entryBinds (state : NvidiaState) : List PassthroughBind :=
  state.classifiedEntries.map (fun entry => ⟨entry.hostPath, entry.defaultContainerPath, entry.readonly⟩) ++
    state.symlinks.map fun link => ⟨link.target, link.linkPath, true⟩

/-- The mounts of the four older encodings. -/
def legacyBinds (state : NvidiaState) : List PassthroughBind := state.expressionBinds ++ state.entryBinds

def pushLegacy (binds : List PassthroughBind) (bind : PassthroughBind) : List PassthroughBind :=
  if bindKey bind ∈ binds.map bindKey then binds else binds ++ [bind]

def migrateFromLegacy (state : NvidiaState) : NvidiaState :=
  if state.binds ≠ [] then state else { state with binds := state.legacyBinds.foldl pushLegacy [] }

end NvidiaState

end Migration

section Store

/-- The JSON of a state, and the state of a JSON text. -/
structure StateCodec where
  encode : NvidiaState → Text
  decode : Text → Except NspawnError NvidiaState

variable (codec : StateCodec) (directory : TrustedDirectory) (name : String)

def hasUnsafeOwnership (file : TrustedFile) : Bool := file.uid ≠ directory.expectedUid || file.mode ≠ 0o600

def readState : Except NspawnError (Option NvidiaState) := do
  match ← directory.readBounded name maxNvidiaStateBytes with
  | none => return none
  | some file => do
    if hasUnsafeOwnership directory file then
      .error (.validation s!"NVIDIA state has unsafe ownership or mode: {name}")
    else do
      let decoded ← codec.decode file.bytes
      let state := decoded.migrateFromLegacy
      validateState state
      return some state

def writeState (state : NvidiaState) : Except NspawnError TrustedDirectory := do
  let content ← stateContent codec.encode state
  match ← directory.readBounded name maxNvidiaStateBytes with
  | some existing => do
    if hasUnsafeOwnership directory existing then
      .error (.validation s!"Refusing to replace NVIDIA state with unsafe ownership or mode: {name}")
    else directory.writeAtomic name content 0o600
  | none => directory.writeAtomic name content 0o600

def isOwnedStateContent (content : Text) : Bool :=
  if maxNvidiaStateBytes < content.byteLen then false
  else match codec.decode content with
    | .ok state => state.ownershipMarker = some nvidiaStateMarker && (validateState state).isOk
    | .error _ => false

def probeOwnedState : Except NspawnError Overrides.ArtifactOwnership :=
  match directory.readBounded name maxNvidiaStateBytes with
  | .ok none => .ok .notPresent
  | .ok (some file) =>
    if hasUnsafeOwnership directory file then .ok .ambiguousLegacy
    else if isOwnedStateContent codec file.bytes then .ok .provenOwned
    else .ok .ambiguousLegacy
  | .error (.validation _) => .ok .ambiguousLegacy
  | .error error => .error error

end Store

section Validity

structure ValidText (value : Text) : Prop where
  nonempty : value ≠ []
  short : value.byteLen ≤ 4096
  plain : ∀ c ∈ value, isControl c = false

structure ValidPath (value : Text) : Prop extends ValidText value where
  absolute : Path.isAbsolute value = true

theorem validateTextValue_iff {label : String} {value : Text} :
    validateTextValue label value false = .ok () ↔ ValidText value := by
  unfold validateTextValue
  constructor
  · intro h
    by_cases hbad : ¬ false = true ∧ value = [] ∨ 4096 < value.byteLen ∨ value.any isControl = true
    · rw [if_pos hbad] at h
      cases h
    · simp only [not_or] at hbad
      refine ⟨fun hempty => hbad.1 ⟨Bool.false_ne_true, hempty⟩, Nat.not_lt.mp hbad.2.1, ?_⟩
      intro c hc
      by_contra hctrl
      exact hbad.2.2 (List.any_eq_true.mpr ⟨c, hc, by simpa using hctrl⟩)
  · intro hvalid
    rw [if_neg]
    intro hbad
    rcases hbad with ⟨-, hempty⟩ | hlong | hcontrol
    · exact hvalid.nonempty hempty
    · exact absurd hvalid.short (Nat.not_le.mpr hlong)
    · obtain ⟨c, hc, hctrl⟩ := List.any_eq_true.mp hcontrol
      rw [hvalid.plain c hc] at hctrl
      cases hctrl

theorem bind_unit_ok {ε β : Type} {x : Except ε Unit} {f : Unit → Except ε β} {b : β} :
    (x >>= f) = .ok b ↔ x = .ok () ∧ f () = .ok b := by
  cases x with
  | ok _ => exact ⟨fun h => ⟨rfl, h⟩, fun h => h.2⟩
  | error error => exact ⟨nofun, nofun⟩

theorem forM_ok_iff {ε α : Type} {f : α → Except ε Unit} {xs : List α} :
    xs.forM f = .ok () ↔ ∀ x ∈ xs, f x = .ok () := by
  constructor
  · exact forM_ok
  · intro h
    induction xs with
    | nil => rfl
    | cons x xs ih =>
      have hcons : (x :: xs).forM f = (f x >>= fun _ => xs.forM f) := rfl
      rw [hcons, bind_unit_ok]
      exact ⟨h x List.mem_cons_self, ih fun y hy => h y (List.mem_cons_of_mem _ hy)⟩

theorem check_absolute_ok {path : Text} {error : NspawnError} :
    (if ¬ Path.isAbsolute path then .error error else pure () : Except NspawnError Unit) = .ok () ↔
      Path.isAbsolute path = true := by
  cases Path.isAbsolute path <;> simp [pure, Except.pure]

theorem validateAbsoluteValue_iff {label : String} {value : Text} :
    validateAbsoluteValue label value = .ok () ↔ ValidPath value := by
  unfold validateAbsoluteValue
  rw [bind_unit_ok, validateTextValue_iff, check_absolute_ok]
  exact ⟨fun h => ⟨h.1, h.2⟩, fun h => ⟨h.toValidText, h.absolute⟩⟩

theorem validateBindExpression_iff {label : String} {value : Text} :
    validateBindExpression label value = .ok () ↔
      ValidText value ∧ Path.isAbsolute ((value.splitOnce ':').elim value (·.1)) = true := by
  unfold validateBindExpression
  rw [bind_unit_ok, validateTextValue_iff, check_absolute_ok]

/-- What a state has to be, but for its marker, its size and its binds. -/
structure ValidRest (state : NvidiaState) : Prop where
  driverVersion : validateTextValue "driver version" state.driverVersion true = .ok ()
  readonlyBinds : ∀ bind ∈ state.readonlyBinds, validateBindExpression "legacy read-only bind" bind = .ok ()
  deviceBinds : ∀ bind ∈ state.deviceBinds, validateBindExpression "legacy device bind" bind = .ok ()
  classifiedEntries : ∀ entry ∈ state.classifiedEntries,
    ValidPath entry.hostPath ∧ ValidPath entry.defaultContainerPath
  symlinks : ∀ link ∈ state.symlinks, ValidPath link.target ∧ ValidPath link.linkPath
  ldcacheFolders : ∀ folder ∈ state.ldcacheFolders, ValidPath folder
  envVars : ∀ pair ∈ state.envVars, validateEnvKey pair.1 = .ok () ∧
    validateTextValue "environment value" pair.2 true = .ok ()
  profile : ∀ profile, state.profile = some profile → profile.validate = .ok ()

theorem validateState_iff {state : NvidiaState} :
    validateState state = .ok () ↔
      (∀ marker, state.ownershipMarker = some marker → marker = nvidiaStateMarker) ∧
        totalItems state ≤ maxNvidiaStateItems ∧
        (∀ bind ∈ state.binds, ValidPath bind.hostPath ∧ ValidPath bind.containerPath) ∧ ValidRest state := by
  have hmarker : state.ownershipMarker.any (· ≠ nvidiaStateMarker) = false ↔
      ∀ marker, state.ownershipMarker = some marker → marker = nvidiaStateMarker := by
    cases state.ownershipMarker <;> simp
  unfold validateState
  rw [← hmarker]
  cases state.ownershipMarker.any (· ≠ nvidiaStateMarker) with
  | true => simp
  | false =>
    rw [if_neg Bool.false_ne_true]
    by_cases hitems : maxNvidiaStateItems < totalItems state
    · rw [if_pos hitems]
      simp only [reduceCtorEq, false_iff]
      intro h
      omega
    · rw [if_neg hitems]
      simp only [bind_unit_ok, forM_ok_iff, validateAbsoluteValue_iff, true_and]
      constructor
      · rintro ⟨hdriver, hbinds, hreadonly, hdevice, hclassified, hsymlinks, hfolders, henv, hprof⟩
        refine ⟨Nat.not_lt.mp hitems, hbinds, hdriver, hreadonly, hdevice, hclassified, hsymlinks, hfolders, henv,
          fun profile hprofile => ?_⟩
        rwa [hprofile] at hprof
      · rintro ⟨_, hbinds, h⟩
        refine ⟨h.driverVersion, hbinds, h.readonlyBinds, h.deviceBinds, h.classifiedEntries, h.symlinks,
          h.ldcacheFolders, h.envVars, ?_⟩
        cases hprofile : state.profile with
        | none => rfl
        | some profile => exact h.profile profile hprofile

end Validity

section Fold

open NvidiaState

variable {binds more : List PassthroughBind}

theorem pushLegacy_subset (binds : List PassthroughBind) (bind : PassthroughBind) : binds ⊆ pushLegacy binds bind := by
  unfold pushLegacy
  split_ifs
  · exact List.Subset.refl binds
  · exact List.subset_append_left binds [bind]

theorem foldl_pushLegacy_subset : binds ⊆ more.foldl pushLegacy binds := by
  induction more generalizing binds with
  | nil => exact List.Subset.refl binds
  | cons bind more ih => exact List.Subset.trans (pushLegacy_subset binds bind) ih

theorem mem_foldl_pushLegacy {bind : PassthroughBind} (h : bind ∈ more.foldl pushLegacy binds) :
    bind ∈ binds ∨ bind ∈ more := by
  induction more generalizing binds with
  | nil => exact .inl h
  | cons other more ih =>
    obtain h | h := ih h
    · unfold pushLegacy at h
      split_ifs at h
      · exact .inl h
      · obtain h | h := List.mem_append.mp h
        · exact .inl h
        · rw [List.mem_singleton.mp h]
          exact .inr List.mem_cons_self
    · exact .inr (List.mem_cons_of_mem other h)

theorem key_mem_pushLegacy (bind : PassthroughBind) (key : Text) :
    key ∈ (pushLegacy binds bind).map bindKey ↔ key ∈ binds.map bindKey ∨ key = bindKey bind := by
  unfold pushLegacy
  split_ifs with h
  · constructor
    · exact .inl
    · intro hkey
      obtain hkey | rfl := hkey
      · exact hkey
      · exact h
  · simp [eq_comm]

/-- Every mount is there under its key. -/
theorem key_mem_foldl (key : Text) :
    key ∈ (more.foldl pushLegacy binds).map bindKey ↔ key ∈ binds.map bindKey ∨ key ∈ more.map bindKey := by
  induction more generalizing binds with
  | nil => simp
  | cons bind more ih => rw [List.foldl_cons, ih, key_mem_pushLegacy, List.map_cons, List.mem_cons, or_assoc]

theorem nodup_foldl (h : (binds.map bindKey).Nodup) : ((more.foldl pushLegacy binds).map bindKey).Nodup := by
  induction more generalizing binds with
  | nil => exact h
  | cons bind more ih =>
    apply ih
    unfold pushLegacy
    split_ifs with hkey
    · exact h
    · rw [List.map_append, List.map_singleton, ← List.concat_eq_append]
      exact h.concat hkey

theorem length_foldl : (more.foldl pushLegacy []).length = (more.map bindKey).dedup.length := by
  have hnodup : ((more.foldl pushLegacy []).map bindKey).Nodup := nodup_foldl List.nodup_nil
  have hperm := (List.perm_ext_iff_of_nodup hnodup (more.map bindKey).nodup_dedup).mpr fun key => by
    rw [key_mem_foldl, List.mem_dedup]
    simp
  rw [← hperm.length_eq, List.length_map]

end Fold

section Expressions

theorem splitHostContainer_host (text : Text) : ':' ∉ (splitHostContainer text).1 := by
  unfold splitHostContainer
  cases h : text.splitOnce ':' with
  | none => exact Text.splitOnce_none h
  | some parts => exact (Text.splitOnce_some h).2

/-- Two mounts of the older expressions under one key are one mount. -/
theorem expressionBind_key {r r' : Bool} {text other : Text}
    (h : bindKey (expressionBind r text) = bindKey (expressionBind r' other)) :
    (splitHostContainer text).2 = (splitHostContainer other).2 := by
  have hkey : ∀ (r : Bool) (text : Text), Text.splitOnce ':' (bindKey (expressionBind r text)) =
      some ((splitHostContainer text).1, ':' :: (splitHostContainer text).2) := by
    intro r text
    have hshape : bindKey (expressionBind r text) =
        (splitHostContainer text).1 ++ ':' :: ':' :: (splitHostContainer text).2 := by
      simp [bindKey, expressionBind]
    rw [hshape]
    exact Text.splitOnce_append (splitHostContainer_host text) _
  have hsplit := (hkey r text).symm.trans ((congrArg (Text.splitOnce ':') h).trans (hkey r' other))
  simp only [Option.some.injEq, Prod.mk.injEq, List.cons.injEq, true_and] at hsplit
  exact hsplit.2

theorem ValidText.part {text part : Text} (h : ValidText text) (hsub : part ⊆ text)
    (hshort : part.byteLen ≤ text.byteLen) (habsolute : Path.isAbsolute part = true) : ValidPath part where
  nonempty := by
    intro hempty
    rw [hempty] at habsolute
    cases habsolute
  short := hshort.trans h.short
  plain c hc := h.plain c (hsub hc)
  absolute := habsolute

/-- A valid expression has a valid host path, and the container path is valid if it is absolute. -/
theorem expression_valid {label : String} {text : Text} (h : validateBindExpression label text = .ok ()) :
    ValidPath (splitHostContainer text).1 ∧
      (ValidPath (splitHostContainer text).2 ↔ Path.isAbsolute (splitHostContainer text).2 = true) := by
  obtain ⟨hvalid, habsolute⟩ := validateBindExpression_iff.mp h
  unfold splitHostContainer
  cases hsplit : text.splitOnce ':' with
  | none =>
    rw [hsplit] at habsolute
    have hpath : ValidPath text := ⟨hvalid, habsolute⟩
    exact ⟨hpath, fun h => h.absolute, fun _ => hpath⟩
  | some parts =>
    obtain ⟨host, container⟩ := parts
    rw [hsplit] at habsolute
    have htext := (Text.splitOnce_some hsplit).1
    have hlength : text.byteLen = host.byteLen + (':'.utf8Size + container.byteLen) := by
      rw [htext, Text.byteLen_append, Text.byteLen_cons]
    have hcontainer : container ⊆ text := by
      rw [htext]
      exact List.Subset.trans (List.subset_cons_self ':' container) (List.subset_append_right host _)
    have hhost : host ⊆ text := by
      rw [htext]
      exact List.subset_append_left host _
    show ValidPath host ∧ (ValidPath container ↔ Path.isAbsolute container = true)
    exact ⟨hvalid.part hhost (by omega) habsolute, fun h => h.absolute,
      fun h => hvalid.part hcontainer (by omega) h⟩

end Expressions

section RoundTrip

open NvidiaState

variable {state : NvidiaState}

/-- The state fits the limits after its older encodings became binds. -/
def Migratable (state : NvidiaState) : Prop :=
  state.binds ≠ [] ∨ totalItems state + (state.legacyBinds.map bindKey).dedup.length ≤ maxNvidiaStateItems ∧
    ∀ text ∈ state.deviceBinds ++ state.readonlyBinds, Path.isAbsolute (splitHostContainer text).2 = true

theorem migrateFromLegacy_empty (h : state.binds = []) :
    state.migrateFromLegacy = { state with binds := state.legacyBinds.foldl pushLegacy [] } := by
  unfold migrateFromLegacy
  rw [if_neg (not_not.mpr h)]

theorem totalItems_migrate (h : state.binds = []) :
    totalItems state.migrateFromLegacy = totalItems state + (state.legacyBinds.map bindKey).dedup.length := by
  rw [migrateFromLegacy_empty h]
  simp only [totalItems, length_foldl, h, List.length_nil]
  omega

theorem mem_expressionBinds {bind : PassthroughBind} (h : bind ∈ state.expressionBinds) :
    ∃ readonly text, bind = expressionBind readonly text := by
  obtain h | h := List.mem_append.mp h
  · obtain ⟨text, -, rfl⟩ := List.mem_map.mp h
    exact ⟨false, text, rfl⟩
  · obtain ⟨text, -, rfl⟩ := List.mem_map.mp h
    exact ⟨true, text, rfl⟩

/-- An expression's mount is in the front of the older mounts, so it is there as it is. -/
theorem expression_migrated {text : Text} (ht : text ∈ state.deviceBinds ++ state.readonlyBinds) :
    ∃ bind ∈ state.legacyBinds.foldl pushLegacy [], bind.containerPath = (splitHostContainer text).2 := by
  obtain ⟨readonly, hmem⟩ : ∃ readonly, expressionBind readonly text ∈ state.expressionBinds := by
    obtain ht | ht := List.mem_append.mp ht
    · exact ⟨false, List.mem_append_left _ (List.mem_map_of_mem ht)⟩
    · exact ⟨true, List.mem_append_right _ (List.mem_map_of_mem ht)⟩
  have hkey : bindKey (expressionBind readonly text) ∈ (state.expressionBinds.foldl pushLegacy []).map bindKey :=
    (key_mem_foldl _).mpr (.inr (List.mem_map_of_mem hmem))
  obtain ⟨bind, hbind, hsame⟩ := List.mem_map.mp hkey
  have hsplit : state.legacyBinds.foldl pushLegacy [] =
      state.entryBinds.foldl pushLegacy (state.expressionBinds.foldl pushLegacy []) := List.foldl_append
  refine ⟨bind, hsplit ▸ foldl_pushLegacy_subset hbind, ?_⟩
  obtain hnil | hin := mem_foldl_pushLegacy hbind
  · cases hnil
  · obtain ⟨r, other, rfl⟩ := mem_expressionBinds hin
    exact expressionBind_key hsame

/-- Of a valid state, the mounts of the expressions alone may be invalid. -/
theorem legacyBinds_valid (h : ValidRest state)
    (habsolute : ∀ text ∈ state.deviceBinds ++ state.readonlyBinds,
      Path.isAbsolute (splitHostContainer text).2 = true) :
    ∀ bind ∈ state.legacyBinds, ValidPath bind.hostPath ∧ ValidPath bind.containerPath := by
  intro bind hbind
  simp only [legacyBinds, expressionBinds, entryBinds, List.mem_append, List.mem_map] at hbind
  rcases hbind with (⟨text, ht, rfl⟩ | ⟨text, ht, rfl⟩) | (⟨entry, hentry, rfl⟩ | ⟨link, hlink, rfl⟩)
  · obtain ⟨hhost, hcontainer⟩ := expression_valid (h.deviceBinds text ht)
    exact ⟨hhost, hcontainer.mpr (habsolute text (List.mem_append_left _ ht))⟩
  · obtain ⟨hhost, hcontainer⟩ := expression_valid (h.readonlyBinds text ht)
    exact ⟨hhost, hcontainer.mpr (habsolute text (List.mem_append_right _ ht))⟩
  · exact h.classifiedEntries entry hentry
  · exact h.symlinks link hlink

theorem validateState_migrate (h : validateState state = .ok ()) :
    validateState state.migrateFromLegacy = .ok () ↔ Migratable state := by
  obtain ⟨hmarker, hitems, hbinds, hrest⟩ := validateState_iff.mp h
  by_cases hempty : state.binds = []
  · have hrest' : ValidRest state.migrateFromLegacy := by
      rw [migrateFromLegacy_empty hempty]
      exact ⟨hrest.driverVersion, hrest.readonlyBinds, hrest.deviceBinds, hrest.classifiedEntries, hrest.symlinks,
        hrest.ldcacheFolders, hrest.envVars, hrest.profile⟩
    have hmarker' : state.migrateFromLegacy.ownershipMarker = state.ownershipMarker := by
      rw [migrateFromLegacy_empty hempty]
    have hbinds' : state.migrateFromLegacy.binds = state.legacyBinds.foldl pushLegacy [] := by
      rw [migrateFromLegacy_empty hempty]
    rw [validateState_iff, hmarker', totalItems_migrate hempty, hbinds']
    constructor
    · intro ⟨_, hmany, hvalid, _⟩
      refine .inr ⟨hmany, fun text ht => ?_⟩
      obtain ⟨bind, hbind, hcontainer⟩ := expression_migrated ht
      rw [← hcontainer]
      exact (hvalid bind hbind).2.absolute
    · intro hmigratable
      obtain hnonempty | ⟨hmany, habsolute⟩ := hmigratable
      · exact absurd hempty hnonempty
      · refine ⟨hmarker, hmany, fun bind hbind => ?_, hrest'⟩
        obtain hnil | hbind := mem_foldl_pushLegacy hbind
        · cases hnil
        · exact legacyBinds_valid hrest habsolute bind hbind
  · have hsame : state.migrateFromLegacy = state := by
      unfold migrateFromLegacy
      rw [if_pos hempty]
    rw [hsame]
    exact ⟨fun _ => .inl hempty, fun _ => h⟩

section Files

variable {codec : StateCodec} {directory written : TrustedDirectory} {name : String}

/-- What a successful write leaves in the directory. -/
theorem writeState_ok (h : writeState codec directory name state = .ok written) :
    validateState state = .ok () ∧
      (codec.encode { state with ownershipMarker := some nvidiaStateMarker }).byteLen ≤ maxNvidiaStateBytes ∧
      written.expectedUid = directory.expectedUid ∧
      written.entries name = some (.file
        ⟨codec.encode { state with ownershipMarker := some nvidiaStateMarker }, directory.expectedUid, 0o600⟩) := by
  have hatomic : ∀ content, directory.writeAtomic name content 0o600 = .ok written →
      written.expectedUid = directory.expectedUid ∧
        written.entries name = some (.file ⟨content, directory.expectedUid, 0o600⟩) := by
    intro content hwritten
    unfold TrustedDirectory.writeAtomic at hwritten
    simp only [] at hwritten
    split at hwritten
    · cases hwritten
      exact ⟨rfl, Function.update_self ..⟩
    · cases hwritten
      exact ⟨rfl, Function.update_self ..⟩
    · cases hwritten
  unfold writeState at h
  obtain ⟨content, hcontent, h⟩ := bind_ok h
  unfold stateContent at hcontent
  obtain ⟨_, hvalid, hcontent⟩ := bind_ok hcontent
  simp only [] at hcontent
  split_ifs at hcontent with hlarge
  cases hcontent
  obtain ⟨existing, hexisting, h⟩ := bind_ok h
  cases existing with
  | none => exact ⟨hvalid, Nat.not_lt.mp hlarge, hatomic _ h⟩
  | some file =>
    simp only [] at h
    split_ifs at h
    exact ⟨hvalid, Nat.not_lt.mp hlarge, hatomic _ h⟩

/-- The marker of ownership changes nothing else. -/
theorem migrateFromLegacy_marked (marker : Option Text) :
    { state with ownershipMarker := marker }.migrateFromLegacy =
      { state.migrateFromLegacy with ownershipMarker := marker } := by
  unfold migrateFromLegacy
  by_cases h : state.binds = []
  · simp [h, legacyBinds, expressionBinds, entryBinds]
  · simp [h]

theorem validateState_marked (h : validateState state = .ok ()) :
    validateState { state with ownershipMarker := some nvidiaStateMarker } = .ok () := by
  obtain ⟨_, hitems, hbinds, hrest⟩ := validateState_iff.mp h
  refine validateState_iff.mpr ⟨?_, hitems, hbinds, ?_⟩
  · intro marker hmarker
    exact (Option.some_inj.mp hmarker).symm
  · exact ⟨hrest.driverVersion, hrest.readonlyBinds, hrest.deviceBinds, hrest.classifiedEntries, hrest.symlinks,
      hrest.ldcacheFolders, hrest.envVars, hrest.profile⟩

theorem samePayload_marked (marker : Option Text) :
    { state with ownershipMarker := marker }.samePayload state = true := by
  simp [samePayload]

/-- What was written is read back, after the migration, and is proven to be owned. -/
structure ReadBack (codec : StateCodec) (written : TrustedDirectory) (name : String) (state : NvidiaState) :
    Prop where
  read : ∃ found, readState codec written name = .ok (some found) ∧
    found.samePayload state.migrateFromLegacy = true
  owned : probeOwnedState codec written name = .ok .provenOwned

/-- A state that was written comes back if and only if it stays valid when its
older encodings have become binds. -/
theorem writeState_readBack_iff (hwrite : writeState codec directory name state = .ok written)
    (hjson : codec.decode (codec.encode { state with ownershipMarker := some nvidiaStateMarker }) =
      .ok { state with ownershipMarker := some nvidiaStateMarker }) :
    ReadBack codec written name state ↔ Migratable state := by
  obtain ⟨hvalid, hsize, huid, hentry⟩ := writeState_ok hwrite
  have hbounded : written.readBounded name maxNvidiaStateBytes = .ok (some
      ⟨codec.encode { state with ownershipMarker := some nvidiaStateMarker }, directory.expectedUid, 0o600⟩) := by
    unfold TrustedDirectory.readBounded
    simp only [hentry]
    rw [if_neg (Nat.not_lt.mpr hsize)]
  have hsafe : ∀ content, hasUnsafeOwnership written ⟨content, directory.expectedUid, 0o600⟩ = false := by
    intro content
    simp [hasUnsafeOwnership, huid]
  have hmarked := validateState_marked hvalid
  have hread : readState codec written name = validateState
      { state.migrateFromLegacy with ownershipMarker := some nvidiaStateMarker } >>= fun _ =>
        .ok (some { state.migrateFromLegacy with ownershipMarker := some nvidiaStateMarker }) := by
    unfold readState
    rw [hbounded]
    simp only [bind, Except.bind, hsafe, hjson, Bool.false_eq_true, if_false, migrateFromLegacy_marked]
    rfl
  have howned : probeOwnedState codec written name = .ok .provenOwned := by
    have hcontent : isOwnedStateContent codec
        (codec.encode { state with ownershipMarker := some nvidiaStateMarker }) = true := by
      unfold isOwnedStateContent
      rw [if_neg (Nat.not_lt.mpr hsize), hjson]
      simp [hmarked, Except.isOk, Except.toBool]
    unfold probeOwnedState
    rw [hbounded]
    simp only [hsafe, hcontent, Bool.false_eq_true, if_false, if_true]
  have hmigrated := validateState_migrate hmarked
  rw [migrateFromLegacy_marked] at hmigrated
  constructor
  · intro ⟨⟨found, hfound, _⟩, _⟩
    rw [hread] at hfound
    exact hmigrated.mp (bind_unit_ok.mp hfound).1
  · intro hmigratable
    have hfound := hread.trans (bind_unit_ok.mpr ⟨hmigrated.mpr hmigratable, rfl⟩)
    exact ⟨⟨_, hfound, samePayload_marked (some nvidiaStateMarker)⟩, howned⟩

/-- A state of one device mount, with its file. -/
def deviceState (mount : Text) : NvidiaState where
  driverVersion := "550.54.14".toList
  ownershipMarker := some nvidiaStateMarker
  binds := []
  readonlyBinds := []
  deviceBinds := [mount]
  classifiedEntries := []
  symlinks := []
  ldcacheFolders := []
  envVars := []
  profile := none

def deviceJson (mount : Text) : Text :=
  "\x7b\n  \"driver_version\": \"550.54.14\",\n  \"ownership_marker\": \"lasper-nvidia-state-v1\",\n".toList ++
    "  \"binds\": [],\n  \"device_binds\": [\n    \"".toList ++ mount ++
    "\"\n  ],\n  \"symlinks\": [],\n  \"ldcache_folders\": [],\n  \"env_vars\": []\n\x7d".toList

def deviceCodec (mount : Text) : StateCodec where
  encode _ := deviceJson mount
  decode text := if text = deviceJson mount then .ok (deviceState mount) else .error (.validation "expected value")

def emptyDirectory : TrustedDirectory := ⟨"/var/lib/lasper/nvidia", 0, fun _ => none⟩

def deviceDirectory (mount : Text) : TrustedDirectory :=
  ⟨"/var/lib/lasper/nvidia", 0, Function.update (fun _ => none) "web.json"
    (some (.file ⟨deviceJson mount, 0, 0o600⟩))⟩

theorem writeState_device {mount : Text} (hvalid : (validateState (deviceState mount)).isOk = true)
    (hsize : (deviceJson mount).byteLen ≤ maxNvidiaStateBytes) :
    writeState (deviceCodec mount) emptyDirectory "web.json" (deviceState mount) = .ok (deviceDirectory mount) := by
  have hok : validateState (deviceState mount) = .ok () := by
    cases h : validateState (deviceState mount) with
    | ok _ => rfl
    | error error =>
      rw [h] at hvalid
      cases hvalid
  have hcontent : stateContent (deviceCodec mount).encode (deviceState mount) = .ok (deviceJson mount) := by
    simp [stateContent, hok, deviceCodec, Nat.not_lt.mpr hsize, bind, Except.bind, pure, Except.pure]
  unfold writeState
  rw [hcontent]
  rfl

theorem decode_device (mount : Text) :
    (deviceCodec mount).decode ((deviceCodec mount).encode (deviceState mount)) = .ok (deviceState mount) :=
  if_pos rfl

theorem writeState_readBack_device :
    ReadBack (deviceCodec "/dev/nvidia0".toList) (deviceDirectory "/dev/nvidia0".toList) "web.json"
      (deviceState "/dev/nvidia0".toList) :=
  have hwrite := writeState_device (by decide +kernel) (by decide +kernel)
  (writeState_readBack_iff hwrite (decode_device _)).mpr (.inr (by decide +kernel))

/-- The container path of the mount is relative, and only the reader sees it. -/
theorem relative_mount_not_read :
    writeState (deviceCodec "/dev/nvidia0:nvidia0".toList) emptyDirectory "web.json"
        (deviceState "/dev/nvidia0:nvidia0".toList) = .ok (deviceDirectory "/dev/nvidia0:nvidia0".toList) ∧
      (deviceCodec "/dev/nvidia0:nvidia0".toList).decode ((deviceCodec "/dev/nvidia0:nvidia0".toList).encode
        (deviceState "/dev/nvidia0:nvidia0".toList)) = .ok (deviceState "/dev/nvidia0:nvidia0".toList) ∧
      ¬ (readState (deviceCodec "/dev/nvidia0:nvidia0".toList) (deviceDirectory "/dev/nvidia0:nvidia0".toList)
        "web.json").isOk = true := by
  constructor
  · exact writeState_device (by decide +kernel) (by decide +kernel)
  · exact ⟨decode_device _, by decide +kernel⟩

end Files

end RoundTrip

end Lasper.Nvidia
