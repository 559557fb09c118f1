import Lasper.Lib.Checked
import Lasper.Overrides.Removal

/-! The texts that Lasper writes into its drop-ins, and whether it knows them
again. One text goes through the INI library, which escapes; the other is put
together as it is, and a backslash in it is an escape to the reader. -/

namespace Lasper.Overrides

open Lib Traced Config
open Provisioning (ResourceApplyStatus)

section Texts

/-- The INI library: how it writes a file, reads one, and reads one value. -/
structure IniLibrary where
  write : IniSections → Text
  load : Text → Option IniSections
  readValue : Text → Option Text

def allDrmDevicesPath : Text := "/dev/dri".toList

/-- An empty general section, and the values in the one that follows. -/
def serviceSection (values : List Text) : IniSections :=
  [(none, []), (some "Service".toList, values.map fun value => ("DeviceAllow".toList, value))]

def readWrite (device : Text) : Text := device ++ " rw".toList

def overrideValues (deviceBinds : List Text) (gpuPassthroughAll : Bool) : List Text :=
  let passthroughAllDrm := gpuPassthroughAll || deviceBinds.any (· = allDrmDevicesPath)
  (deviceBinds.filter (· ≠ allDrmDevicesPath)).map readWrite ++
    if passthroughAllDrm then [readWrite allDrmDeviceAllow] else []

def systemdOverrideContent (ini : IniLibrary) (deviceBinds : List Text) (gpuPassthroughAll : Bool) : Text :=
  lasperOverrideMarker ++ '\n' :: ini.write (serviceSection (overrideValues deviceBinds gpuPassthroughAll))

def plainLine (value : Text) : Text := "DeviceAllow=".toList ++ value ++ ['\n']

def nvidiaDeviceAllowContent (devicePaths : List Text) : Text :=
  lasperOverrideMarker ++ '\n' :: ("[Service]\n".toList ++
    devicePaths.flatMap fun path => plainLine (readWrite path))

end Texts

section Library

/-- A value on one line that is neither quoted nor padded, and that ends there. -/
structure Bare (value : Text) : Prop where
  printable : ∀ c ∈ value, isControl c = false
  first : ∀ c, value.head? = some c → isWhitespace c = false ∧ c ≠ '"' ∧ c ≠ '\''
  last : ∀ c, value.getLast? = some c → isWhitespace c = false ∧ c ≠ '\\'

/-- What the library documents: it reads back what it wrote, it skips a comment
line, and it reads the values of a section one by one, where only a backslash
has a meaning of its own. -/
structure IniLibrary.Documented (ini : IniLibrary) : Prop where
  readsWritten : ∀ (comment : Text) (values : List Text), comment.head? = some '#' → '\n' ∉ comment → (∀ value ∈ values, Bare value) →
    ini.load (comment ++ '\n' :: ini.write (serviceSection values)) = some (serviceSection values)
  readsPlain : ∀ (comment : Text) (values : List Text), comment.head? = some '#' → '\n' ∉ comment → (∀ value ∈ values, Bare value) →
    ini.load (comment ++ '\n' :: ("[Service]\n".toList ++ values.flatMap plainLine)) =
      (values.mapM ini.readValue).map serviceSection
  readsBare : ∀ value, Bare value → '\\' ∉ value → ini.readValue value = some value

end Library

section Recognition

variable {ini : IniLibrary} {load : Text → Option IniSections} {content device : Text}

theorem validateDeviceAllowPath_ok (h : validateDeviceAllowPath device = .ok ()) :
    device ≠ [] ∧ device.byteLen ≤ 4096 ∧ (∀ c ∈ device, isControl c = false) ∧ device.head? = some '/' := by
  unfold validateDeviceAllowPath at h
  split_ifs at h with hbad
  simp only [not_or, not_lt, not_not, Path.isAbsolute, List.any_eq_true, not_exists, not_and,
    Bool.not_eq_true, decide_eq_true_eq] at hbad
  exact hbad

theorem validateDeviceAllowPaths_ok {paths : List Text} (h : validateDeviceAllowPaths paths = .ok ()) :
    ∀ path ∈ paths, validateDeviceAllowPath path = .ok () := by
  unfold validateDeviceAllowPaths at h
  split_ifs at h
  exact forM_ok h

theorem forall_false_of_any {α : Type*} {p : α → Bool} {as : List α} (h : as.any p = false) : ∀ a ∈ as, p a = false := by
  intro a ha
  exact (Bool.not_eq_true _).mp (List.any_eq_false.mp h a ha)

theorem readWrite_bare (hprintable : ∀ c ∈ device, isControl c = false) {c : Char}
    (hfirst : device.head? = some c) (hc : isWhitespace c = false ∧ c ≠ '"' ∧ c ≠ '\'') :
    Bare (readWrite device) := by
  have hsuffix : ∀ d ∈ " rw".toList, isControl d = false := forall_false_of_any (by decide)
  refine ⟨fun d hd => ?_, fun d hd => ?_, fun d hd => ?_⟩
  · rcases List.mem_append.mp hd with hd | hd
    · exact hprintable d hd
    · exact hsuffix d hd
  · cases device with
    | nil => cases hfirst
    | cons e rest =>
      cases hfirst
      cases hd
      exact hc
  · have hlast : (readWrite device).getLast? = some 'w' := by simp [readWrite]
    rw [hlast] at hd
    cases hd
    decide

theorem readWrite_path_bare (h : validateDeviceAllowPath device = .ok ()) : Bare (readWrite device) := by
  obtain ⟨-, -, hprintable, hfirst⟩ := validateDeviceAllowPath_ok h
  exact readWrite_bare hprintable hfirst (by decide)

theorem stripSuffix_append (text ending : Text) : stripSuffix (text ++ ending) ending = some text := by
  simp [stripSuffix]

theorem ownedProperty_iff {value : Text} : ownedProperty ("DeviceAllow".toList, value) = true ↔
    ∃ device, value = readWrite device ∧ (validateDeviceAllowSpec device).isOk = true := by
  constructor
  · intro h
    by_cases hsuffix : " rw".toList <:+ value
    · obtain ⟨device, rfl⟩ := hsuffix
      refine ⟨device, rfl, ?_⟩
      simp only [ownedProperty, stripSuffix_append device " rw".toList, Bool.and_eq_true] at h
      exact h.2
    · simp only [ownedProperty, stripSuffix, if_neg hsuffix, Bool.and_false, Bool.false_eq_true] at h
  · rintro ⟨device, rfl, hdevice⟩
    simp only [ownedProperty, readWrite, stripSuffix_append, hdevice, Bool.and_true, decide_true]

theorem ownedSections_serviceSection (values : List Text) :
    ownedSections false (serviceSection values) = true ↔
      ∀ value ∈ values, ∃ device, value = readWrite device ∧ (validateDeviceAllowSpec device).isOk = true := by
  have hall : (values.map fun value => ("DeviceAllow".toList, value)).all ownedProperty = true ↔
      ∀ value ∈ values, ∃ device, value = readWrite device ∧ (validateDeviceAllowSpec device).isOk = true := by
    rw [List.all_map, List.all_eq_true]
    exact forall₂_congr fun value _ => ownedProperty_iff
  rw [← hall]
  have hrun : ownedSections false (serviceSection values) =
      if "Service".toList = "Service".toList ∧
        (values.map fun value => ("DeviceAllow".toList, value)).all ownedProperty = true then true else false := rfl
  rw [hrun]
  split_ifs with hproperties
  · exact iff_of_true rfl hproperties.2
  · exact iff_of_false id fun h => hproperties ⟨rfl, h⟩

theorem marked (rest : Text) : (lasperOverrideMarker ++ ['\n']).isPrefixOf (lasperOverrideMarker ++ '\n' :: rest) = true := by
  rw [List.isPrefixOf_iff_prefix, ← List.singleton_append, ← List.append_assoc]
  exact List.prefix_append _ _

theorem isOwned_marked (rest : Text) :
    isOwnedOverrideContent load (lasperOverrideMarker ++ '\n' :: rest) = true ↔
      ∃ config, load (lasperOverrideMarker ++ '\n' :: rest) = some config ∧ ownedSections false config = true := by
  rw [isOwnedOverrideContent, marked, Bool.true_and]
  cases load (lasperOverrideMarker ++ '\n' :: rest) with
  | none => simp
  | some config => simp

theorem marker_comment : lasperOverrideMarker.head? = some '#' ∧ '\n' ∉ lasperOverrideMarker := by decide

/-- What goes through the library is recognized. -/
theorem systemdOverrideContent_owned (documented : ini.Documented) {spec : ServiceOverrideSpec}
    (hspec : validateOverrideSpec spec = .ok ()) :
    isOwnedOverrideContent ini.load (systemdOverrideContent ini spec.deviceBinds spec.gpuPassthroughAll) = true := by
  have hpaths := validateDeviceAllowPaths_ok hspec
  have hvalues : ∀ value ∈ overrideValues spec.deviceBinds spec.gpuPassthroughAll,
      Bare value ∧ ∃ device, value = readWrite device ∧ (validateDeviceAllowSpec device).isOk = true := by
    intro value hvalue
    rcases List.mem_append.mp hvalue with hvalue | hvalue
    · obtain ⟨device, hdevice, rfl⟩ := List.mem_map.mp hvalue
      have hvalid := hpaths device (List.mem_of_mem_filter hdevice)
      refine ⟨readWrite_path_bare hvalid, device, rfl, ?_⟩
      unfold validateDeviceAllowSpec
      split_ifs
      · rfl
      · rw [hvalid]; rfl
    · have hdrm : value = readWrite allDrmDeviceAllow := by
        split_ifs at hvalue
        · exact List.mem_singleton.mp hvalue
        · cases hvalue
      subst hdrm
      have hc : allDrmDeviceAllow.head? = some 'c' := rfl
      exact ⟨readWrite_bare (forall_false_of_any (by decide)) hc (by decide), allDrmDeviceAllow, rfl, rfl⟩
  rw [systemdOverrideContent, isOwned_marked]
  refine ⟨_, documented.readsWritten _ _ marker_comment.1 marker_comment.2 (fun v hv => (hvalues v hv).1), ?_⟩
  exact (ownedSections_serviceSection _).mpr fun v hv => (hvalues v hv).2

theorem mapM_readWrite {paths : List Text} :
    (∃ read, (paths.map readWrite).mapM ini.readValue = some read ∧ ownedSections false (serviceSection read) = true) ↔
      ∀ path ∈ paths, ∃ device, ini.readValue (readWrite path) = some (readWrite device) ∧
        (validateDeviceAllowSpec device).isOk = true := by
  simp only [ownedSections_serviceSection]
  induction paths with
  | nil => simp
  | cons path paths ih =>
    rw [List.forall_mem_cons, ← ih]
    cases hread : ini.readValue (readWrite path) with
    | none => simp [hread]
    | some value =>
      cases hrest : (paths.map readWrite).mapM ini.readValue with
      | none => simp [hread, hrest]
      | some read => simp [hread, hrest]

/-- What is put together as it is, is recognized if the reader makes accepted
devices of it. -/
theorem nvidiaDeviceAllowContent_owned (documented : ini.Documented) {paths : List Text}
    (hpaths : validateDeviceAllowPaths paths = .ok ()) :
    isOwnedOverrideContent ini.load (nvidiaDeviceAllowContent paths) = true ↔
      ∀ path ∈ paths, ∃ device, ini.readValue (readWrite path) = some (readWrite device) ∧
        (validateDeviceAllowSpec device).isOk = true := by
  have hbare : ∀ value ∈ paths.map readWrite, Bare value := by
    intro value hvalue
    obtain ⟨path, hpath, rfl⟩ := List.mem_map.mp hvalue
    exact readWrite_path_bare (validateDeviceAllowPaths_ok hpaths path hpath)
  have hcontent : nvidiaDeviceAllowContent paths =
      lasperOverrideMarker ++ '\n' :: ("[Service]\n".toList ++ (paths.map readWrite).flatMap plainLine) := by
    rw [nvidiaDeviceAllowContent, List.flatMap_map]
  rw [hcontent, isOwned_marked, documented.readsPlain _ _ marker_comment.1 marker_comment.2 hbare, ← mapM_readWrite]
  simp only [Option.map_eq_some_iff]
  constructor
  · rintro ⟨config, ⟨read, hread, rfl⟩, howned⟩
    exact ⟨read, hread, howned⟩
  · rintro ⟨read, hread, howned⟩
    exact ⟨_, ⟨read, hread, rfl⟩, howned⟩

end Recognition

section Consequences

variable {load : Text → Option IniSections} {content : Text}

/-- The file is as Lasper leaves it: of bounded size, with the owner and the mode
that are expected. -/
def WrittenAt (disk : Disk) (uid : ℕ) (path : Path) (content : Text) : Prop :=
  validateContentSize content = .ok () ∧ ∃ inode metadata, disk.entry path = some inode ∧
    disk.node inode = .file metadata (Disk.encodeUtf8 content) ∧ metadata.uid = uid ∧
    metadata.mode % 0o10000 = 0o644

/-- The text is known to be Lasper's. So a later write to its file replaces it or
finds it unchanged, and a removal finds it to be owned. -/
structure Recognized (load : Text → Option IniSections) (content : Text) : Prop where
  owned : isOwnedOverrideContent load content = true
  applied : ∀ disk failures stamps uid path requested status, WrittenAt disk uid path content →
    (applyNewOverrideAtWithUid load path requested uid (aloneScene disk failures stamps)).result = .ok status →
    status = .unchanged ∨ status = .replacedOwned
  removed : ∀ disk failures stamps uid path evidence, WrittenAt disk uid path content →
    (probeOwnedOverrideAt load path uid (aloneScene disk failures stamps)).result = .ok evidence →
    evidence = .provenOwned

theorem encodeUtf8_size (text : Text) : (Disk.encodeUtf8 text).size = text.byteLen := Text.utf8ByteSize_ofList text

theorem WrittenAt.owned {disk : Disk} {uid : ℕ} {path : Path} (h : WrittenAt disk uid path content)
    (howned : isOwnedOverrideContent load content = true) : OwnedAt load disk uid path := by
  obtain ⟨hsize, inode, metadata, hentry, hnode, huid, hmode⟩ := h
  refine ⟨inode, metadata, _, content, hentry, hnode, ?_, huid, hmode, Disk.decodeUtf8_encodeUtf8 content, howned⟩
  rw [encodeUtf8_size]
  unfold validateContentSize at hsize
  split_ifs at hsize with hlarge
  omega

theorem Recognized.of_owned (howned : isOwnedOverrideContent load content = true) : Recognized load content where
  owned := howned
  applied := by
    intro disk failures stamps uid path requested status hwritten hresult
    have hat := hwritten.owned howned
    have happlied := (applyNewOverrideAtWithUid_calm (aloneScene_calm disk failures stamps)).returned status hresult
    cases status with
    | created =>
      obtain ⟨inode, metadata, bytes, text, hentry, -⟩ := hat
      rw [happlied.1] at hentry
      cases hentry
    | unchanged => exact .inl rfl
    | replacedOwned => exact .inr rfl
    | conflictUnknownOwner => exact absurd hat happlied.2.2
  removed := by
    intro disk failures stamps uid path evidence hwritten hresult
    have hat := hwritten.owned howned
    have hattests := ((probeOwnedOverrideAt_calm (aloneScene_calm disk failures stamps)).returned evidence hresult).1
    cases evidence with
    | provenOwned => rfl
    | ambiguousLegacy => exact absurd hat hattests.2
    | notPresent =>
      obtain ⟨inode, metadata, bytes, text, hentry, -⟩ := hat
      rw [hattests] at hentry
      cases hentry

/-- Both texts are recognized exactly when the reader makes accepted devices of
the paths that were not escaped. -/
theorem override_recognized_iff (ini : IniLibrary) (documented : ini.Documented) (spec : ServiceOverrideSpec)
    (hspec : validateOverrideSpec spec = .ok ()) (paths : List Text)
    (hpaths : validateDeviceAllowPaths paths = .ok ()) :
    (Recognized ini.load (systemdOverrideContent ini spec.deviceBinds spec.gpuPassthroughAll) ∧
      Recognized ini.load (nvidiaDeviceAllowContent paths)) ↔
      ∀ path ∈ paths, ∃ device, ini.readValue (readWrite path) = some (readWrite device) ∧
        (validateDeviceAllowSpec device).isOk = true := by
  rw [← nvidiaDeviceAllowContent_owned documented hpaths]
  constructor
  · exact fun h => h.2.owned
  · intro howned
    exact ⟨.of_owned (systemdOverrideContent_owned documented hspec), .of_owned howned⟩

/-- In particular where no path has a backslash. -/
theorem recognized_without_backslash {ini : IniLibrary} (documented : ini.Documented) {paths : List Text}
    (hpaths : validateDeviceAllowPaths paths = .ok ()) (hplain : ∀ path ∈ paths, '\\' ∉ path) :
    Recognized ini.load (nvidiaDeviceAllowContent paths) := by
  apply Recognized.of_owned
  rw [nvidiaDeviceAllowContent_owned documented hpaths]
  intro path hpath
  have hvalid := validateDeviceAllowPaths_ok hpaths path hpath
  refine ⟨path, documented.readsBare _ (readWrite_path_bare hvalid) ?_, ?_⟩
  · intro hbackslash
    rcases List.mem_append.mp hbackslash with h | h
    · exact hplain path hpath h
    · exact absurd h (by decide)
  · unfold validateDeviceAllowSpec
    split_ifs
    · rfl
    · rw [hvalid]; rfl

end Consequences

section Example

/-- Where a reader of escapes stands. -/
inductive EscapeMode
  | plain
  | escape
  | hex (digits : Text)

def hexDigit (c : Char) : Option ℕ :=
  if '0' ≤ c ∧ c ≤ '9' then some (c.toNat - '0'.toNat)
  else if 'a' ≤ c ∧ c ≤ 'f' then some (c.toNat - 'a'.toNat + 10)
  else if 'A' ≤ c ∧ c ≤ 'F' then some (c.toNat - 'A'.toNat + 10)
  else none

def hexChar (digits : Text) : Option Char := do
  let values ← digits.mapM hexDigit
  let code := values.foldl (fun n digit => n * 16 + digit) 0
  if code.isValidChar then some (Char.ofNat code) else none

def escapedChar (c : Char) : Char :=
  if c = '0' then '\x00' else if c = 'a' then '\x07' else if c = 'b' then '\x08' else if c = 't' then '\t'
  else if c = 'r' then '\r' else if c = 'n' then '\n' else c

def unescape : EscapeMode → Text → Option Text
  | .plain, [] => some []
  | .escape, [] | .hex _, [] => none
  | .plain, c :: rest => if c = '\\' then unescape .escape rest else (unescape .plain rest).map (c :: ·)
  | .escape, c :: rest =>
    if c = 'x' then unescape (.hex []) rest else (unescape .plain rest).map (escapedChar c :: ·)
  | .hex digits, c :: rest =>
    if digits.length < 3 then unescape (.hex (digits ++ [c])) rest
    else (hexChar (digits ++ [c])).bind fun d => (unescape .plain rest).map (d :: ·)

def escape (value : Text) : Text := value.flatMap fun c => if c = '\\' then ['\\', '\\'] else [c]

def readLines (before : IniSections) (name : Option Text) (properties : List (Text × Text)) :
    List Text → Option IniSections
  | [] => some (before ++ [(name, properties)])
  | line :: lines =>
    if line = [] ∨ line.head? = some '#' then readLines before name properties lines
    else if line.head? = some '[' then
      readLines (before ++ [(name, properties)]) (some (line.drop 1).dropLast) [] lines
    else do
      let (key, value) ← Text.splitOnce '=' line
      let value ← unescape .plain value
      readLines before name (properties ++ [(key, value)]) lines

def writeSection : Option Text × List (Text × Text) → Text
  | (name, properties) =>
    (match name with
      | some name => '[' :: name ++ "]\n".toList
      | none => []) ++ properties.flatMap fun (key, value) => key ++ '=' :: escape value ++ ['\n']

/-- A library of lines, comments and escapes. -/
def lineLibrary : IniLibrary where
  write sections := sections.flatMap writeSection
  load text := readLines [] none [] (text.splitOn '\n')
  readValue := unescape .plain

theorem unescape_escape (value : Text) : unescape .plain (escape value) = some value := by
  induction value with
  | nil => rfl
  | cons c rest ih =>
    have hcons : escape (c :: rest) = (if c = '\\' then ['\\', '\\'] else [c]) ++ escape rest := rfl
    rw [hcons]
    split_ifs with hc
    · subst hc
      have hrun : unescape .plain (['\\', '\\'] ++ escape rest) =
          (unescape .plain (escape rest)).map ('\\' :: ·) := rfl
      rw [hrun, ih]
      rfl
    · rw [List.singleton_append, unescape, if_neg hc, ih]
      rfl

theorem unescape_plain {value : Text} (h : '\\' ∉ value) : unescape .plain value = some value := by
  induction value with
  | nil => rfl
  | cons c rest ih =>
    have hc : c ≠ '\\' := fun heq => h (heq ▸ List.mem_cons_self)
    rw [unescape, if_neg hc, ih fun hrest => h (List.mem_cons_of_mem _ hrest)]
    rfl

theorem splitOn_lines {lines : List Text} (h : ∀ line ∈ lines, '\n' ∉ line) :
    (lines.flatMap (· ++ ['\n'])).splitOn '\n' = lines ++ [[]] := by
  induction lines with
  | nil => rfl
  | cons line lines ih =>
    rw [List.flatMap_cons, List.append_assoc, List.singleton_append, List.splitOn_append_cons_self,
      List.splitOn_eq_singleton (h line List.mem_cons_self), ih fun l hl => h l (List.mem_cons_of_mem _ hl),
      List.singleton_append, List.cons_append]

theorem splitOn_plainLines {values : List Text} (h : ∀ value ∈ values, '\n' ∉ value) :
    (values.flatMap plainLine).splitOn '\n' = values.map ("DeviceAllow=".toList ++ ·) ++ [[]] := by
  have hlines : values.flatMap plainLine = (values.map ("DeviceAllow=".toList ++ ·)).flatMap (· ++ ['\n']) := by
    rw [List.flatMap_map]
    rfl
  rw [hlines]
  apply splitOn_lines
  intro line hline hmem
  obtain ⟨value, hvalue, rfl⟩ := List.mem_map.mp hline
  rcases List.mem_append.mp hmem with hmem | hmem
  · exact absurd hmem (by decide)
  · exact h value hvalue hmem

theorem readLines_plain (values : List Text) (before : IniSections) (name : Option Text)
    (properties : List (Text × Text)) :
    readLines before name properties (values.map ("DeviceAllow=".toList ++ ·) ++ [[]]) =
      (values.mapM (unescape .plain)).map fun read =>
        before ++ [(name, properties ++ read.map fun value => ("DeviceAllow".toList, value))] := by
  induction values generalizing properties with
  | nil => simp [readLines]
  | cons value values ih =>
    have hstep : readLines before name properties
        (("DeviceAllow=".toList ++ value) :: (values.map ("DeviceAllow=".toList ++ ·) ++ [[]])) =
        (unescape .plain value).bind fun read =>
          readLines before name (properties ++ [("DeviceAllow".toList, read)])
            (values.map ("DeviceAllow=".toList ++ ·) ++ [[]]) := by
      have hhead : ("DeviceAllow=".toList ++ value).head? = some 'D' := rfl
      have hsplit : Text.splitOnce '=' ("DeviceAllow=".toList ++ value) = some ("DeviceAllow".toList, value) := rfl
      rw [readLines, hhead, if_neg (by simp), if_neg (by decide), hsplit]
      rfl
    rw [List.map_cons, List.cons_append, hstep]
    cases hread : unescape .plain value with
    | none =>
      rw [List.mapM_cons, hread]
      rfl
    | some read =>
      rw [Option.bind_some, ih, List.mapM_cons, hread]
      cases hrest : values.mapM (unescape .plain) with
      | none => rfl
      | some others =>
        simp only [Option.bind_eq_bind, Option.bind_some, Option.pure_def, Option.map_some, List.append_assoc,
          List.singleton_append, List.map_cons]

theorem lineLibrary_load {comment : Text} (hcomment : comment.head? = some '#') (hline : '\n' ∉ comment)
    {values : List Text} (h : ∀ value ∈ values, '\n' ∉ value) :
    lineLibrary.load (comment ++ '\n' :: ("[Service]\n".toList ++ values.flatMap plainLine)) =
      (values.mapM (unescape .plain)).map serviceSection := by
  have hheader : "[Service]\n".toList ++ values.flatMap plainLine =
      "[Service]".toList ++ '\n' :: values.flatMap plainLine := rfl
  have hservice : '\n' ∉ "[Service]".toList := by decide
  have hlines : (comment ++ '\n' :: ("[Service]\n".toList ++ values.flatMap plainLine)).splitOn '\n' =
      comment :: "[Service]".toList :: (values.map ("DeviceAllow=".toList ++ ·) ++ [[]]) := by
    rw [hheader, List.splitOn_append_cons_self, List.splitOn_eq_singleton hline, List.splitOn_append_cons_self,
      List.splitOn_eq_singleton hservice, splitOn_plainLines h]
    rfl
  have hskip : readLines [] none [] (comment :: "[Service]".toList ::
      (values.map ("DeviceAllow=".toList ++ ·) ++ [[]])) =
      readLines [(none, [])] (some "Service".toList) [] (values.map ("DeviceAllow=".toList ++ ·) ++ [[]]) := by
    rw [readLines, if_pos (.inr hcomment)]
    rfl
  have hload : lineLibrary.load (comment ++ '\n' :: ("[Service]\n".toList ++ values.flatMap plainLine)) =
      readLines [] none []
        ((comment ++ '\n' :: ("[Service]\n".toList ++ values.flatMap plainLine)).splitOn '\n') := rfl
  rw [hload, hlines, hskip, readLines_plain]
  rfl

theorem lineLibrary_write (values : List Text) :
    lineLibrary.write (serviceSection values) =
      "[Service]\n".toList ++ (values.map escape).flatMap plainLine := by
  have hservice : lineLibrary.write (serviceSection values) = "[Service]\n".toList ++
      ((values.map fun value => ("DeviceAllow".toList, value)).flatMap
        (fun property => property.1 ++ '=' :: escape property.2 ++ ['\n']) ++ []) := rfl
  rw [hservice, List.append_nil, List.flatMap_map, List.flatMap_map]
  rfl

theorem mapM_escape (values : List Text) : (values.map escape).mapM (unescape .plain) = some values := by
  induction values with
  | nil => rfl
  | cons value values ih => simp [unescape_escape, ih]

theorem Bare.oneLine {value : Text} (h : Bare value) : '\n' ∉ value := by
  intro hmem
  exact absurd (h.printable _ hmem) (by decide)

theorem lineLibrary_documented : lineLibrary.Documented where
  readsWritten := by
    intro comment values hcomment hline hbare
    have hescaped : ∀ value ∈ values.map escape, '\n' ∉ value := by
      intro value hvalue hmem
      obtain ⟨plain, hplain, rfl⟩ := List.mem_map.mp hvalue
      obtain ⟨c, hc, hin⟩ := List.mem_flatMap.mp hmem
      split_ifs at hin
      · exact absurd hin (by decide)
      · exact (hbare plain hplain).oneLine (List.mem_singleton.mp hin ▸ hc)
    rw [lineLibrary_write, lineLibrary_load hcomment hline hescaped, mapM_escape]
    rfl
  readsPlain := by
    intro comment values hcomment hline hbare
    exact lineLibrary_load hcomment hline fun value hvalue => (hbare value hvalue).oneLine
  readsBare _ _ := unescape_plain

/-- A device path whose last characters read as a line break. -/
def brokenDevice : Text := "/dev/nvidia\\n0".toList

theorem broken_device_unrecognized : lineLibrary.Documented ∧ validateDeviceAllowPaths [brokenDevice] = .ok () ∧
    validateContentSize (nvidiaDeviceAllowContent [brokenDevice]) = .ok () ∧
    ¬ Recognized lineLibrary.load (nvidiaDeviceAllowContent [brokenDevice]) := by
  refine ⟨lineLibrary_documented, rfl, rfl, fun h => ?_⟩
  exact absurd h.owned (by decide)

theorem nvidia_devices_recognized :
    Recognized lineLibrary.load (systemdOverrideContent lineLibrary ["/dev/dri".toList] false) ∧
      Recognized lineLibrary.load (nvidiaDeviceAllowContent ["/dev/nvidia0".toList, "/dev/nvidiactl".toList]) := by
  refine (override_recognized_iff lineLibrary lineLibrary_documented ⟨["/dev/dri".toList], false⟩ rfl
    ["/dev/nvidia0".toList, "/dev/nvidiactl".toList] rfl).mpr ?_
  intro path hpath
  simp only [List.mem_cons, List.not_mem_nil, or_false] at hpath
  obtain rfl | rfl := hpath
  · exact ⟨"/dev/nvidia0".toList, rfl, rfl⟩
  · exact ⟨"/dev/nvidiactl".toList, rfl, rfl⟩

end Example

end Lasper.Overrides
