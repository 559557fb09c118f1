import Lasper.Nspawn.Accepted

/-! A generated file reads back as it was asked for, exactly when no path ends in a blank
and the name of the interface does not end in an open escape. -/

namespace Lasper.Nspawn

open Lib Config Nvidia

variable {spec : NspawnConfigSpec} {waylandBinds : List WaylandBind} {write : List IniSection → Text}
  {content : Text}

section Lines

theorem entries_cases (h : AcceptedContent spec waylandBinds write content) {part : IniSection}
    (hpart : part ∈ sections spec waylandBinds) {entry : Text × Text} (hentry : entry ∈ part.entries) :
    Ordinary entry ∨ ∃ mode, spec.network = some mode ∧ mode.interfaceEntry = some entry := by
  simp only [sections, List.mem_cons, List.mem_append, Option.mem_toList, Option.map_eq_some_iff] at hpart
  rcases hpart with rfl | ⟨mode, hmode, rfl⟩ | hfiles
  · exact .inl (exec_word entry hentry).ordinary
  · obtain ⟨front, back, hsplit, hword⟩ := networkSettings_split spec mode
    rw [hsplit] at hentry
    rcases List.mem_append.mp hentry with hfront | hback
    · exact .inl (hword entry (List.mem_append_left _ hfront)).ordinary
    · rcases List.mem_append.mp hback with hnamed | hback
      · exact .inr ⟨mode, hmode, Option.mem_toList.mp hnamed⟩
      · exact .inl (hword entry (List.mem_append_right _ hback)).ordinary
  · split_ifs at hfiles
    · rw [List.mem_singleton.mp hfiles] at hentry
      exact .inl (file_ordinary h entry hentry)
    · cases hfiles

theorem interface_word (h : AcceptedContent spec waylandBinds write content) {mode : NetworkMode}
    (hmode : spec.network = some mode) {entry : Text × Text} (hentry : mode.interfaceEntry = some entry) :
    isPlainKey entry.1 = true ∧ entry.1 ∈ interfaceKeys ∧ isSolid entry.2 = true := by
  obtain ⟨hname, hkey, hother⟩ := interfaceEntry_some hentry
  have hvalid := h.accepted.interface entry.2 (by rw [hmode]; exact hname)
  exact ⟨hkey, hother, interface_solid hvalid⟩

theorem sections_plainKey (h : AcceptedContent spec waylandBinds write content) :
    ∀ part ∈ sections spec waylandBinds, ∀ entry ∈ part.entries, isPlainKey entry.1 = true := by
  intro part hpart entry hentry
  rcases entries_cases h hpart hentry with hordinary | ⟨mode, hmode, hnamed⟩
  · exact hordinary.key
  · exact (interface_word h hmode hnamed).1

theorem sections_named {part : IniSection} (h : part ∈ sections spec waylandBinds) :
    part.name ∈ ["Exec".toList, "Network".toList, "Files".toList] := by
  simp only [sections, List.mem_cons, List.mem_append, Option.mem_toList, Option.map_eq_some_iff] at h
  rcases h with rfl | ⟨mode, -, rfl⟩ | hfiles
  · exact List.mem_cons_self
  · exact List.mem_cons_of_mem _ List.mem_cons_self
  · split_ifs at hfiles
    · rw [List.mem_singleton.mp hfiles]
      exact List.mem_cons_of_mem _ (List.mem_cons_of_mem _ List.mem_cons_self)
    · cases hfiles

theorem printable_of_plainKey {key : Text} (h : isPlainKey key = true) : isPrintable key = true := by
  have hletter : ∀ c, isKeyCharacter c = true → isControl c = false := by
    intro c hc
    unfold isKeyCharacter Char.isAlpha Char.isUpper Char.isLower at hc
    simp only [Bool.or_eq_true, Bool.and_eq_true, decide_eq_true_eq, ge_iff_le, UInt32.le_iff_toNat_le] at hc
    have hval : c.toNat = c.val.toNat := rfl
    rcases hc with (⟨hlow, hhigh⟩ | ⟨hlow, hhigh⟩) | rfl
    · simp at hlow hhigh
      exact (graphic_plain (by omega) (by omega)).2
    · simp at hlow hhigh
      exact (graphic_plain (by omega) (by omega)).2
    · decide
  simpa [isPrintable] using fun c hc => hletter c (all_of_isPlainKey h c hc)

theorem sections_printable (h : AcceptedContent spec waylandBinds write content) :
    ∀ part ∈ sections spec waylandBinds, part.Printable := by
  have hnames : ∀ name ∈ ["Exec".toList, "Network".toList, "Files".toList], isPrintable name = true := by decide
  intro part hpart
  constructor
  · exact hnames _ (sections_named hpart)
  · intro entry hentry
    apply And.intro (printable_of_plainKey (sections_plainKey h part hpart entry hentry))
    rcases entries_cases h hpart hentry with hordinary | ⟨mode, hmode, hnamed⟩
    · exact hordinary.printable
    · exact printable_of_solid (interface_word h hmode hnamed).2.2

theorem lines_content (hwriter : VerbatimWriter write) (h : AcceptedContent spec waylandBinds write content) :
    (Text.lines content).filter (· ≠ []) = (sections spec waylandBinds).flatMap IniSection.lines := by
  rw [h.written]
  exact hwriter _ (sections_printable h)

theorem lines_cons {c : Char} (hnewline : c ≠ '\n') (hreturn : c ≠ '\r') (rest : Text) :
    ∃ line lines, Text.lines (c :: rest) = (c :: line) :: lines := by
  have hpieces : ∃ piece more, pieces '\n' (c :: rest) = (c :: piece) :: more := by
    rw [pieces, if_neg hnewline]
    split
    · exact ⟨_, _, rfl⟩
    · exact ⟨_, _, rfl⟩
  obtain ⟨piece, more, hpieces⟩ := hpieces
  have hfront := Text.splitEnding_append (c :: piece)
  have hhead : ∃ line, (Text.splitEnding (c :: piece)).1 = c :: line := by
    cases hline : (Text.splitEnding (c :: piece)).1 with
    | cons d line =>
      rw [hline] at hfront
      exact ⟨line, by rw [(List.cons.inj hfront).1]⟩
    | nil =>
      rw [hline, List.nil_append] at hfront
      have hend : (Text.splitEnding (c :: piece)).2.head? = some c := by rw [hfront]; rfl
      unfold Text.splitEnding at hend
      split_ifs at hend
      · exact absurd (Option.some.inj hend).symm hreturn
      · exact absurd (Option.some.inj hend).symm hnewline
      · cases hend
  obtain ⟨line, hline⟩ := hhead
  exact ⟨line, more.map fun raw => (Text.splitEnding raw).1, by rw [Text.lines, hpieces, List.map_cons, hline]⟩

/-- The file begins with its first header. -/
theorem settings_content (hwriter : VerbatimWriter write) (h : AcceptedContent spec waylandBinds write content) :
    settings content = settingsFrom [] (logicalTexts [] (Text.lines content)) := by
  apply settings_eq
  intro hmark
  obtain ⟨rest, hrest⟩ : ∃ rest, content = byteOrderMark :: rest := by
    cases content with
    | nil => cases hmark
    | cons c rest => exact ⟨rest, by rw [List.head?_cons, Option.some_inj] at hmark; rw [hmark]⟩
  obtain ⟨line, lines, hlines⟩ := @lines_cons byteOrderMark (by decide) (by decide) rest
  have hwritten := lines_content hwriter h
  rw [hrest, hlines, List.filter_cons_of_pos (by simp)] at hwritten
  have hheader := congrArg List.head? hwritten
  have hfirst : ((sections spec waylandBinds).flatMap IniSection.lines).head? = some (headerLine "Exec".toList) := rfl
  rw [hfirst, List.head?_cons, Option.some_inj] at hheader
  have hbracket : some byteOrderMark = some '[' := congrArg List.head? hheader
  exact absurd (Option.some.inj hbracket) (by decide)

end Lines

section Forward

variable (hwriter : VerbatimWriter write) (h : AcceptedContent spec waylandBinds write content)
include hwriter h

/-- Where every value ends on its line, the settings are those of the sections. -/
theorem settings_closed (hclean : Clean spec waylandBinds) :
    settings content = (sections spec waylandBinds).flatMap IniSection.settings := by
  have hclosed : ∀ part ∈ sections spec waylandBinds, ∀ entry ∈ part.entries, hasContinuation entry.2 = false := by
    intro part hpart entry hentry
    rcases entries_cases h hpart hentry with hordinary | ⟨mode, hmode, hnamed⟩
    · exact hordinary.closed
    · apply hclean.closed entry.2
      rw [hmode]
      exact (interfaceEntry_some hnamed).1
  have hplain : ∀ line ∈ Text.lines content, PlainLine line := by
    intro line hline
    by_cases hempty : line = []
    · rw [hempty]
      exact plainLine_nil
    · have hmem : line ∈ (sections spec waylandBinds).flatMap IniSection.lines := by
        rw [← lines_content hwriter h]
        exact List.mem_filter.mpr ⟨hline, by simpa using hempty⟩
      obtain ⟨part, hpart, hline⟩ := List.mem_flatMap.mp hmem
      rcases List.mem_cons.mp hline with rfl | hline
      · exact plainLine_header _
      · obtain ⟨entry, hentry, rfl⟩ := List.mem_map.mp hline
        exact plainLine_assignment (sections_plainKey h part hpart entry hentry) (hclosed part hpart entry hentry)
  rw [settings_content hwriter h, logicalTexts_plain hplain, ← settingsFrom_filter, lines_content hwriter h,
    settingsFrom_sections (sections_plainKey h)]

omit hwriter h in
theorem filterMap_settings (part : IniSection) (header : Text) :
    (part.settings.filterMap fun setting => if setting.1 = header then some setting.2 else none) =
      if headerLine part.name = header then part.entries.map fun entry => (entry.1, Text.trim entry.2) else [] := by
  rw [IniSection.settings, List.filterMap_map]
  split_ifs with hname
  · rw [← List.filterMap_eq_map]
    congr 1
    funext entry
    simp [hname]
  · rw [List.filterMap_eq_nil_iff]
    intro entry _
    simp [hname]

/-- What is read under a header is what was written under it. -/
theorem settingsIn_closed (hclean : Clean spec waylandBinds) (header : Text) : settingsIn header content =
    (if headerLine "Exec".toList = header then
      (execSettings spec).map fun entry => (entry.1, Text.trim entry.2) else []) ++
    ((if headerLine "Network".toList = header then
      (spec.network.elim [] (networkSettings spec)).map fun entry => (entry.1, Text.trim entry.2) else []) ++
    if headerLine "Files".toList = header then
      (if hasFiles spec waylandBinds then fileSettings spec waylandBinds else []).map
        fun entry => (entry.1, Text.trim entry.2) else []) := by
  rw [settingsIn, settings_closed hwriter h hclean, sections, List.flatMap_cons, List.flatMap_append,
    List.filterMap_append, List.filterMap_append, filterMap_settings]
  congr 2
  · cases spec.network with
    | none => exact (ite_self []).symm
    | some mode =>
      have hpart := filterMap_settings ⟨"Network".toList, networkSettings spec mode⟩ header
      rw [Option.map_some, Option.toList_some, List.flatMap_singleton, hpart]
      rfl
  · cases hasFiles spec waylandBinds with
    | false => exact (ite_self []).symm
    | true =>
      have hpart := filterMap_settings ⟨"Files".toList, fileSettings spec waylandBinds⟩ header
      rw [if_pos rfl, if_pos rfl, List.flatMap_singleton, hpart]

omit hwriter h in
theorem map_trim_words {entries : List (Text × Text)} (hsolid : ∀ entry ∈ entries, isSolid entry.2 = true) :
    (entries.map fun entry => (entry.1, Text.trim entry.2)) = entries := by
  rw [List.map_congr_left fun entry hentry => by rw [trim_solid (hsolid entry hentry)]]
  exact List.map_id' entries

omit hwriter in
theorem networkSettings_solid {mode : NetworkMode} (hmode : spec.network = some mode) :
    ∀ entry ∈ networkSettings spec mode, isSolid entry.2 = true := by
  obtain ⟨front, back, hsplit, hword⟩ := networkSettings_split spec mode
  intro entry hentry
  rw [hsplit] at hentry
  rcases List.mem_append.mp hentry with hfront | hback
  · exact (hword entry (List.mem_append_left _ hfront)).solid
  · rcases List.mem_append.mp hback with hnamed | hback
    · exact (interface_word h hmode (Option.mem_toList.mp hnamed)).2.2
    · exact (hword entry (List.mem_append_right _ hback)).solid

theorem reads_exec (hclean : Clean spec waylandBinds) :
    settingsIn (headerLine "Exec".toList) content = execSettings spec := by
  rw [settingsIn_closed hwriter h hclean, if_pos rfl, if_neg (by decide), if_neg (by decide), List.append_nil,
    List.append_nil, map_trim_words fun entry hentry => (exec_word entry hentry).solid]

theorem reads_network (hclean : Clean spec waylandBinds) :
    settingsIn (headerLine "Network".toList) content = spec.network.elim [] (networkSettings spec) := by
  rw [settingsIn_closed hwriter h hclean, if_neg (by decide), if_pos rfl, if_neg (by decide), List.append_nil,
    List.nil_append, map_trim_words]
  cases hmode : spec.network with
  | none => exact nofun
  | some mode => exact networkSettings_solid h hmode

theorem reads_files (hclean : Clean spec waylandBinds) : settingsIn (headerLine "Files".toList) content =
    (if hasFiles spec waylandBinds then fileSettings spec waylandBinds else []).map
      fun entry => (entry.1, Text.trim entry.2) := by
  rw [settingsIn_closed hwriter h hclean, if_neg (by decide), if_neg (by decide), if_pos rfl, List.nil_append,
    List.nil_append]

omit hwriter h in
theorem readPort_other (key value : Text) (hkey : key ≠ "Port".toList) : readPort (key, value) = none := if_neg hkey

omit hwriter in
/-- The ports of an accepted request are all written. -/
theorem readPort_network : (spec.network.elim [] (networkSettings spec)).filterMap readPort = spec.portForwards := by
  have hports : (portSettings spec).filterMap readPort = spec.portForwards := by
    rw [portSettings, List.filterMap_map]
    have hread : (readPort ∘ fun forward : NspawnPortForward => ("Port".toList, forward.text)) = some := by
      funext forward
      exact parsePort_text forward
    rw [hread, List.filterMap_some]
  have haccepted := h.accepted.ports
  cases hmode : spec.network with
  | none =>
    rw [hmode] at haccepted
    exact (List.isEmpty_iff.mp haccepted).symm
  | some mode =>
    rw [hmode] at haccepted
    rw [Option.elim_some]
    cases mode with
    | veth =>
      rw [networkSettings, List.filterMap_cons_none (by decide)]
      exact hports
    | bridge name =>
      rw [networkSettings, List.filterMap_cons_none (by decide), List.filterMap_cons_none (readPort_other "Bridge".toList name (by decide))]
      exact hports
    | host =>
      rw [networkSettings, List.filterMap_cons_none (by decide)]
      exact (List.isEmpty_iff.mp haccepted).symm
    | none =>
      rw [networkSettings, List.filterMap_cons_none (by decide)]
      exact (List.isEmpty_iff.mp haccepted).symm
    | macVlan name =>
      rw [networkSettings, List.filterMap_cons_none (by decide), List.filterMap_cons_none (by decide),
        List.filterMap_cons_none (readPort_other "MACVLAN".toList name (by decide))]
      exact (List.isEmpty_iff.mp haccepted).symm
    | ipVlan name =>
      rw [networkSettings, List.filterMap_cons_none (by decide), List.filterMap_cons_none (by decide),
        List.filterMap_cons_none (readPort_other "IPVLAN".toList name (by decide))]
      exact (List.isEmpty_iff.mp haccepted).symm
    | interface name =>
      rw [networkSettings, List.filterMap_cons_none (by decide), List.filterMap_cons_none (by decide),
        List.filterMap_cons_none (readPort_other "Interface".toList name (by decide))]
      exact (List.isEmpty_iff.mp haccepted).symm

omit hwriter h in
theorem declared_of_hasFiles (hfiles : hasFiles spec waylandBinds = false) : declared spec waylandBinds = [] := by
  simp only [hasFiles, Bool.or_eq_false_iff, Bool.not_eq_false', List.isEmpty_iff] at hfiles
  obtain ⟨⟨⟨⟨⟨⟨hdevices, hreadonlys⟩, hmounts⟩, hwayland⟩, hx11⟩, hdrm⟩, -⟩ := hfiles
  simp [declared, hdevices, hreadonlys, hmounts, hwayland, hx11, hdrm]

theorem reads_binds (hclean : Clean spec waylandBinds) :
    readBinds content = (declared spec waylandBinds).map DeclaredBind.semantics := by
  have hread : ∀ bind ∈ declared spec waylandBinds,
      readBind (bind.setting.1, Text.trim bind.setting.2) = some bind.semantics := by
    intro bind hbind
    have hinked : bind.Inked := ⟨hclean.sources bind hbind, hclean.targets bind hbind⟩
    have hparse := (declared_valid h bind hbind).parse_value hinked
    rw [(declared_valid h bind hbind).trim_value hinked]
    cases haccess : bind.readonly with
    | true =>
      have hkey : bind.setting.1 = "BindReadOnly".toList := by rw [DeclaredBind.setting, haccess]; rfl
      rw [readBind, if_neg (by rw [hkey]; decide), if_pos hkey, hparse, DeclaredBind.semantics, haccess]
    | false =>
      have hkey : bind.setting.1 = "Bind".toList := by rw [DeclaredBind.setting, haccess]; rfl
      rw [readBind, if_pos hkey, hparse, DeclaredBind.semantics, haccess]
  rw [readBinds, reads_files hwriter h hclean]
  cases hfiles : hasFiles spec waylandBinds with
  | false => rw [declared_of_hasFiles hfiles]; rfl
  | true =>
    have hgpu : ((if spec.nvidiaGpu then [("X-Lasper-Nvidia-Enabled".toList, "true".toList)] else []).map
        fun entry => (entry.1, Text.trim entry.2)).filterMap readBind = [] := by
      split_ifs <;> decide
    rw [if_pos rfl, fileSettings_eq, List.map_append, List.filterMap_append, hgpu, List.nil_append, List.map_map,
      List.filterMap_map, ← List.filterMap_eq_map]
    exact List.filterMap_congr hread

theorem readsBack_of_clean (hclean : Clean spec waylandBinds) : ReadsBack spec waylandBinds content where
  exec := reads_exec hwriter h hclean
  network := reads_network hwriter h hclean
  ports := by rw [readPorts, reads_network hwriter h hclean, readPort_network h]
  binds := reads_binds hwriter h hclean

end Forward

section Backward

/-- The parser trims what it reads. -/
theorem parse_ends {value : Text} {readonly : Bool} {read : NspawnBindSemantics}
    (h : parseNspawnBindValue value readonly = some read) : EndsInInk read.source ∧ EndsInInk read.destination := by
  simp only [parseNspawnBindValue] at h
  split_ifs at h with hfields hsource
  rw [← Option.some.inj h]
  apply And.intro (endsInInk_trim _)
  cases hfield : ((parseNspawnBindFields (Text.trim value))[1]?.map Text.trim).filter (· ≠ []) with
  | none => exact endsInInk_trim _
  | some destination =>
    obtain ⟨field, -, hfield⟩ := Option.map_eq_some_iff.mp (Option.filter_eq_some_iff.mp hfield).1
    rw [Option.getD_some, ← hfield]
    exact endsInInk_trim field

theorem readBinds_ends {read : NspawnBindSemantics} (h : read ∈ readBinds content) :
    EndsInInk read.source ∧ EndsInInk read.destination := by
  obtain ⟨setting, -, hread⟩ := List.mem_filterMap.mp h
  unfold readBind at hread
  split_ifs at hread
  · exact parse_ends hread
  · exact parse_ends hread

theorem inked_of_reads (h : ReadsBack spec waylandBinds content) :
    ∀ bind ∈ declared spec waylandBinds, EndsInInk bind.source ∧ ∀ target ∈ bind.target, EndsInInk target := by
  intro bind hbind
  have hmem : bind.semantics ∈ readBinds content := by
    rw [h.binds]
    exact List.mem_map_of_mem hbind
  have hends := readBinds_ends hmem
  apply And.intro hends.1
  intro target htarget
  have hdestination : bind.semantics.destination = target := by
    rw [DeclaredBind.semantics, Option.mem_def.mp htarget, Option.getD_some]
  rw [← hdestination]
  exact hends.2

/-- A setting comes from one of the lines. -/
theorem mem_settingsFrom {header : Text} {lines : List Text} {setting : Text × Text × Text}
    (h : setting ∈ settingsFrom header lines) : ∃ line ∈ lines, (Text.trim line).head? ≠ some '[' ∧
      ∃ key value, Text.splitOnce '=' (Text.trim line) = some (key, value) ∧
        setting.2 = (Text.trim key, Text.trim value) := by
  induction lines generalizing header with
  | nil => cases h
  | cons line lines ih =>
    rw [settingsFrom] at h
    split_ifs at h with hheader
    · obtain ⟨found, hfound, hrest⟩ := ih h
      exact ⟨found, List.mem_cons_of_mem _ hfound, hrest⟩
    · split at h
      · next key value hsplit =>
        rcases List.mem_cons.mp h with rfl | h
        · exact ⟨line, List.mem_cons_self, hheader, key, value, hsplit, rfl⟩
        · obtain ⟨found, hfound, hrest⟩ := ih h
          exact ⟨found, List.mem_cons_of_mem _ hfound, hrest⟩
      · obtain ⟨found, hfound, hrest⟩ := ih h
        exact ⟨found, List.mem_cons_of_mem _ hfound, hrest⟩

/-- What a line of the file can be, if it is not the one that names the interface. -/
inductive OrdinaryLine : Text → Prop
  | blank : OrdinaryLine []
  | header (name : Text) : OrdinaryLine (headerLine name)
  | setting (entry : Text × Text) (h : Ordinary entry) : OrdinaryLine (assignment entry)

theorem OrdinaryLine.plain {line : Text} (h : OrdinaryLine line) : PlainLine line := by
  cases h with
  | blank => exact plainLine_nil
  | header name => exact plainLine_header name
  | setting entry h => exact plainLine_assignment h.key h.closed

/-- No ordinary line names an interface. -/
theorem OrdinaryLine.other {line key value : Text} (h : OrdinaryLine line)
    (hheader : (Text.trim line).head? ≠ some '[')
    (hsplit : Text.splitOnce '=' (Text.trim line) = some (key, value)) : Text.trim key ∉ interfaceKeys := by
  cases h with
  | blank => cases hsplit
  | header name =>
    rw [trim_headerLine] at hheader
    exact absurd rfl hheader
  | setting entry h =>
    rw [trim_assignment h.key, splitOnce_assignment h.key] at hsplit
    rw [← (Prod.mk.inj (Option.some.inj hsplit)).1, trim_key h.key]
    exact h.other

theorem OrdinaryLine.inked_ne_one {line : Text} (h : OrdinaryLine line) : inked line ≠ 1 := by
  cases h with
  | blank => decide
  | header name =>
    have hbracket : inked [']'] = 1 := by decide
    have hbrackets : inked (headerLine name) = inked name + inked [']'] + 1 := by
      rw [headerLine, List.cons_append, inked_cons_ink (by decide), inked_append]
    omega
  | setting entry h =>
    obtain ⟨c, rest, hkey, hc⟩ := exists_of_isPlainKey h.key
    have htwo : inked (assignment entry) = inked rest + (inked entry.2 + 1) + 1 := by
      rw [assignment, hkey, List.cons_append, inked_cons_ink (inked_keyCharacter hc), inked_append,
        inked_cons_ink (by decide)]
    omega

/-- A value that runs into the next line is not read as it was written. -/
theorem trim_broken {name next : Text} (hsolid : isSolid name = true) (hcontinued : hasContinuation name = true)
    (hnext : inked next ≠ 1) : Text.trim (name.dropLast ++ ' ' :: next) ≠ name := by
  intro hname
  have hcount := congrArg inked hname
  rw [inked_trim] at hcount
  obtain ⟨front, c, rfl⟩ : ∃ front c, name = front ++ [c] := by
    rcases List.eq_nil_or_concat name with rfl | ⟨front, c, rfl⟩
    · cases hcontinued
    · exact ⟨front, c, List.concat_eq_append⟩
  have hc : isWhitespace c = false := by
    simp only [isSolid, List.all_eq_true, Bool.and_eq_true, Bool.not_eq_true'] at hsolid
    exact (hsolid c (List.mem_append_right _ List.mem_cons_self)).1
  have hlast : inked [c] = 1 := inked_cons_ink hc []
  rw [List.dropLast_concat, inked_append, inked_append, inked_cons_blank (by decide), hlast] at hcount
  exact hnext (Nat.add_left_cancel hcount)

theorem ordinaryLine_part {part : IniSection} (h : ∀ entry ∈ part.entries, Ordinary entry) :
    ∀ line ∈ part.lines, OrdinaryLine line := by
  intro line hline
  rcases List.mem_cons.mp hline with rfl | hline
  · exact .header part.name
  · obtain ⟨entry, hentry, rfl⟩ := List.mem_map.mp hline
    exact .setting entry (h entry hentry)

/-- The line that names the interface stands between ordinary lines. -/
theorem lines_around (h : AcceptedContent spec waylandBinds write content) {mode : NetworkMode}
    (hmode : spec.network = some mode) {entry : Text × Text} (hentry : mode.interfaceEntry = some entry) :
    ∃ front back, (sections spec waylandBinds).flatMap IniSection.lines = front ++ assignment entry :: back ∧
      (∀ line ∈ front, OrdinaryLine line) ∧ ∀ line ∈ back, OrdinaryLine line := by
  obtain ⟨front, back, hsplit, hword⟩ := networkSettings_split spec mode
  have hfiles : ∀ part ∈ (if hasFiles spec waylandBinds then [⟨"Files".toList, fileSettings spec waylandBinds⟩]
      else [] : List IniSection), ∀ line ∈ part.lines, OrdinaryLine line := by
    intro part hpart
    split_ifs at hpart
    · rw [List.mem_singleton.mp hpart]
      exact ordinaryLine_part (file_ordinary h)
    · cases hpart
  refine ⟨IniSection.lines ⟨"Exec".toList, execSettings spec⟩ ++ IniSection.lines ⟨"Network".toList, front⟩,
    back.map assignment ++ (if hasFiles spec waylandBinds then [⟨"Files".toList, fileSettings spec waylandBinds⟩]
      else [] : List IniSection).flatMap IniSection.lines, ?_, ?_, ?_⟩
  · rw [sections, hmode, List.flatMap_cons, List.flatMap_append, Option.map_some, Option.toList_some,
      List.flatMap_singleton, hsplit, hentry]
    simp [IniSection.lines]
  · intro line hline
    rcases List.mem_append.mp hline with hline | hline
    · exact ordinaryLine_part (fun entry hentry => (exec_word entry hentry).ordinary) line hline
    · exact ordinaryLine_part (fun entry hentry => (hword entry (List.mem_append_left _ hentry)).ordinary) line hline
  · intro line hline
    rcases List.mem_append.mp hline with hline | hline
    · obtain ⟨entry, hentry, rfl⟩ := List.mem_map.mp hline
      exact .setting entry (hword entry (List.mem_append_right _ hentry)).ordinary
    · obtain ⟨part, hpart, hline⟩ := List.mem_flatMap.mp hline
      exact hfiles part hpart line hline

/-- Lines that are ordinary without the blank ones are ordinary. -/
theorem ordinaryLine_of_filter {lines kept : List Text} (h : lines.filter (· ≠ []) = kept)
    (hkept : ∀ line ∈ kept, OrdinaryLine line) : ∀ line ∈ lines, OrdinaryLine line := by
  intro line hline
  by_cases hblank : line = []
  · rw [hblank]
    exact .blank
  · apply hkept
    rw [← h]
    exact List.mem_filter.mpr ⟨hline, by simpa using hblank⟩

/-- The name of an interface that runs into the next line is not read. -/
theorem closed_of_reads (hwriter : VerbatimWriter write) (h : AcceptedContent spec waylandBinds write content)
    (hreads : ReadsBack spec waylandBinds content) :
    ∀ name ∈ spec.network.bind (·.interfaceName), hasContinuation name = false := by
  intro name hname
  by_contra hopen
  have hcontinued : hasContinuation name = true := by simpa using hopen
  obtain ⟨mode, hmode, hname⟩ := Option.bind_eq_some_iff.mp hname
  obtain ⟨key, hentry⟩ := exists_interfaceEntry hname
  obtain ⟨hkey, hinterface, hsolid⟩ := interface_word h hmode hentry
  obtain ⟨front, back, hlines, hfront, hback⟩ := lines_around h hmode hentry
  -- the lines of the file around the one that is continued
  rw [← lines_content hwriter h] at hlines
  obtain ⟨before, rest, hcontent, hbefore, hrest⟩ := List.filter_eq_append_iff.mp hlines
  obtain ⟨blanks, after, rfl, hblanks, -, hafter⟩ := List.filter_eq_cons_iff.mp hrest
  have hordinary : ∀ line ∈ before ++ blanks, OrdinaryLine line := by
    intro line hline
    rcases List.mem_append.mp hline with hline | hline
    · exact ordinaryLine_of_filter hbefore hfront line hline
    · have hblank : line = [] := by simpa using hblanks line hline
      rw [hblank]
      exact .blank
  have hordinary' := ordinaryLine_of_filter hafter hback
  obtain ⟨next, later, hlogical, hnext⟩ := logicalTexts_continued (isComment_assignment hkey name)
    ((hasContinuation_assignment (key, name)).trans hcontinued) fun line hline => (hordinary' line hline).plain
  have hnextOrdinary : OrdinaryLine next ∧ ∀ line ∈ later, OrdinaryLine line := by
    rcases hnext with rfl | ⟨-, rfl, rfl⟩
    · exact ⟨hordinary' next List.mem_cons_self, fun line hline => hordinary' line (List.mem_cons_of_mem _ hline)⟩
    · exact ⟨.blank, nofun⟩
  have hne : name ≠ [] := by
    rintro rfl
    cases hcontinued
  have hbroken : (assignment (key, name)).dropLast ++ ' ' :: next = assignment (key, name.dropLast ++ ' ' :: next) := by
    rw [assignment, List.dropLast_append_of_ne_nil (List.cons_ne_nil _ _), List.dropLast_cons_of_ne_nil hne, assignment,
      List.append_assoc, List.cons_append]
  rw [← List.append_assoc] at hcontent
  have hsettings := settings_content hwriter h
  rw [hcontent, logicalTexts_append fun line hline => (hordinary line hline).plain, hlogical, hbroken] at hsettings
  -- the setting that should be there has no line to come from
  have hmem : (key, name) ∈ settingsIn (headerLine "Network".toList) content := by
    obtain ⟨front, back, hsplit, -⟩ := networkSettings_split spec mode
    rw [hreads.network, hmode, Option.elim_some, hsplit, hentry]
    simp
  obtain ⟨setting, hsetting, hfound⟩ := List.mem_filterMap.mp hmem
  rw [hsettings] at hsetting
  obtain ⟨line, hline, hheader, k, v, hsplit, hread⟩ := mem_settingsFrom hsetting
  have hpair : setting.2 = (key, name) := by
    split_ifs at hfound
    exact Option.some.inj hfound
  rw [hpair, Prod.mk.injEq] at hread
  have hnot : ¬ OrdinaryLine line := by
    intro hline
    apply hline.other hheader hsplit
    rw [← hread.1]
    exact hinterface
  rcases List.mem_append.mp hline with hline | hline
  · exact hnot (hordinary line hline)
  · rcases List.mem_cons.mp hline with rfl | hline
    · rw [trim_assignment hkey, splitOnce_assignment hkey] at hsplit
      rw [← (Prod.mk.inj (Option.some.inj hsplit)).2, trim_trimEnd] at hread
      exact trim_broken hsolid hcontinued hnextOrdinary.1.inked_ne_one hread.2.symm
    · exact hnot (hnextOrdinary.2 line hline)

end Backward

section Writing

/-- The sections with a blank line between them. -/
def spacedLines : List IniSection → List Text
  | [] => []
  | [part] => part.lines
  | part :: parts => part.lines ++ [] :: spacedLines parts

def spacedText (parts : List IniSection) : Text := Text.terminated (spacedLines parts)

variable {parts : List IniSection}

theorem mem_spacedLines {line : Text} (h : line ∈ spacedLines parts) :
    line = [] ∨ ∃ part ∈ parts, line ∈ part.lines := by
  fun_induction spacedLines parts with
  | case1 => cases h
  | case2 part => exact .inr ⟨part, List.mem_cons_self, h⟩
  | case3 part parts hne ih =>
    rcases List.mem_append.mp h with h | h
    · exact .inr ⟨part, List.mem_cons_self, h⟩
    · rcases List.mem_cons.mp h with rfl | h
      · exact .inl rfl
      · exact (ih h).imp_right fun ⟨other, hother, hline⟩ => ⟨other, List.mem_cons_of_mem _ hother, hline⟩

theorem lines_filter (part : IniSection) : part.lines.filter (· ≠ []) = part.lines := by
  rw [List.filter_eq_self]
  intro line hline
  rcases List.mem_cons.mp hline with rfl | hline
  · rfl
  · obtain ⟨entry, -, rfl⟩ := List.mem_map.mp hline
    simp [assignment]

theorem spacedLines_filter : (spacedLines parts).filter (· ≠ []) = parts.flatMap IniSection.lines := by
  fun_induction spacedLines parts with
  | case1 => rfl
  | case2 part => rw [lines_filter, List.flatMap_singleton]
  | case3 part parts hne ih =>
    rw [List.filter_append, lines_filter, List.filter_cons_of_neg (by simp), ih, List.flatMap_cons]

theorem printable_line {part : IniSection} (hpart : part.Printable) {line : Text} (h : line ∈ part.lines) :
    isPrintable line = true := by
  rcases List.mem_cons.mp h with rfl | h
  · have hname := hpart.named
    simpa [isPrintable, headerLine, isControl] using hname
  · obtain ⟨entry, hentry, rfl⟩ := List.mem_map.mp h
    have hcons : isPrintable ('=' :: entry.2) = isPrintable entry.2 := rfl
    rw [assignment, isPrintable_append, hcons, (hpart.written entry hentry).1, (hpart.written entry hentry).2]
    rfl

theorem control_notMem {line : Text} (h : isPrintable line = true) {c : Char} (hc : isControl c = true) : c ∉ line := by
  intro hmem
  have hnone : ∀ d ∈ line, isControl d = false := by simpa [isPrintable] using h
  rw [hnone c hmem] at hc
  cases hc

/-- A writer that leaves a blank line between the sections. -/
theorem verbatim_spacedText : VerbatimWriter spacedText := by
  intro parts hprintable
  have hline : ∀ line ∈ spacedLines parts, '\n' ∉ line ∧ '\r' ∉ line := by
    intro line hline
    rcases mem_spacedLines hline with rfl | ⟨part, hpart, hline⟩
    · exact ⟨List.not_mem_nil, List.not_mem_nil⟩
    · have hprinted := printable_line (hprintable part hpart) hline
      exact ⟨control_notMem hprinted (by decide), control_notMem hprinted (by decide)⟩
  have hkept : ∀ line ∈ spacedLines parts, Text.dropReturn line = line :=
    fun line hmem => if_neg fun hlast => (hline line hmem).2 (List.mem_of_getLast? hlast)
  have hreturn : (spacedLines parts).map Text.dropReturn = spacedLines parts := by
    rw [List.map_congr_left hkept, List.map_id']
  have hread := @Text.lines_terminated (spacedLines parts) [] (fun line hmem => (hline line hmem).1) List.not_mem_nil
  rw [List.append_nil, if_pos rfl, List.append_nil, hreturn] at hread
  rw [spacedText, hread, spacedLines_filter]

end Writing

section RoundTrip

/-- What was asked for is read back exactly when the request is clean. -/
theorem nspawnConfigContent_readsBack_iff (hwriter : VerbatimWriter write)
    (h : nspawnConfigContent write spec waylandBinds = .ok content) :
    ReadsBack spec waylandBinds content ↔ Clean spec waylandBinds := by
  have haccepted := nspawnConfigContent_ok h
  constructor
  · intro hreads
    exact ⟨fun bind hbind => (inked_of_reads hreads bind hbind).1,
      fun bind hbind => (inked_of_reads hreads bind hbind).2, closed_of_reads hwriter haccepted hreads⟩
  · exact readsBack_of_clean hwriter haccepted

def boxName : Hostname := ⟨"box".toList, by decide⟩

/-- A machine with one path that is bound read-only. -/
def sharingSpec (path : Text) : NspawnConfigSpec where
  machine := boxName
  guestHostname := boxName
  network := some (.bridge "br0".toList)
  resolvConf := some .off
  portForwards := [⟨8080, 80, .tcp⟩]
  bindMounts := []
  x11Binds := []
  deviceBinds := []
  readonlyBinds := [path]
  privileged := false
  privateUsers := some .pick
  gpuPassthroughAll := false
  nvidiaGpu := false
  boot := true

theorem nspawnConfigContent_readsBack_sharing :
    nspawnConfigContent spacedText (sharingSpec "/srv/data".toList) [] =
        .ok (spacedText (sections (sharingSpec "/srv/data".toList) [])) ∧
      ReadsBack (sharingSpec "/srv/data".toList) [] (spacedText (sections (sharingSpec "/srv/data".toList) [])) := by
  have hink : EndsInInk "/srv/data".toList := by
    rintro c ⟨⟩
    decide
  have hdeclared : declared (sharingSpec "/srv/data".toList) [] = [⟨"/srv/data".toList, none, true, none⟩] := rfl
  refine ⟨rfl, (nspawnConfigContent_readsBack_iff verbatim_spacedText rfl).mpr ⟨?_, ?_, ?_⟩⟩
  · rw [hdeclared]
    simpa using hink
  · rw [hdeclared]
    simp
  · rintro name ⟨⟩
    decide

/-- A blank at the end of a bound path is accepted, and lost. -/
theorem blank_end_not_read :
    nspawnConfigContent spacedText (sharingSpec "/srv/data ".toList) [] =
        .ok (spacedText (sections (sharingSpec "/srv/data ".toList) [])) ∧
      ¬ ReadsBack (sharingSpec "/srv/data ".toList) [] (spacedText (sections (sharingSpec "/srv/data ".toList) [])) := by
  refine ⟨rfl, fun hreads => ?_⟩
  have hends := inked_of_reads hreads ⟨"/srv/data ".toList, none, true, none⟩ List.mem_cons_self
  exact absurd (hends.1 ' ' rfl) (by decide)

end RoundTrip

end Lasper.Nspawn
