import Lasper.Nspawn.Reading
import Lasper.Lib.Checked

/-! The settings of an accepted request. Their keys are words, and but for the name of an
interface no value runs into the next line. -/

namespace Lasper.Nspawn

open Lib Config Nvidia

variable {spec : NspawnConfigSpec} {waylandBinds : List WaylandBind} {write : List IniSection → Text}
  {content : Text}

section Accepted

theorem requireThat_ok {condition : Bool} {message : String} (h : requireThat condition message = .ok ()) :
    condition = true := by
  unfold requireThat at h
  split_ifs at h with hcondition
  exact hcondition

theorem validateAbsolutePath_ok {label : String} {path : Text} (h : validateAbsolutePath label path = .ok ()) :
    Path.isAbsolute path = true ∧ isPrintable path = true := by
  obtain ⟨_, htext, habsolute⟩ := bind_ok h
  constructor
  · by_contra hrelative
    rw [if_pos hrelative] at habsolute
    cases habsolute
  · by_contra hprintable
    have hcontrol : path.any isControl = true := by simpa [isPrintable] using hprintable
    unfold validateText at htext
    rw [if_pos (Or.inr (Or.inr hcontrol))] at htext
    cases htext

theorem validatedNspawnPath_ok {label : String} {path : Path} (h : validatedNspawnPath label path = .ok ()) :
    isPrintable path = true := by
  unfold validatedNspawnPath at h
  split_ifs at h with hcontrol
  simpa [isPrintable] using hcontrol

theorem foldlM_x11 {binds : List X11BindIntent} {targets taken : List Path}
    (h : binds.foldlM validateX11Bind targets = .ok taken) : ∀ bind ∈ binds,
      validateAbsolutePath "X11 bind source" bind.source = .ok () ∧
      validateAbsolutePath "X11 bind target" bind.target = .ok () := by
  induction binds generalizing targets with
  | nil => exact nofun
  | cons bind binds ih =>
    rw [List.foldlM_cons] at h
    obtain ⟨next, hbind, hrest⟩ := bind_ok h
    intro other hother
    rcases List.mem_cons.mp hother with rfl | hother
    · obtain ⟨_, hsource, hbind⟩ := bind_ok hbind
      obtain ⟨_, htarget, _⟩ := bind_ok hbind
      exact ⟨hsource, htarget⟩
    · exact ih hrest other hother

/-- What the settings of an accepted request rest on. -/
structure Accepted (spec : NspawnConfigSpec) : Prop where
  ports : spec.network.any (·.supportsPortForwarding) || spec.portForwards.isEmpty
  interface : ∀ name ∈ spec.network.bind (·.interfaceName), validateNetworkInterfaceName name = .ok ()
  mounts : ∀ bind ∈ spec.bindMounts, validateAbsolutePath "bind source" bind.source = .ok () ∧
    validateAbsolutePath "bind target" bind.target = .ok ()
  x11 : ∀ bind ∈ spec.x11Binds, validateAbsolutePath "X11 bind source" bind.source = .ok () ∧
    validateAbsolutePath "X11 bind target" bind.target = .ok ()
  devices : ∀ path ∈ spec.deviceBinds, validateAbsolutePath "device bind" path = .ok ()
  readonlys : ∀ path ∈ spec.readonlyBinds, validateAbsolutePath "read-only bind" path = .ok ()

theorem validate_ok (h : spec.validate = .ok ()) : Accepted spec := by
  unfold NspawnConfigSpec.validate at h
  obtain ⟨_, _, h⟩ := bind_ok h
  obtain ⟨_, _, h⟩ := bind_ok h
  obtain ⟨_, _, h⟩ := bind_ok h
  obtain ⟨_, hports, h⟩ := bind_ok h
  obtain ⟨_, _, h⟩ := bind_ok h
  obtain ⟨_, _, h⟩ := bind_ok h
  obtain ⟨_, hinterface, h⟩ := bind_ok h
  obtain ⟨_, hmounts, h⟩ := bind_ok h
  obtain ⟨_, hx11, h⟩ := bind_ok h
  obtain ⟨_, _, h⟩ := bind_ok h
  obtain ⟨_, hdevices, hreadonlys⟩ := bind_ok h
  constructor
  · exact requireThat_ok hports
  · intro name hname
    rw [Option.mem_def] at hname
    rw [hname] at hinterface
    exact hinterface
  · intro bind hbind
    obtain ⟨_, hsource, htarget⟩ := bind_ok (forM_ok hmounts bind hbind)
    exact ⟨hsource, htarget⟩
  · exact foldlM_x11 hx11
  · exact forM_ok hdevices
  · exact forM_ok hreadonlys

structure AcceptedContent (spec : NspawnConfigSpec) (waylandBinds : List WaylandBind)
    (write : List IniSection → Text) (content : Text) : Prop where
  accepted : Accepted spec
  sockets : ∀ bind ∈ waylandBinds, isPrintable bind.source = true ∧ isPrintable bind.target = true
  written : content = write (sections spec waylandBinds)

theorem nspawnConfigContent_ok (h : nspawnConfigContent write spec waylandBinds = .ok content) :
    AcceptedContent spec waylandBinds write content := by
  unfold nspawnConfigContent at h
  obtain ⟨_, hvalid, h⟩ := bind_ok h
  obtain ⟨_, _, h⟩ := bind_ok h
  obtain ⟨_, hwayland, h⟩ := bind_ok h
  obtain ⟨_, _, h⟩ := bind_ok h
  constructor
  · exact validate_ok hvalid
  · intro bind hbind
    obtain ⟨_, hsource, htarget⟩ := bind_ok (forM_ok hwayland bind hbind)
    exact ⟨validatedNspawnPath_ok hsource, validatedNspawnPath_ok htarget⟩
  · exact (Except.ok.inj h).symm

theorem declared_valid (h : AcceptedContent spec waylandBinds write content) :
    ∀ bind ∈ declared spec waylandBinds, bind.Valid := by
  have hplain : ∀ (path : Text) (readonly : Bool), Path.isAbsolute path = true ∧ isPrintable path = true →
      DeclaredBind.Valid ⟨path, none, readonly, none⟩ := by
    intro path readonly hpath
    exact ⟨hpath.1, hpath.2, nofun, nofun, nofun⟩
  have hmount : ∀ (source target : Text) (readonly : Bool) (option : Option Text),
      Path.isAbsolute source = true ∧ isPrintable source = true →
      Path.isAbsolute target = true ∧ isPrintable target = true → (∀ o ∈ option, isOption o = true) →
      DeclaredBind.Valid ⟨source, some target, readonly, option⟩ := by
    intro source target readonly option hsource htarget hoption
    refine ⟨hsource.1, hsource.2, ?_, ?_, fun o ho => ⟨hoption o ho, rfl⟩⟩
    · rintro _ ⟨⟩
      exact htarget.1
    · rintro _ ⟨⟩
      exact htarget.2
  intro bind hbind
  simp only [declared, List.mem_append, List.mem_map] at hbind
  rcases hbind with ((((hbind | ⟨path, hpath, rfl⟩) | ⟨path, hpath, rfl⟩) | ⟨mount, hmem, rfl⟩) |
    ⟨socket, hmem, rfl⟩) | ⟨display, hmem, rfl⟩
  · split_ifs at hbind
    · rw [List.mem_singleton.mp hbind]
      exact hplain _ _ (by decide)
    · cases hbind
  · exact hplain _ _ (validateAbsolutePath_ok (h.accepted.devices path (List.mem_filter.mp hpath).1))
  · exact hplain _ _ (validateAbsolutePath_ok (h.accepted.readonlys path hpath))
  · have hpaths := h.accepted.mounts mount hmem
    exact hmount _ _ _ _ (validateAbsolutePath_ok hpaths.1) (validateAbsolutePath_ok hpaths.2)
      (isOption_suffix mount.suffix)
  · have hpaths := h.sockets socket hmem
    apply hmount _ _ _ _ ⟨socket.absolute, hpaths.1⟩ ⟨rfl, hpaths.2⟩
    rintro _ ⟨⟩
    cases socket.policy <;> decide
  · have hpaths := h.accepted.x11 display hmem
    apply hmount _ _ _ _ (validateAbsolutePath_ok hpaths.1) (validateAbsolutePath_ok hpaths.2)
    rintro _ ⟨⟩
    unfold x11Suffix
    split_ifs <;> decide

end Accepted

section Entries

theorem bindMountSetting_eq (bind : BindMount) : bindMountSetting bind =
    DeclaredBind.setting ⟨bind.source, some bind.target, bind.readonly, bind.suffix.option⟩ := by
  unfold bindMountSetting DeclaredBind.setting encodeNspawnBindValue
  cases bind.suffix <;> rfl

theorem setting_plain (path : Text) (readonly : Bool) :
    DeclaredBind.setting ⟨path, none, readonly, none⟩ = (nspawnBindKey readonly, escapeNspawnBindPath path) := by
  unfold DeclaredBind.setting encodeNspawnBindValue
  simp

/-- The settings of the files are the declared binds. -/
theorem fileSettings_eq : fileSettings spec waylandBinds =
    (if spec.nvidiaGpu then [("X-Lasper-Nvidia-Enabled".toList, "true".toList)] else []) ++
      (declared spec waylandBinds).map DeclaredBind.setting := by
  have hdrm : (if passthroughAllDrm spec then [("Bind".toList, allDrmDevicesPath)] else []) =
      (if passthroughAllDrm spec then [(⟨allDrmDevicesPath, none, false, none⟩ : DeclaredBind)] else []).map
        DeclaredBind.setting := by
    split_ifs <;> rfl
  unfold fileSettings declared
  simp only [List.map_append, List.map_map, hdrm, List.append_assoc]
  congr 4
  · funext path
    exact (setting_plain path false).symm
  congr 2
  · funext path
    exact (setting_plain path true).symm
  congr 2
  funext bind
  exact bindMountSetting_eq bind

/-- The keys that name an interface of the host. -/
def interfaceKeys : List Text := ["Bridge", "MACVLAN", "IPVLAN", "Interface"].map String.toList

def NetworkMode.interfaceEntry : NetworkMode → Option (Text × Text)
  | .bridge name => some ("Bridge".toList, name)
  | .macVlan name => some ("MACVLAN".toList, name)
  | .ipVlan name => some ("IPVLAN".toList, name)
  | .interface name => some ("Interface".toList, name)
  | _ => Option.none

/-- A setting that names no interface, and whose value ends on its line. -/
structure Ordinary (entry : Text × Text) : Prop where
  key : isPlainKey entry.1 = true
  other : entry.1 ∉ interfaceKeys
  printable : isPrintable entry.2 = true
  closed : hasContinuation entry.2 = false

/-- A setting whose value is a word. -/
structure Word (entry : Text × Text) : Prop where
  key : isPlainKey entry.1 = true
  other : entry.1 ∉ interfaceKeys
  solid : isSolid entry.2 = true
  closed : hasContinuation entry.2 = false

theorem Word.ordinary {entry : Text × Text} (h : Word entry) : Ordinary entry :=
  ⟨h.key, h.other, printable_of_solid h.solid, h.closed⟩

variable {c : Char} {mode : NetworkMode} {key name : Text}

theorem graphic_plain (hlow : 33 ≤ c.toNat) (hhigh : c.toNat ≤ 126) :
    isWhitespace c = false ∧ isControl c = false := by
  constructor
  · simp [isWhitespace]
    omega
  · simp [isControl]
    omega

theorem mem_splitOn {d : Char} {text : Text} (h : c ∈ text) : c = d ∨ ∃ piece ∈ text.splitOn d, c ∈ piece := by
  induction text with
  | nil => cases h
  | cons e text ih =>
    rw [List.splitOn_cons_eq_if_modifyHead]
    by_cases he : e = d
    · rw [if_pos (beq_iff_eq.mpr he)]
      rcases List.mem_cons.mp h with rfl | h
      · exact .inl he
      · exact (ih h).imp_right fun ⟨piece, hpiece, hc⟩ => ⟨piece, List.mem_cons_of_mem _ hpiece, hc⟩
    · rw [if_neg fun heq => he (beq_iff_eq.mp heq)]
      cases hsplit : text.splitOn d with
      | nil => exact absurd hsplit (List.splitOn_ne_nil _ _)
      | cons first rest =>
        rw [List.modifyHead_cons]
        rcases List.mem_cons.mp h with rfl | h
        · exact .inr ⟨c :: first, List.mem_cons_self, List.mem_cons_self⟩
        · rcases ih h with rfl | ⟨piece, hpiece, hc⟩
          · exact .inl rfl
          · rw [hsplit] at hpiece
            rcases List.mem_cons.mp hpiece with rfl | hpiece
            · exact .inr ⟨e :: piece, List.mem_cons_self, List.mem_cons_of_mem _ hc⟩
            · exact .inr ⟨piece, List.mem_cons_of_mem _ hpiece, hc⟩

theorem graphic_of_between {low high : Char} (hlow : low.val ≤ c.val) (hhigh : c.val ≤ high.val)
    (hfirst : 33 ≤ low.toNat) (hlast : high.toNat ≤ 126) : 33 ≤ c.toNat ∧ c.toNat ≤ 126 :=
  ⟨Nat.le_trans hfirst (UInt32.le_iff_toNat_le.mp hlow), Nat.le_trans (UInt32.le_iff_toNat_le.mp hhigh) hlast⟩

theorem graphic_of_alphanum (h : c.isAlphanum = true) : 33 ≤ c.toNat ∧ c.toNat ≤ 126 := by
  rcases (Bool.or_eq_true _ _).mp h with halpha | hdigit
  · rcases (Bool.or_eq_true _ _).mp halpha with hupper | hlower
    · obtain ⟨hlow, hhigh⟩ : 'A'.val ≤ c.val ∧ c.val ≤ 'Z'.val := of_decide_eq_true hupper
      exact graphic_of_between hlow hhigh (by decide) (by decide)
    · obtain ⟨hlow, hhigh⟩ := (Bool.and_eq_true _ _).mp hlower
      exact graphic_of_between (of_decide_eq_true hlow) (of_decide_eq_true hhigh) (by decide) (by decide)
  · obtain ⟨hlow, hhigh⟩ := (Bool.and_eq_true _ _).mp hdigit
    exact graphic_of_between (of_decide_eq_true hlow) (of_decide_eq_true hhigh) (by decide) (by decide)

theorem hostname_character (host : Hostname) (h : c ∈ host.value) :
    33 ≤ c.toNat ∧ c.toNat ≤ 126 ∧ c ≠ '\\' := by
  have hlabels : (host.value.splitOn '.').all Provisioning.isHostnameLabel = true := by
    have hvalid := host.valid
    simp only [Provisioning.isValidNspawnHostname, String.toList_ofList] at hvalid
    exact (Bool.and_eq_true_iff.mp hvalid).2
  rcases mem_splitOn (d := '.') h with rfl | ⟨label, hlabel, hc⟩
  · decide
  · have hletter : (c.isAlphanum || c = '-') = true := by
      have hvalid := List.all_eq_true.mp hlabels label hlabel
      unfold Provisioning.isHostnameLabel at hvalid
      exact List.all_eq_true.mp (Bool.and_eq_true_iff.mp hvalid).2 c hc
    have hbackslash : c ≠ '\\' := by
      rintro rfl
      exact absurd hletter (by decide)
    rcases (Bool.or_eq_true _ _).mp hletter with hletter | hdash
    · exact ⟨(graphic_of_alphanum hletter).1, (graphic_of_alphanum hletter).2, hbackslash⟩
    · rw [of_decide_eq_true hdash]
      decide

theorem isSolid_of_graphic {value : Text} (h : ∀ c ∈ value, 33 ≤ c.toNat ∧ c.toNat ≤ 126) : isSolid value = true := by
  simp only [isSolid, List.all_eq_true, Bool.and_eq_true, Bool.not_eq_true']
  exact fun c hc => graphic_plain (h c hc).1 (h c hc).2

theorem interface_solid (h : validateNetworkInterfaceName name = .ok ()) : isSolid name = true := by
  unfold validateNetworkInterfaceName at h
  split_ifs at h with hvalid
  apply isSolid_of_graphic
  intro c hc
  have hletter := List.all_eq_true.mp hvalid.2.2.2.2 c hc
  unfold isInterfaceCharacter at hletter
  simp at hletter
  omega

theorem graphic_of_all {value : Text}
    (h : value.all (fun c => decide (33 ≤ c.toNat) && decide (c.toNat ≤ 126) && c != '\\') = true) :
    ∀ c ∈ value, 33 ≤ c.toNat ∧ c.toNat ≤ 126 ∧ c ≠ '\\' := by
  intro c hc
  simpa [and_assoc] using List.all_eq_true.mp h c hc

theorem port_character {forward : NspawnPortForward} (h : c ∈ forward.text) :
    33 ≤ c.toNat ∧ c.toNat ≤ 126 ∧ c ≠ '\\' := by
  have hdigit : ∀ {n : ℕ}, c ∈ (Nat.repr n).toList → 33 ≤ c.toNat ∧ c.toNat ≤ 126 ∧ c ≠ '\\' := by
    intro n hmem
    rw [Nat.toList_repr] at hmem
    have hd : c.isDigit = true := Nat.isDigit_of_mem_toDigits (by decide) (by decide) hmem
    have hslash : c ≠ '\\' := by
      rintro rfl
      exact absurd hd (by decide)
    have hbounds : 48 ≤ c.toNat ∧ c.toNat ≤ 57 := by
      simp only [Char.isDigit, Bool.and_eq_true, decide_eq_true_eq, ge_iff_le, UInt32.le_iff_toNat_le] at hd
      exact hd
    exact ⟨by omega, by omega, hslash⟩
  have hprotocol : ∀ d ∈ forward.protocol.asStr, 33 ≤ d.toNat ∧ d.toNat ≤ 126 ∧ d ≠ '\\' := by
    cases forward.protocol <;> exact graphic_of_all (by decide)
  simp only [NspawnPortForward.text, List.mem_append, List.mem_cons] at h
  rcases h with (h | rfl | h) | rfl | h
  · exact hprotocol c h
  · decide
  · exact hdigit h
  · decide
  · exact hdigit h

theorem word_of_graphic {value : Text} (hkey : isPlainKey key = true) (hother : key ∉ interfaceKeys)
    (h : ∀ c ∈ value, 33 ≤ c.toNat ∧ c.toNat ≤ 126 ∧ c ≠ '\\') : Word (key, value) where
  key := hkey
  other := hother
  solid := isSolid_of_graphic fun c hc => ⟨(h c hc).1, (h c hc).2.1⟩
  closed := hasContinuation_of_last fun c hc => (h c (List.mem_of_getLast? hc)).2.2

theorem exec_word : ∀ entry ∈ execSettings spec, Word entry := by
  intro entry hentry
  simp only [execSettings, List.mem_append, Option.mem_toList, Option.map_eq_some_iff] at hentry
  rcases hentry with (((hboot | ⟨mode, -, rfl⟩) | ⟨mode, -, rfl⟩) | hcapability) | hhost
  · rw [List.mem_singleton.mp hboot]
    apply word_of_graphic (by decide) (by decide)
    split_ifs <;> exact graphic_of_all (by decide)
  · apply word_of_graphic (by decide) (by decide)
    cases mode <;> exact graphic_of_all (by decide)
  · apply word_of_graphic (by decide) (by decide)
    cases mode <;> exact graphic_of_all (by decide)
  · split_ifs at hcapability
    · rw [List.mem_singleton.mp hcapability]
      exact word_of_graphic (by decide) (by decide) (graphic_of_all (by decide))
    · cases hcapability
  · split_ifs at hhost
    · rw [List.mem_singleton.mp hhost]
      exact word_of_graphic (by decide) (by decide) fun c hc => hostname_character spec.guestHostname hc
    · cases hhost

theorem port_word : ∀ entry ∈ portSettings spec, Word entry := by
  intro entry hentry
  obtain ⟨forward, -, rfl⟩ := List.mem_map.mp hentry
  exact word_of_graphic (by decide) (by decide) fun c hc => port_character hc

/-- Besides the interface the section of the network has words only. -/
theorem networkSettings_split (spec : NspawnConfigSpec) (mode : NetworkMode) : ∃ front back,
    networkSettings spec mode = front ++ (mode.interfaceEntry.toList ++ back) ∧
      ∀ entry ∈ front ++ back, Word entry := by
  have hno : Word ("VirtualEthernet".toList, "no".toList) := word_of_graphic (by decide) (by decide) (graphic_of_all (by decide))
  have hyes : Word ("VirtualEthernet".toList, "yes".toList) := word_of_graphic (by decide) (by decide) (graphic_of_all (by decide))
  have hprivate : Word ("Private".toList, "yes".toList) := word_of_graphic (by decide) (by decide) (graphic_of_all (by decide))
  have hlone : ∀ entry ∈ [("Private".toList, "yes".toList), ("VirtualEthernet".toList, "no".toList)] ++ [],
      Word entry := by
    simp only [List.append_nil, List.forall_mem_cons]
    exact ⟨hprivate, hno, nofun⟩
  have hports : ∀ entry ∈ [("VirtualEthernet".toList, "yes".toList)] ++ portSettings spec, Word entry := by
    rw [List.singleton_append, List.forall_mem_cons]
    exact ⟨hyes, port_word⟩
  cases mode with
  | host => exact ⟨[("VirtualEthernet".toList, "no".toList)], [], rfl, by simpa using hno⟩
  | none => exact ⟨[("Private".toList, "yes".toList)], [], rfl, by simpa using hprivate⟩
  | veth => exact ⟨[("VirtualEthernet".toList, "yes".toList)], portSettings spec, rfl, hports⟩
  | bridge name => exact ⟨[("VirtualEthernet".toList, "yes".toList)], portSettings spec, rfl, hports⟩
  | macVlan name =>
    exact ⟨[("Private".toList, "yes".toList), ("VirtualEthernet".toList, "no".toList)], [], rfl, hlone⟩
  | ipVlan name =>
    exact ⟨[("Private".toList, "yes".toList), ("VirtualEthernet".toList, "no".toList)], [], rfl, hlone⟩
  | interface name =>
    exact ⟨[("Private".toList, "yes".toList), ("VirtualEthernet".toList, "no".toList)], [], rfl, hlone⟩

theorem interfaceEntry_some {entry : Text × Text} (h : mode.interfaceEntry = some entry) :
    mode.interfaceName = some entry.2 ∧ isPlainKey entry.1 = true ∧ entry.1 ∈ interfaceKeys := by
  have hplain : ∀ key ∈ interfaceKeys, isPlainKey key = true := by decide
  have hkey : mode.interfaceName = some entry.2 ∧ entry.1 ∈ interfaceKeys := by
    cases mode <;> cases h <;> exact ⟨rfl, by simp [interfaceKeys]⟩
  exact ⟨hkey.1, hplain _ hkey.2, hkey.2⟩

theorem exists_interfaceEntry (h : mode.interfaceName = some name) : ∃ key, mode.interfaceEntry = some (key, name) := by
  cases mode <;> cases h <;> exact ⟨_, rfl⟩

theorem file_ordinary (h : AcceptedContent spec waylandBinds write content) :
    ∀ entry ∈ fileSettings spec waylandBinds, Ordinary entry := by
  intro entry hentry
  rw [fileSettings_eq] at hentry
  rcases List.mem_append.mp hentry with hgpu | hbind
  · split_ifs at hgpu
    · rw [List.mem_singleton.mp hgpu]
      exact (word_of_graphic (by decide) (by decide) (graphic_of_all (by decide))).ordinary
    · cases hgpu
  · obtain ⟨bind, hmem, rfl⟩ := List.mem_map.mp hbind
    have hvalid := declared_valid h bind hmem
    have hkey : ∀ readonly, isPlainKey (nspawnBindKey readonly) = true ∧ nspawnBindKey readonly ∉ interfaceKeys := by
      decide
    exact ⟨(hkey _).1, (hkey _).2, hvalid.isPrintable_value, hvalid.hasContinuation_value⟩

end Entries

end Lasper.Nspawn
