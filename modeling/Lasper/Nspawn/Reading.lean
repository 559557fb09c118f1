import Lasper.Nspawn.Settings
import Std.Data.String.ToNat

/-! What is read back from a generated file: the settings of its sections, its ports,
and its binds with their fields. -/

namespace Lasper.Nspawn

open Lib Config Nvidia

section Reading

def readBind (setting : Text × Text) : Option NspawnBindSemantics :=
  if setting.1 = "Bind".toList then parseNspawnBindValue setting.2 false
  else if setting.1 = "BindReadOnly".toList then parseNspawnBindValue setting.2 true
  else none

def readBinds (content : Text) : List NspawnBindSemantics :=
  (settingsIn (headerLine "Files".toList) content).filterMap readBind

def TransportProtocol.parse (text : Text) : Option TransportProtocol :=
  if text = "tcp".toList then some .tcp else if text = "udp".toList then some .udp else none

def parsePort (value : Text) : Option NspawnPortForward := do
  let (protocol, ports) ← Text.splitOnce ':' value
  let (host, container) ← Text.splitOnce ':' ports
  return ⟨← (String.ofList host).toNat?, ← (String.ofList container).toNat?, ← TransportProtocol.parse protocol⟩

def readPort (setting : Text × Text) : Option NspawnPortForward :=
  if setting.1 = "Port".toList then parsePort setting.2 else none

def readPorts (content : Text) : List NspawnPortForward :=
  (settingsIn (headerLine "Network".toList) content).filterMap readPort

end Reading

section Declared

/-- One bind as it was asked for. Without a target, the guest sees it where the host does. -/
structure DeclaredBind where
  source : Text
  target : Option Text
  readonly : Bool
  option : Option Text

namespace DeclaredBind

def setting (bind : DeclaredBind) : Text × Text :=
  (nspawnBindKey bind.readonly, encodeNspawnBindValue bind.source bind.target bind.option)

def semantics (bind : DeclaredBind) : NspawnBindSemantics :=
  ⟨bind.source, bind.target.getD bind.source, bind.readonly, bind.option.toList⟩

end DeclaredBind

def IdmapSuffix.option : IdmapSuffix → Option Text
  | .none => Option.none
  | .noidmap => some "noidmap".toList
  | .idmap => some "idmap".toList
  | .rootidmap => some "rootidmap".toList
  | .owneridmap => some "owneridmap".toList

variable (spec : NspawnConfigSpec) (waylandBinds : List WaylandBind)

/-- The binds of a request; the directory of all DRM devices comes first, and once. -/
def declared : List DeclaredBind :=
  (if passthroughAllDrm spec then [⟨allDrmDevicesPath, none, false, none⟩] else []) ++
    (spec.deviceBinds.filter (· ≠ allDrmDevicesPath)).map (fun path => ⟨path, none, false, none⟩) ++
    spec.readonlyBinds.map (fun path => ⟨path, none, true, none⟩) ++
    spec.bindMounts.map (fun bind => ⟨bind.source, some bind.target, bind.readonly, bind.suffix.option⟩) ++
    waylandBinds.map (fun bind => ⟨bind.source, some bind.target, false, some (waylandSuffix bind.policy)⟩) ++
    spec.x11Binds.map (fun bind => ⟨bind.source, some bind.target, true, some (x11Suffix spec)⟩)

/-- The file says what was asked for, each thing in its section. -/
structure ReadsBack (content : Text) : Prop where
  exec : settingsIn (headerLine "Exec".toList) content = execSettings spec
  network : settingsIn (headerLine "Network".toList) content = spec.network.elim [] (networkSettings spec)
  ports : readPorts content = spec.portForwards
  binds : readBinds content = (declared spec waylandBinds).map DeclaredBind.semantics

/-- Nothing but a blank at its end is lost from a path. -/
def EndsInInk (path : Text) : Prop := ∀ c, path.getLast? = some c → isWhitespace c = false

/-- No path ends in a blank, and the name of the interface has no open escape at its end. -/
structure Clean : Prop where
  sources : ∀ bind ∈ declared spec waylandBinds, EndsInInk bind.source
  targets : ∀ bind ∈ declared spec waylandBinds, ∀ target ∈ bind.target, EndsInInk target
  closed : ∀ name ∈ spec.network.bind (·.interfaceName), hasContinuation name = false

end Declared

section Writer

def isPrintable (text : Text) : Bool := !text.any isControl

structure IniSection.Printable (part : IniSection) : Prop where
  named : isPrintable part.name = true
  written : ∀ entry ∈ part.entries, isPrintable entry.1 = true ∧ isPrintable entry.2 = true

/-- Headers, keys and values are put down as they are, with blank lines at most between. -/
def VerbatimWriter (write : List IniSection → Text) : Prop :=
  ∀ parts, (∀ part ∈ parts, part.Printable) →
    (Text.lines (write parts)).filter (· ≠ []) = parts.flatMap IniSection.lines

end Writer

section Ports

variable (forward : NspawnPortForward)

theorem colon_notMem_repr (n : ℕ) : ':' ∉ (Nat.repr n).toList := by
  intro hmem
  rw [Nat.toList_repr] at hmem
  exact absurd (Nat.isDigit_of_mem_toDigits (by decide) (by decide) hmem) (by decide)

/-- A port that was written is read. -/
theorem parsePort_text : parsePort forward.text = some forward := by
  have hprotocol : ':' ∉ forward.protocol.asStr := by
    cases forward.protocol <;> decide
  have hparse : TransportProtocol.parse forward.protocol.asStr = some forward.protocol := by
    cases forward.protocol <;> rfl
  have hread (n : ℕ) : (String.ofList (Nat.repr n).toList).toNat? = some n := by
    rw [String.ofList_toList, Nat.toNat?_repr]
  unfold parsePort NspawnPortForward.text
  simp only [List.append_assoc, List.cons_append, Option.bind_eq_bind, Text.splitOnce_append hprotocol,
    Text.splitOnce_append (colon_notMem_repr _), Option.bind_some, hread, hparse]
  rfl

end Ports

section Values

variable {c : Char} {value path target : Text}

/-- Neither a blank nor a control character. -/
def isSolid (value : Text) : Bool := value.all fun c => !isWhitespace c && !isControl c

theorem trim_solid (h : isSolid value = true) : Text.trim value = value := by
  simp only [isSolid, List.all_eq_true, Bool.and_eq_true, Bool.not_eq_true'] at h
  apply trim_eq_self
  · exact fun c hc => (h c (List.mem_of_mem_head? hc)).1
  · exact fun c hc => (h c (List.mem_of_getLast? hc)).1

theorem printable_of_solid (h : isSolid value = true) : isPrintable value = true := by
  simp only [isSolid, List.all_eq_true, Bool.and_eq_true, Bool.not_eq_true'] at h
  simpa [isPrintable] using fun c hc => (h c hc).2

theorem isPrintable_append (front back : Text) :
    isPrintable (front ++ back) = (isPrintable front && isPrintable back) := by
  simp [isPrintable]

theorem isPrintable_escape (path : Text) : isPrintable (escapeNspawnBindPath path) = isPrintable path := by
  induction path with
  | nil => rfl
  | cons c path ih =>
    have hcons : escapeNspawnBindPath (c :: path) =
        (if c = '\\' ∨ c = ':' then ['\\', c] else [c]) ++ escapeNspawnBindPath path := rfl
    have hhead : isPrintable (c :: path) = (isPrintable [c] && isPrintable path) := isPrintable_append [c] path
    rw [hcons, isPrintable_append, ih, hhead]
    split_ifs
    · rfl
    · rfl

/-- The suffixes of binds. -/
def isOption (option : Text) : Bool := option ≠ [] && option.all Char.isLower

theorem lower_plain (h : c.isLower = true) : isWhitespace c = false ∧ isControl c = false ∧ c ≠ '\\' ∧ c ≠ ',' ∧ c ≠ ':' := by
  have hkey : isKeyCharacter c = true := by
    unfold isKeyCharacter Char.isAlpha
    simp [h]
  have hval : c.toNat = c.val.toNat := rfl
  have hbounds : 97 ≤ c.toNat ∧ c.toNat ≤ 122 := by
    unfold Char.isLower at h
    simp only [Bool.and_eq_true, decide_eq_true_eq, ge_iff_le, UInt32.le_iff_toNat_le] at h
    exact h
  have hne : ∀ d : Char, d.toNat < 97 → c ≠ d := by
    rintro d hd rfl
    omega
  refine ⟨inked_keyCharacter hkey, ?_, ?_, hne ',' (by decide), hne ':' (by decide)⟩
  · simp [isControl]
    omega
  · exact hne '\\' (by decide)

theorem isOption_ne_nil {option : Text} (h : isOption option = true) : option ≠ [] := by
  rintro rfl
  cases h

theorem lower_of_isOption {option : Text} (h : isOption option = true) : ∀ c ∈ option, c.isLower = true := by
  simp only [isOption, Bool.and_eq_true, List.all_eq_true] at h
  exact h.2

theorem isOption_suffix (suffix : IdmapSuffix) : ∀ option ∈ suffix.option, isOption option = true := by
  cases suffix <;> simp only [IdmapSuffix.option, Option.mem_some_iff, forall_eq', false_implies,
    Option.not_mem_none, implies_true] <;> decide

theorem hasContinuation_of_last (h : ∀ c, value.getLast? = some c → c ≠ '\\') : hasContinuation value = false := by
  rcases List.eq_nil_or_concat value with rfl | ⟨front, c, rfl⟩
  · rfl
  · rw [List.concat_eq_append] at h ⊢
    exact hasContinuation_concat_ne (h c List.getLast?_concat) front

theorem EndsInInk.append_cons (h : EndsInInk path) (hc : isWhitespace c = false) (front : Text) :
    EndsInInk (front ++ c :: path) := by
  intro d hd
  rw [List.getLast?_append_of_ne_nil _ (List.cons_ne_nil c path)] at hd
  by_cases hpath : path = []
  · rw [hpath] at hd
    cases hd
    exact hc
  · rw [List.getLast?_cons_of_ne_nil hpath] at hd
    exact h d hd

theorem EndsInInk.escape (h : EndsInInk path) : EndsInInk (escapeNspawnBindPath path) := by
  intro c hc
  rw [getLast?_escape] at hc
  exact h c hc

theorem endsInInk_trim (text : Text) : EndsInInk (Text.trim text) := fun _ => getLast?_trim

/-- An absolute path that ends in ink is not trimmed. -/
theorem trim_path (habsolute : Path.isAbsolute path = true) (hink : EndsInInk path) : Text.trim path = path := by
  apply trim_eq_self
  · intro c hc
    have hslash : path.head? = some '/' := by simpa [Path.isAbsolute] using habsolute
    rw [hslash] at hc
    cases hc
    decide
  · exact hink

theorem parseNspawnBindFields_bare {text : Text} (h : ∀ c ∈ text, c ≠ '\\' ∧ c ≠ ':') :
    parseNspawnBindFields text = [text] := by
  induction text with
  | nil => rfl
  | cons c text ih =>
    have hc := h c List.mem_cons_self
    rw [parseNspawnBindFields_plain hc.1 hc.2, ih fun d hd => h d (List.mem_cons_of_mem _ hd)]
    rfl

theorem parse_three (source target option : Text) (h : isOption option = true) :
    parseNspawnBindFields (escapeNspawnBindPath source ++ ':' :: (escapeNspawnBindPath target ++ ':' :: option)) =
      [source, target, option] := by
  have hbare := parseNspawnBindFields_bare fun c hc =>
    ⟨(lower_plain (lower_of_isOption h c hc)).2.2.1, (lower_plain (lower_of_isOption h c hc)).2.2.2.2⟩
  rw [parseNspawnBindFields_escape, parseNspawnBindFields, parseNspawnBindFields_escape, parseNspawnBindFields, hbare,
    foldr_consField, foldr_consField, List.append_nil, List.append_nil]

end Values

section Binds

/-- What the validation lets through: absolute paths, and no option without a target. -/
structure DeclaredBind.Valid (bind : DeclaredBind) : Prop where
  source_absolute : Path.isAbsolute bind.source = true
  source_printable : isPrintable bind.source = true
  target_absolute : ∀ target ∈ bind.target, Path.isAbsolute target = true
  target_printable : ∀ target ∈ bind.target, isPrintable target = true
  option_named : ∀ option ∈ bind.option, isOption option = true ∧ bind.target.isSome = true

/-- The ends of the paths of a bind are not blank. -/
structure DeclaredBind.Inked (bind : DeclaredBind) : Prop where
  source : EndsInInk bind.source
  target : ∀ target ∈ bind.target, EndsInInk target

namespace DeclaredBind

variable {bind : DeclaredBind}

theorem Valid.isPrintable_value (h : bind.Valid) : isPrintable bind.setting.2 = true := by
  obtain ⟨source, target, readonly, option⟩ := bind
  have hsource : isPrintable (escapeNspawnBindPath source) = true := (isPrintable_escape source).trans h.source_printable
  show isPrintable (encodeNspawnBindValue source target option) = true
  unfold encodeNspawnBindValue
  rw [isPrintable_append, isPrintable_append, hsource, Bool.true_and, Bool.and_eq_true]
  constructor
  · cases target with
    | none => rfl
    | some target =>
      have hescape := (isPrintable_escape target).trans (h.target_printable target rfl)
      simpa [isPrintable, isControl] using hescape
  · cases option with
    | none => rfl
    | some option =>
      have hnamed := (h.option_named option rfl).1
      simp only [if_neg (isOption_ne_nil hnamed)]
      simpa [isPrintable, isControl] using fun c hc => (lower_plain (lower_of_isOption hnamed c hc)).2.1

theorem Valid.hasContinuation_value (h : bind.Valid) : hasContinuation bind.setting.2 = false := by
  obtain ⟨source, target, readonly, option⟩ := bind
  show hasContinuation (encodeNspawnBindValue source target option) = false
  cases option with
  | some option =>
    have hnamed := (h.option_named option rfl).1
    simp only [encodeNspawnBindValue, if_neg (isOption_ne_nil hnamed)]
    rw [hasContinuation_append_cons (by decide)]
    apply hasContinuation_of_last
    exact fun c hc => (lower_plain (lower_of_isOption hnamed c (List.mem_of_getLast? hc))).2.2.1
  | none =>
    unfold encodeNspawnBindValue
    rw [List.append_nil]
    cases target with
    | none => rw [List.append_nil, hasContinuation_escape]
    | some target => rw [hasContinuation_append_cons (by decide), hasContinuation_escape]

theorem Valid.endsInInk_value (h : bind.Valid) (hink : bind.Inked) : EndsInInk bind.setting.2 := by
  obtain ⟨source, target, readonly, option⟩ := bind
  show EndsInInk (encodeNspawnBindValue source target option)
  unfold encodeNspawnBindValue
  cases option with
  | some option =>
    have hnamed := (h.option_named option rfl).1
    have hlast : EndsInInk option :=
      fun c hc => (lower_plain (lower_of_isOption hnamed c (List.mem_of_getLast? hc))).1
    simp only [if_neg (isOption_ne_nil hnamed)]
    exact hlast.append_cons (by decide) _
  | none =>
    rw [List.append_nil]
    cases target with
    | none =>
      rw [List.append_nil]
      exact hink.source.escape
    | some target => exact (hink.target target rfl).escape.append_cons (by decide) _

theorem Valid.trim_value (h : bind.Valid) (hink : bind.Inked) : Text.trim bind.setting.2 = bind.setting.2 := by
  apply trim_path _ (h.endsInInk_value hink)
  obtain ⟨source, target, readonly, option⟩ := bind
  have hsource : Path.isAbsolute source = true := h.source_absolute
  cases source with
  | nil => cases hsource
  | cons c rest =>
    have hc : c = '/' := by simpa [Path.isAbsolute] using hsource
    rw [hc]
    rfl

theorem ne_nil_of_isAbsolute {path : Path} (h : Path.isAbsolute path = true) : path ≠ [] := by
  rintro rfl
  cases h

/-- A bind that was written is read. -/
theorem Valid.parse_value (h : bind.Valid) (hink : bind.Inked) (readonly : Bool) :
    parseNspawnBindValue bind.setting.2 readonly = some { bind.semantics with readonly } := by
  unfold parseNspawnBindValue
  rw [h.trim_value hink]
  obtain ⟨source, target, access, option⟩ := bind
  have hsource := trim_path h.source_absolute hink.source
  have hroot := ne_nil_of_isAbsolute h.source_absolute
  unfold setting semantics encodeNspawnBindValue
  cases target with
  | none =>
    cases option with
    | some option => exact absurd (h.option_named option rfl).2 Bool.false_ne_true
    | none => simp [parse_one, hsource, hroot]
  | some target =>
    have htarget := trim_path (h.target_absolute target rfl) (hink.target target rfl)
    have hdestination := ne_nil_of_isAbsolute (h.target_absolute target rfl)
    cases option with
    | none => simp [parse_two, hsource, hroot, htarget, hdestination, Option.filter_some]
    | some option =>
      have hnamed := (h.option_named option rfl).1
      have hlower := lower_of_isOption hnamed
      have hcomma : ',' ∉ option := fun hmem => absurd (hlower _ hmem) (by decide)
      have htrim : Text.trim option = option := by
        apply trim_eq_self
        · exact fun c hc => (lower_plain (hlower c (List.mem_of_mem_head? hc))).1
        · exact fun c hc => (lower_plain (hlower c (List.mem_of_getLast? hc))).1
      have hparse := parse_three source target option hnamed
      simp [hparse, hsource, hroot, htarget, hdestination, Option.filter_some, isOption_ne_nil hnamed,
        List.splitOn_eq_singleton hcomma, htrim]

end DeclaredBind

end Binds

end Lasper.Nspawn
