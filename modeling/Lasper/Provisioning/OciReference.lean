import Mathlib.Data.List.Chain
import Lasper.Lib.Text

/-! The references that `importctl pull-oci` takes. The validator cuts a string from both ends: the
tag at its last colon, the registry at its first slash, and the port at the registry's first colon. -/

namespace Lasper.Provisioning

open Lib

section Validator

/-- The last occurrence of a character; positions count characters. -/
def rfind (c : Char) (text : Text) : Option ℕ :=
  (text.reverse.findIdx? (· = c)).map fun fromEnd => text.length - 1 - fromEnd

/-- Whether one text stands somewhere in the other. -/
def contains (needle : Text) : Text → Bool
  | [] => needle.isEmpty
  | c :: rest => needle.isPrefixOf (c :: rest) || contains needle rest

/-- A colon behind the last slash introduces a tag; one before it belongs to the port. -/
def tagSeparator (reference : Text) : Option ℕ :=
  match rfind ':' reference, rfind '/' reference with
  | some colon, some slash => if slash < colon then some colon else none
  | some colon, none => some colon
  | none, _ => none

def cutTag (reference : Text) : Text × Option Text :=
  match tagSeparator reference with
  | some colon => (reference.take colon, some (reference.drop (colon + 1)))
  | none => (reference, none)

def cutRegistry (withoutTag : Text) : Option Text × Text :=
  match Text.splitOnce '/' withoutTag with
  | some (registry, image) => (some registry, image)
  | none => (none, withoutTag)

def cutPort (registry : Text) : Text × Option Text :=
  match Text.splitOnce ':' registry with
  | some (host, port) => (host, some port)
  | none => (registry, none)

def isTagChar (c : Char) : Bool := c.isAlphanum || c = '.' || c = '_' || c = '-'

def validateTag (tag : Text) : Except String Unit :=
  if tag = [] ∨ 128 < Text.byteLen tag then .error "tag must contain 1-128 characters"
  else if tag.head?.all (fun c => c.isAlphanum || c = '_') && tag.tail.all isTagChar then .ok ()
  else .error "tag is not valid according to the OCI distribution grammar"

def isLabelChar (c : Char) : Bool := c.isAlphanum || c = '-' || c = '_'

/-- `str::parse::<u16>` of decimal digits. -/
def parsePort (port : Text) : Option ℕ :=
  let value := port.foldl (fun value c => value * 10 + (c.toNat - 48)) 0
  if value < 65536 then some value else none

def stripTrailingDot (host : Text) : Text := if host.getLast? = some '.' then host.dropLast else host

def validateRegistry (registry : Text) : Except String Unit :=
  let (host, port) := cutPort registry
  if host = [] ∨ 253 < Text.byteLen host ∨ host.head? = some '.' then .error "registry name is invalid"
  else if stripTrailingDot host = [] || ((stripTrailingDot host).splitOn '.').any fun label =>
      label = [] || 63 < Text.byteLen label || !label.all isLabelChar then
    .error "registry name is invalid"
  else match port with
    | none => .ok ()
    | some port =>
      if port = [] || !port.all Char.isDigit then .error "registry name is invalid"
      else match parsePort port with
        | some number => if number ≠ 0 then .ok () else .error "registry name is invalid"
        | none => .error "registry name is invalid"

def isImageStart (c : Char) : Bool := c.isLower || c.isDigit || c = '_' || c = '-' || c = '+'

def isImageChar (c : Char) : Bool := isImageStart c || c = '.'

def validateComponent : Text → Except String Unit
  | [] => .error "image path components cannot be empty"
  | first :: rest =>
    if isImageStart first && rest.all isImageChar then .ok ()
    else .error "image names must use systemd's lowercase OCI grammar"

def validateImage (image : Text) : Except String Unit :=
  if image = [] then .error "image name is empty" else (image.splitOn '/').forM validateComponent

def validateOciReference (reference : Text) : Except String Unit := do
  if reference = [] ∨ 512 < Text.byteLen reference then .error "expected 1-512 characters"
  else if Text.trim reference ≠ reference || reference.any isControl then
    .error "whitespace and control characters are not allowed"
  else if reference.head? = some '-' || contains "://".toList reference || '@' ∈ reference then
    .error "expected a registry image reference, not a transport URL or digest"
  else do
    let (withoutTag, tag) := cutTag reference
    tag.forM validateTag
    let (registry, image) := cutRegistry withoutTag
    registry.forM validateRegistry
    validateImage image

/-- A text that has passed the validator. -/
structure OciReference where
  text : Text
  valid : validateOciReference text = .ok ()

structure OciReferenceError where
  reference : Text
  reason : String
  deriving DecidableEq

def OciReference.new (reference : Text) : Except OciReferenceError OciReference :=
  match h : validateOciReference reference with
  | .ok () => .ok ⟨reference, h⟩
  | .error reason => .error ⟨reference, reason⟩

end Validator

section Grammar

structure ValidHost (host : Text) : Prop where
  short : Text.byteLen host ≤ 253
  labels : ∃ labels : List Text, labels ≠ [] ∧
    (∀ label ∈ labels, label ≠ [] ∧ Text.byteLen label ≤ 63 ∧ ∀ c ∈ label, isLabelChar c = true) ∧
    (host = ['.'].intercalate labels ∨ host = ['.'].intercalate labels ++ ['.'])

/-- A port is written in digits; its value says which it is. -/
structure ValidPort (port : Text) : Prop where
  nonempty : port ≠ []
  digits : ∀ c ∈ port, c.isDigit = true
  value : 1 ≤ port.foldl (fun value c => value * 10 + (c.toNat - 48)) 0 ∧
    port.foldl (fun value c => value * 10 + (c.toNat - 48)) 0 ≤ 65535

def ValidComponent (component : Text) : Prop :=
  ∃ first rest, component = first :: rest ∧ isImageStart first = true ∧ ∀ c ∈ rest, isImageChar c = true

structure ValidTag (tag : Text) : Prop where
  short : Text.byteLen tag ≤ 128
  chars : ∃ first rest, tag = first :: rest ∧ (first.isAlphanum = true ∨ first = '_') ∧
    ∀ c ∈ rest, isTagChar c = true

/-- A reference in its parts: `component[:tag]`, or `host[:port]/component(/component)*[:tag]`. -/
structure Decomposition where
  registry : Option (Text × Option Text)
  components : List Text
  tag : Option Text
  deriving DecidableEq

namespace Decomposition

def suffix (c : Char) : Option Text → Text
  | none => []
  | some text => c :: text

def registryText (d : Decomposition) : Text :=
  match d.registry with
  | none => []
  | some (host, port) => host ++ suffix ':' port ++ ['/']

def render (d : Decomposition) : Text :=
  d.registryText ++ ['/'].intercalate d.components ++ suffix ':' d.tag

structure Valid (d : Decomposition) : Prop where
  nonempty : d.components ≠ []
  single : d.registry = none → d.components.length = 1
  host : ∀ host port, d.registry = some (host, port) → ValidHost host
  port : ∀ host port, d.registry = some (host, some port) → ValidPort port
  component : ∀ component ∈ d.components, ValidComponent component
  tag : ∀ tag, d.tag = some tag → ValidTag tag

end Decomposition

/-- The parts that the validator cuts a reference into. -/
def found (reference : Text) : Decomposition :=
  ⟨(cutRegistry (cutTag reference).1).1.map cutPort, (cutRegistry (cutTag reference).1).2.splitOn '/',
    (cutTag reference).2⟩

end Grammar

section Characters

variable {c : Char}

theorem alphanum_bounds (h : c.isAlphanum = true) :
    48 ≤ c.toNat ∧ c.toNat ≤ 122 ∧ c.toNat ≠ 64 ∧ c.toNat ≠ 58 := by
  unfold Char.isAlphanum Char.isAlpha Char.isUpper Char.isLower Char.isDigit at h
  simp only [Bool.or_eq_true, Bool.and_eq_true, decide_eq_true_eq, ge_iff_le, UInt32.le_iff_toNat_le] at h
  have hval : c.val.toNat = c.toNat := rfl
  rw [hval] at h
  have hranges : (65 ≤ c.toNat ∧ c.toNat ≤ 90) ∨ (97 ≤ c.toNat ∧ c.toNat ≤ 122) ∨
      (48 ≤ c.toNat ∧ c.toNat ≤ 57) := by
    rcases h with (h | h) | h
    · exact .inl h
    · exact .inr (.inl h)
    · exact .inr (.inr h)
  omega

/-- The characters of a name: no delimiter of the grammar but the dot, no space and nothing to control. -/
def isNameChar (c : Char) : Bool := c.isAlphanum || c = '.' || c = '_' || c = '-' || c = '+'

theorem nameChar_bounds (h : isNameChar c = true) :
    43 ≤ c.toNat ∧ c.toNat ≤ 122 ∧ c.toNat ≠ 47 ∧ c.toNat ≠ 58 ∧ c.toNat ≠ 64 := by
  simp only [isNameChar, Bool.or_eq_true, decide_eq_true_eq] at h
  rcases h with (((h | rfl) | rfl) | rfl) | rfl
  · have := alphanum_bounds h
    omega
  all_goals decide

theorem nameChar_plain (h : isNameChar c = true) :
    c ≠ ':' ∧ c ≠ '/' ∧ c ≠ '@' ∧ isWhitespace c = false ∧ isControl c = false := by
  have hbounds := nameChar_bounds h
  have hne : ∀ {d : Char}, d.toNat = 47 ∨ d.toNat = 58 ∨ d.toNat = 64 → c ≠ d := by
    rintro d hd rfl
    omega
  refine ⟨hne (by decide), hne (by decide), hne (by decide), ?_, ?_⟩
  · simp [isWhitespace]
    omega
  · simp [isControl]
    omega

theorem isLabelChar_name (h : isLabelChar c = true) : isNameChar c = true ∧ c ≠ '.' := by
  constructor
  · simp only [isLabelChar, isNameChar, Bool.or_eq_true] at h ⊢
    tauto
  · rintro rfl
    exact absurd h (by decide)

theorem isTagChar_name (h : isTagChar c = true) : isNameChar c = true := by
  simp only [isTagChar, isNameChar, Bool.or_eq_true] at h ⊢
  tauto

theorem isDigit_name (h : c.isDigit = true) : isNameChar c = true := by
  unfold isNameChar Char.isAlphanum
  simp [h]

theorem isImageChar_name (h : isImageChar c = true) : isNameChar c = true := by
  unfold isNameChar Char.isAlphanum Char.isAlpha
  simp only [isImageChar, isImageStart, Bool.or_eq_true] at h ⊢
  tauto

end Characters

section Parts

variable {text host port component tag : Text}

theorem ValidTag.names (h : ValidTag tag) : ∀ c ∈ tag, isNameChar c = true := by
  obtain ⟨first, rest, rfl, hfirst, hrest⟩ := h.chars
  intro c hc
  rcases List.mem_cons.mp hc with rfl | hc
  · rcases hfirst with hfirst | rfl
    · simp [isNameChar, hfirst]
    · decide
  · exact isTagChar_name (hrest c hc)

theorem ValidComponent.names (h : ValidComponent component) : ∀ c ∈ component, isNameChar c = true := by
  obtain ⟨first, rest, rfl, hfirst, hrest⟩ := h
  intro c hc
  rcases List.mem_cons.mp hc with rfl | hc
  · exact isImageChar_name (by simp [isImageChar, hfirst])
  · exact isImageChar_name (hrest c hc)

theorem ValidPort.names (h : ValidPort port) : ∀ c ∈ port, isNameChar c = true := fun c hc =>
  isDigit_name (h.digits c hc)

theorem mem_intercalate {c d : Char} {parts : List Text} (h : c ∈ [d].intercalate parts) :
    c = d ∨ ∃ part ∈ parts, c ∈ part := by
  induction parts with
  | nil => cases h
  | cons part parts ih =>
    cases parts with
    | nil =>
      rw [List.intercalate_singleton] at h
      exact .inr ⟨part, List.mem_cons_self, h⟩
    | cons next parts =>
      rw [List.intercalate_cons_cons, List.mem_append, List.mem_append, List.mem_singleton] at h
      rcases h with (h | h) | h
      · exact .inr ⟨part, List.mem_cons_self, h⟩
      · exact .inl h
      · rcases ih h with h | ⟨other, hother, h⟩
        · exact .inl h
        · exact .inr ⟨other, List.mem_cons_of_mem _ hother, h⟩

theorem ValidHost.names (h : ValidHost host) : ∀ c ∈ host, isNameChar c = true := by
  obtain ⟨labels, -, hlabels, hhost⟩ := h.labels
  have hdot : isNameChar '.' = true := by decide
  have hinter : ∀ c ∈ ['.'].intercalate labels, isNameChar c = true := by
    intro c hc
    rcases mem_intercalate hc with rfl | ⟨label, hlabel, hc⟩
    · exact hdot
    · exact (isLabelChar_name ((hlabels label hlabel).2.2 c hc)).1
  intro c hc
  rcases hhost with rfl | rfl
  · exact hinter c hc
  · rcases List.mem_append.mp hc with hc | hc
    · exact hinter c hc
    · rwa [List.mem_singleton.mp hc]

theorem validateTag_iff : validateTag tag = .ok () ↔ ValidTag tag := by
  unfold validateTag
  cases tag with
  | nil => exact ⟨fun h => by simp at h, fun h => by obtain ⟨_, _, h, -⟩ := h.chars; cases h⟩
  | cons first rest =>
    have hchars : (((first :: rest).head?.all fun c => c.isAlphanum || c = '_') &&
        (first :: rest).tail.all isTagChar) = true ↔
        (first.isAlphanum = true ∨ first = '_') ∧ ∀ c ∈ rest, isTagChar c = true := by
      simp
    by_cases hshort : Text.byteLen (first :: rest) ≤ 128
    · rw [if_neg (by simpa using hshort)]
      constructor
      · intro h
        split_ifs at h with hvalid
        exact ⟨hshort, first, rest, rfl, (hchars.mp hvalid).1, (hchars.mp hvalid).2⟩
      · rintro ⟨-, c, others, heq, hvalid⟩
        cases heq
        rw [if_pos (hchars.mpr hvalid)]
    · rw [if_pos (.inr (Nat.not_le.mp hshort))]
      constructor
      · intro h
        cases h
      · intro h
        exact absurd h.short hshort

theorem validateComponent_iff : validateComponent component = .ok () ↔ ValidComponent component := by
  cases component with
  | nil => exact ⟨fun h => by simp [validateComponent] at h, fun h => by obtain ⟨_, _, h, -⟩ := h; cases h⟩
  | cons first rest =>
    rw [validateComponent, ValidComponent]
    constructor
    · intro h
      split_ifs at h with hchars
      rw [Bool.and_eq_true, List.all_eq_true] at hchars
      exact ⟨first, rest, rfl, hchars.1, hchars.2⟩
    · rintro ⟨c, others, heq, hfirst, hrest⟩
      cases heq
      rw [if_pos]
      rw [Bool.and_eq_true, List.all_eq_true]
      exact ⟨hfirst, hrest⟩

theorem validateImage_iff : validateImage text = .ok () ↔
    ∀ component ∈ text.splitOn '/', ValidComponent component := by
  have hforM : ∀ parts : List Text, parts.forM validateComponent = .ok () ↔
      ∀ component ∈ parts, ValidComponent component := by
    intro parts
    induction parts with
    | nil => exact ⟨fun _ component hmem => absurd hmem List.not_mem_nil, fun _ => rfl⟩
    | cons part parts ih =>
      have hcons : (part :: parts).forM validateComponent =
          (validateComponent part >>= fun _ => parts.forM validateComponent) := rfl
      rw [hcons, List.forall_mem_cons, ← validateComponent_iff, ← ih]
      cases validateComponent part with
      | error reason =>
        constructor
        · intro h
          cases h
        · rintro ⟨h, -⟩
          cases h
      | ok done =>
        constructor
        · intro h
          exact ⟨rfl, h⟩
        · rintro ⟨-, h⟩
          exact h
  unfold validateImage
  split_ifs with hempty
  · subst hempty
    constructor
    · intro h
      cases h
    · intro h
      obtain ⟨first, rest, hnil, -⟩ := h [] (by simp)
      cases hnil
  · exact hforM _

/-- The ends of labels that are joined with dots. -/
theorem labels_ends {labels : List Text} (hne : labels ≠ [])
    (h : ∀ label ∈ labels, label ≠ [] ∧ ∀ c ∈ label, isLabelChar c = true) :
    (∃ c, (['.'].intercalate labels).head? = some c ∧ c ≠ '.') ∧
      ∃ c, (['.'].intercalate labels).getLast? = some c ∧ c ≠ '.' := by
  induction labels with
  | nil => exact absurd rfl hne
  | cons label labels ih =>
    obtain ⟨hlabel, hchars⟩ := h label List.mem_cons_self
    have hhead : ∃ c, label.head? = some c ∧ c ≠ '.' := by
      obtain ⟨c, rest, rfl⟩ := List.exists_cons_of_ne_nil hlabel
      exact ⟨c, rfl, (isLabelChar_name (hchars c List.mem_cons_self)).2⟩
    cases labels with
    | nil =>
      rw [List.intercalate_singleton]
      refine ⟨hhead, label.getLast hlabel, List.getLast?_eq_some_getLast hlabel, ?_⟩
      exact (isLabelChar_name (hchars _ (List.getLast_mem hlabel))).2
    | cons next labels =>
      obtain ⟨-, c, hlast, hc⟩ := ih (List.cons_ne_nil _ _) fun other hother =>
        h other (List.mem_cons_of_mem _ hother)
      obtain ⟨d, hd, hdot⟩ := hhead
      rw [List.intercalate_cons_cons]
      refine ⟨⟨d, ?_, hdot⟩, c, ?_, hc⟩
      · rw [List.append_assoc, List.head?_append, hd, Option.some_or]
      · rw [List.getLast?_append, hlast, Option.some_or]

/-- The labels of a host, as the validator sees them. -/
theorem validHost_iff : ValidHost host ↔ Text.byteLen host ≤ 253 ∧ host ≠ [] ∧ host.head? ≠ some '.' ∧
    stripTrailingDot host ≠ [] ∧ ∀ label ∈ (stripTrailingDot host).splitOn '.',
      label ≠ [] ∧ Text.byteLen label ≤ 63 ∧ ∀ c ∈ label, isLabelChar c = true := by
  constructor
  · rintro ⟨hshort, labels, hne, hlabels, hhost⟩
    obtain ⟨⟨c, hhead, hc⟩, d, hlast, hd⟩ := labels_ends hne fun label hlabel =>
      ⟨(hlabels label hlabel).1, (hlabels label hlabel).2.2⟩
    have hnonempty : ['.'].intercalate labels ≠ [] := by
      intro hnil
      rw [hnil] at hhead
      cases hhead
    have hstrip : stripTrailingDot host = ['.'].intercalate labels := by
      rcases hhost with rfl | rfl
      · rw [stripTrailingDot, if_neg]
        rw [hlast]
        simpa using hd
      · rw [stripTrailingDot, if_pos (by simp), List.dropLast_concat]
    have hfree : ∀ label ∈ labels, '.' ∉ label := fun label hlabel hdot =>
      (isLabelChar_name ((hlabels label hlabel).2.2 _ hdot)).2 rfl
    have hstart : host.head? = some c := by
      rcases hhost with rfl | rfl
      · exact hhead
      · rw [List.head?_append, hhead, Option.some_or]
    refine ⟨hshort, ?_, ?_, ?_, ?_⟩
    · rintro rfl
      cases hstart
    · rw [hstart]
      simpa using hc
    · rwa [hstrip]
    · rw [hstrip, List.splitOn_intercalate '.' hfree hne]
      exact hlabels
  · rintro ⟨hshort, -, -, -, hlabels⟩
    refine ⟨hshort, (stripTrailingDot host).splitOn '.', List.splitOn_ne_nil _ _, hlabels, ?_⟩
    rw [List.intercalate_splitOn]
    unfold stripTrailingDot
    split_ifs with hdot
    · exact .inr (List.dropLast_append_getLast? _ hdot).symm
    · exact .inl rfl

theorem parsePort_iff : ValidPort port ↔ port ≠ [] ∧ (∀ c ∈ port, c.isDigit = true) ∧
    ∃ number, parsePort port = some number ∧ number ≠ 0 := by
  simp only [parsePort]
  constructor
  · rintro ⟨hne, hdigits, hvalue⟩
    exact ⟨hne, hdigits, _, if_pos (by omega), by omega⟩
  · rintro ⟨hne, hdigits, number, hnumber, hpos⟩
    split_ifs at hnumber with hsmall
    cases hnumber
    exact ⟨hne, hdigits, by omega, by omega⟩

theorem validateRegistry_iff : validateRegistry text = .ok () ↔
    ValidHost (cutPort text).1 ∧ ∀ port, (cutPort text).2 = some port → ValidPort port := by
  unfold validateRegistry
  generalize cutPort text = parts
  obtain ⟨host, port⟩ := parts
  have hlabels : (stripTrailingDot host = [] || ((stripTrailingDot host).splitOn '.').any fun label =>
      label = [] || 63 < Text.byteLen label || !label.all isLabelChar) = false ↔
      stripTrailingDot host ≠ [] ∧ ∀ label ∈ (stripTrailingDot host).splitOn '.',
        label ≠ [] ∧ Text.byteLen label ≤ 63 ∧ ∀ c ∈ label, isLabelChar c = true := by
    simp [and_assoc]
  simp only
  split_ifs with hhost hbad
  · refine ⟨fun h => (by cases h), fun h => ?_⟩
    obtain ⟨hshort, hne, hstart, -⟩ := validHost_iff.mp h.1
    rcases hhost with hhost | hhost | hhost
    · exact absurd hhost hne
    · omega
    · exact absurd hhost hstart
  · refine ⟨fun h => (by cases h), fun h => ?_⟩
    obtain ⟨-, -, -, hvalid⟩ := validHost_iff.mp h.1
    rw [← hlabels] at hvalid
    rw [hvalid] at hbad
    cases hbad
  · rw [Bool.not_eq_true, hlabels] at hbad
    rw [not_or, not_or] at hhost
    have hvalid : ValidHost host :=
      validHost_iff.mpr ⟨Nat.not_lt.mp hhost.2.1, hhost.1, hhost.2.2, hbad⟩
    cases port with
    | none => exact ⟨fun _ => ⟨hvalid, fun port h => by cases h⟩, fun _ => rfl⟩
    | some port =>
      have hport : (port = [] || !port.all Char.isDigit) = false ↔
          port ≠ [] ∧ ∀ c ∈ port, c.isDigit = true := by
        simp
      constructor
      · intro h
        refine ⟨hvalid, fun other hother => ?_⟩
        cases hother
        simp only at h
        split_ifs at h with hdigits
        rw [Bool.not_eq_true, hport] at hdigits
        cases hnumber : parsePort port with
        | none => simp [hnumber] at h
        | some number =>
          simp only [hnumber] at h
          split_ifs at h with hpos
          exact parsePort_iff.mpr ⟨hdigits.1, hdigits.2, number, hnumber, hpos⟩
      · rintro ⟨-, h⟩
        obtain ⟨hne, hdigits, number, hnumber, hpos⟩ := parsePort_iff.mp (h port rfl)
        simp only
        rw [hport.mpr ⟨hne, hdigits⟩]
        simp [hnumber, hpos]

end Parts

section Cuts

variable {c : Char} {text before after tag : Text} {i : ℕ}

theorem rfind_append (h : c ∉ after) : rfind c (before ++ c :: after) = some before.length := by
  have hback : (before ++ c :: after).reverse.findIdx? (· = c) = some after.length := by
    rw [List.findIdx?_eq_some_iff_getElem]
    refine ⟨by simp, ?_, ?_⟩
    · simp
    · intro j hj
      have hlt : j < after.reverse.length := by simpa using hj
      have hne : after.reverse[j] ≠ c := fun heq =>
        h (List.mem_reverse.mp (heq ▸ List.getElem_mem _))
      simpa [List.getElem_append_left, hj] using hne
  rw [rfind, hback, Option.map_some, List.length_append, List.length_cons]
  congr 1
  omega

theorem rfind_none (h : c ∉ text) : rfind c text = none := by
  rw [rfind, Option.map_eq_none_iff, List.findIdx?_eq_none_iff]
  intro d hd
  simp only [decide_eq_false_iff_not]
  rintro rfl
  exact h (List.mem_reverse.mp hd)

/-- A text either lacks a character or is cut at the last one. -/
theorem rfind_cases (c : Char) (text : Text) :
    c ∉ text ∨ ∃ before after, text = before ++ c :: after ∧ c ∉ after := by
  by_cases h : c ∈ text
  · obtain ⟨before, after, hsplit, hfree⟩ := List.eq_append_cons_of_mem (List.mem_reverse.mpr h)
    refine .inr ⟨after.reverse, before.reverse, ?_, by simpa using hfree⟩
    rw [← List.reverse_reverse text, hsplit]
    simp
  · exact .inl h

theorem cutTag_tag (hcolon : ':' ∉ tag) (hslash : '/' ∉ tag) :
    cutTag (before ++ ':' :: tag) = (before, some tag) := by
  have hseparator : tagSeparator (before ++ ':' :: tag) = some before.length := by
    unfold tagSeparator
    rw [rfind_append hcolon]
    rcases rfind_cases '/' before with hnone | ⟨front, back, rfl, hback⟩
    · rw [rfind_none]
      simp [hnone, hslash]
    · have hfree : '/' ∉ back ++ ':' :: tag := by simp [hback, hslash]
      rw [show front ++ '/' :: back ++ ':' :: tag = front ++ '/' :: (back ++ ':' :: tag) by simp,
        rfind_append hfree]
      simp only
      rw [if_pos]
      simp only [List.length_append, List.length_cons]
      omega
  rw [cutTag, hseparator]
  simp

theorem cutTag_free (h : ':' ∉ text) : cutTag text = (text, none) := by
  rw [cutTag, tagSeparator, rfind_none h]

theorem rfind_slash_le (before after : Text) : ∃ slash, rfind '/' (before ++ '/' :: after) = some slash ∧
    before.length ≤ slash := by
  rcases rfind_cases '/' after with hnone | ⟨front, back, rfl, hback⟩
  · exact ⟨_, rfind_append hnone, Nat.le_refl _⟩
  · refine ⟨(before ++ '/' :: front).length, ?_, by simp⟩
    rw [← rfind_append hback]
    simp

/-- A colon in front of the last slash is not the tag's. -/
theorem cutTag_path (hcolon : ':' ∉ after) :
    cutTag (before ++ '/' :: after) = (before ++ '/' :: after, none) := by
  obtain ⟨slash, hslash, hle⟩ := rfind_slash_le before after
  have hseparator : tagSeparator (before ++ '/' :: after) = none := by
    rcases rfind_cases ':' before with hnone | ⟨front, back, rfl, hback⟩
    · rw [tagSeparator, rfind_none (by simp [hnone, hcolon])]
    · have hfree : ':' ∉ back ++ '/' :: after := by simp [hback, hcolon]
      have hlast : rfind ':' (front ++ ':' :: back ++ '/' :: after) = some front.length := by
        rw [← rfind_append hfree]
        simp
      rw [List.length_append, List.length_cons] at hle
      rw [tagSeparator, hlast, hslash]
      simp only
      rw [if_neg (by omega)]
  rw [cutTag, hseparator]

theorem cutTag_append (text : Text) : (cutTag text).1 ++ Decomposition.suffix ':' (cutTag text).2 = text := by
  unfold cutTag
  cases hseparator : tagSeparator text with
  | none => simp [Decomposition.suffix]
  | some colon =>
    have hlast : rfind ':' text = some colon := by
      unfold tagSeparator at hseparator
      split at hseparator
      · split_ifs at hseparator
        rename_i hcolon hslash hlt
        rw [← hseparator, hcolon]
      · rename_i hcolon hslash
        rw [← hseparator, hcolon]
      · cases hseparator
    rcases rfind_cases ':' text with hnone | ⟨before, after, rfl, hfree⟩
    · rw [rfind_none hnone] at hlast
      cases hlast
    · rw [rfind_append hfree] at hlast
      cases hlast
      simp [Decomposition.suffix]

theorem cutPort_append (text : Text) :
    (cutPort text).1 ++ Decomposition.suffix ':' (cutPort text).2 = text := by
  unfold cutPort
  cases hsplit : Text.splitOnce ':' text with
  | none => simp [Decomposition.suffix]
  | some parts => simp [Decomposition.suffix, (Text.splitOnce_some hsplit).1]

theorem render_found (reference : Text) : (found reference).render = reference := by
  have htag := cutTag_append reference
  have hregistry : ∀ withoutTag : Text, Decomposition.registryText
      ⟨(cutRegistry withoutTag).1.map cutPort, [], none⟩ ++ (cutRegistry withoutTag).2 = withoutTag := by
    intro withoutTag
    unfold cutRegistry
    cases hsplit : Text.splitOnce '/' withoutTag with
    | none => rfl
    | some parts =>
      have hport := cutPort_append parts.1
      simp only [Option.map_some, Decomposition.registryText]
      rw [hport, (Text.splitOnce_some hsplit).1]
      simp
  have hparts := hregistry (cutTag reference).1
  rw [Decomposition.render, found, List.intercalate_splitOn]
  exact (congrArg (· ++ Decomposition.suffix ':' (cutTag reference).2) hparts).trans htag

theorem splitOnce_free (h : c ∉ text) : Text.splitOnce c text = none := by
  cases hsplit : Text.splitOnce c text with
  | none => rfl
  | some parts =>
    rw [(Text.splitOnce_some hsplit).1] at h
    simp at h

end Cuts

section Renderings

variable {d : Decomposition} {reference : Text}

theorem names_free {text : Text} (h : ∀ c ∈ text, isNameChar c = true) : ':' ∉ text ∧ '/' ∉ text :=
  ⟨fun hmem => (nameChar_plain (h _ hmem)).1 rfl, fun hmem => (nameChar_plain (h _ hmem)).2.1 rfl⟩

def Decomposition.path (d : Decomposition) : Text := ['/'].intercalate d.components

theorem Decomposition.Valid.colon_notMem_path (h : d.Valid) : ':' ∉ d.path := by
  intro hmem
  rcases mem_intercalate hmem with heq | ⟨component, hcomponent, hmem⟩
  · cases heq
  · exact (names_free (h.component component hcomponent).names).1 hmem

theorem Decomposition.Valid.splitOn_path (h : d.Valid) : d.path.splitOn '/' = d.components :=
  List.splitOn_intercalate '/'
    (fun component hcomponent => (names_free (h.component component hcomponent).names).2) h.nonempty

/-- In front of the tag stands what the validator takes for it. -/
theorem Decomposition.Valid.cutTag_render (h : d.Valid) :
    cutTag d.render = (d.registryText ++ d.path, d.tag) := by
  have hrender : d.render = d.registryText ++ d.path ++ suffix ':' d.tag := rfl
  rw [hrender]
  cases htag : d.tag with
  | some tag =>
    have hfree := names_free (h.tag tag htag).names
    exact cutTag_tag hfree.1 hfree.2
  | none =>
    rw [suffix, List.append_nil]
    cases hregistry : d.registry with
    | none =>
      refine cutTag_free ?_
      rw [registryText, hregistry]
      exact h.colon_notMem_path
    | some registry =>
      obtain ⟨host, port⟩ := registry
      have hshape : d.registryText ++ d.path = host ++ suffix ':' port ++ '/' :: d.path := by
        rw [registryText, hregistry]
        simp
      rw [hshape]
      exact cutTag_path h.colon_notMem_path

/-- There is one way only to read a reference, and the validator finds it. -/
theorem Decomposition.Valid.found_render (h : d.Valid) : found d.render = d := by
  unfold found
  rw [h.cutTag_render]
  cases hregistry : d.registry with
  | none =>
    have hslash : '/' ∉ d.path := by
      obtain ⟨component, hcomponents⟩ := List.length_eq_one_iff.mp (h.single hregistry)
      rw [path, hcomponents, List.intercalate_singleton]
      exact (names_free (h.component component (by simp [hcomponents])).names).2
    have hcut : cutRegistry (d.registryText ++ d.path) = (none, d.path) := by
      rw [registryText, hregistry, List.nil_append, cutRegistry, splitOnce_free hslash]
    rw [hcut, h.splitOn_path]
    show (⟨none, d.components, d.tag⟩ : Decomposition) = d
    rw [← hregistry]
  | some registry =>
    obtain ⟨host, port⟩ := registry
    have hhost := names_free (h.host host port hregistry).names
    have hport : cutPort (host ++ suffix ':' port) = (host, port) ∧ '/' ∉ host ++ suffix ':' port := by
      cases port with
      | none =>
        rw [suffix, List.append_nil, cutPort, splitOnce_free hhost.1]
        exact ⟨rfl, hhost.2⟩
      | some port =>
        have hfree := names_free (h.port host port hregistry).names
        rw [suffix, cutPort, Text.splitOnce_append hhost.1]
        exact ⟨rfl, by simp [hhost.2, hfree.2]⟩
    have hcut : cutRegistry (d.registryText ++ d.path) = (some (host ++ suffix ':' port), d.path) := by
      have hshape : d.registryText ++ d.path = host ++ suffix ':' port ++ '/' :: d.path := by
        rw [registryText, hregistry]
        simp
      rw [hshape, cutRegistry, Text.splitOnce_append hport.2]
    rw [hcut, h.splitOn_path, Option.map_some, hport.1, ← hregistry]

theorem Decomposition.Valid.chars (h : d.Valid) :
    ∀ c ∈ d.render, isNameChar c = true ∨ c = ':' ∨ c = '/' := by
  have hsuffix : ∀ (text : Option Text), (∀ t, text = some t → ∀ c ∈ t, isNameChar c = true) →
      ∀ c ∈ suffix ':' text, isNameChar c = true ∨ c = ':' ∨ c = '/' := by
    intro text htext c hc
    cases text with
    | none => cases hc
    | some t =>
      rcases List.mem_cons.mp hc with rfl | hc
      · exact .inr (.inl rfl)
      · exact .inl (htext t rfl c hc)
  intro c hc
  rw [render, List.mem_append, List.mem_append] at hc
  rcases hc with (hc | hc) | hc
  · rw [registryText] at hc
    cases hregistry : d.registry with
    | none =>
      rw [hregistry] at hc
      cases hc
    | some registry =>
      obtain ⟨host, port⟩ := registry
      simp only [hregistry, List.mem_append, List.mem_singleton] at hc
      rcases hc with (hc | hc) | rfl
      · exact .inl ((h.host host port hregistry).names c hc)
      · refine hsuffix port (fun t ht => ?_) c hc
        subst ht
        exact (h.port host t hregistry).names
      · exact .inr (.inr rfl)
  · rcases mem_intercalate hc with rfl | ⟨component, hcomponent, hc⟩
    · exact .inr (.inr rfl)
    · exact .inl ((h.component component hcomponent).names c hc)
  · exact hsuffix d.tag (fun t ht => (h.tag t ht).names) c hc

theorem trim_free {text : Text} (h : ∀ c ∈ text, isWhitespace c = false) : Text.trim text = text := by
  have hstart : Text.trimStart text = text := by
    rw [Text.trimStart, List.dropWhile_eq_self_iff]
    intro hlength
    rw [h _ (List.getElem_mem _)]
    exact Bool.false_ne_true
  rw [Text.trim, hstart, Text.trimEnd, List.rdropWhile_eq_self_iff]
  intro hne
  rw [h _ (List.getLast_mem hne)]
  exact Bool.false_ne_true

/-- No slash follows a colon. -/
def ColonEnded (a b : Char) : Prop := a = ':' → b ≠ '/'

theorem not_contains_transport {text : Text} (h : text.IsChain ColonEnded) :
    contains "://".toList text = false := by
  induction text with
  | nil => rfl
  | cons c rest ih =>
    rw [contains, Bool.or_eq_false_iff]
    refine ⟨?_, ih h.tail⟩
    rw [Bool.eq_false_iff]
    intro hstart
    obtain ⟨after, hafter⟩ := List.isPrefixOf_iff_prefix.mp hstart
    rw [← hafter] at h
    exact (List.isChain_cons_cons.mp h).1 rfl rfl

theorem chain_free {text : Text} (h : ':' ∉ text) : text.IsChain ColonEnded := by
  induction text with
  | nil => exact .nil
  | cons c rest ih =>
    rw [List.mem_cons, not_or] at h
    cases rest with
    | nil => exact .singleton c
    | cons next rest => exact .cons_cons (fun heq => absurd heq.symm h.1) (ih h.2)

theorem chain_append {left right : Text} (hl : left.IsChain ColonEnded) (hr : right.IsChain ColonEnded)
    (hlast : left.getLast? ≠ some ':') : (left ++ right).IsChain ColonEnded := by
  refine List.isChain_append.mpr ⟨hl, hr, fun a ha b hb heq => ?_⟩
  rw [Option.mem_def, heq] at ha
  exact absurd ha hlast

theorem last_free {left right : Text} (hne : right ≠ []) (h : ':' ∉ right) :
    (left ++ right).getLast? ≠ some ':' := by
  rw [List.getLast?_append, List.getLast?_eq_some_getLast hne, Option.some_or]
  intro heq
  exact h (Option.some.inj heq ▸ List.getLast_mem hne)

/-- A port or a tag is not empty, and has no colon of its own. -/
theorem chain_suffix {left : Text} {text : Option Text} (hl : left.IsChain ColonEnded)
    (hlast : left.getLast? ≠ some ':') (h : ∀ t, text = some t → t ≠ [] ∧ ∀ c ∈ t, isNameChar c = true) :
    (left ++ Decomposition.suffix ':' text).IsChain ColonEnded ∧
      (left ++ Decomposition.suffix ':' text).getLast? ≠ some ':' := by
  cases text with
  | none =>
    rw [Decomposition.suffix, List.append_nil]
    exact ⟨hl, hlast⟩
  | some t =>
    obtain ⟨hne, hnames⟩ := h t rfl
    have hfree := names_free hnames
    obtain ⟨first, rest, rfl⟩ := List.exists_cons_of_ne_nil hne
    have hfirst : first ≠ '/' := by
      rintro rfl
      exact hfree.2 List.mem_cons_self
    constructor
    · exact chain_append hl (.cons_cons (fun _ => hfirst) (chain_free hfree.1)) hlast
    · rw [Decomposition.suffix, List.append_cons]
      exact last_free hne hfree.1

theorem Decomposition.Valid.path_ne_nil (h : d.Valid) : d.path ≠ [] := by
  intro hnil
  have hsplit := h.splitOn_path
  rw [hnil] at hsplit
  obtain ⟨first, rest, heq, -⟩ := h.component [] (by rw [← hsplit]; simp)
  cases heq

theorem Decomposition.Valid.chain (h : d.Valid) : d.render.IsChain ColonEnded := by
  have hpath : (d.registryText ++ d.path).IsChain ColonEnded := by
    rw [registryText]
    cases hregistry : d.registry with
    | none => exact chain_free h.colon_notMem_path
    | some registry =>
      obtain ⟨host, port⟩ := registry
      have hhost := names_free (h.host host port hregistry).names
      have hlast : host.getLast? ≠ some ':' := fun heq => hhost.1 (List.mem_of_getLast? heq)
      have hport := @chain_suffix host port (chain_free hhost.1) hlast fun t ht => by
        subst ht
        exact ⟨(h.port host t hregistry).nonempty, (h.port host t hregistry).names⟩
      have hslash := chain_append hport.1 (.singleton '/') hport.2
      exact chain_append hslash (chain_free h.colon_notMem_path) (by simp)
  have hend := @last_free d.registryText d.path h.path_ne_nil h.colon_notMem_path
  refine (chain_suffix hpath hend fun t ht => ⟨?_, (h.tag t ht).names⟩).1
  rintro rfl
  obtain ⟨_, _, heq, -⟩ := (h.tag [] ht).chars
  cases heq

end Renderings

section Acceptance

variable {d : Decomposition} {reference : Text}

theorem forM_option_iff {f : Text → Except String Unit} {text : Option Text} :
    text.forM f = .ok () ↔ ∀ t, text = some t → f t = .ok () := by
  cases text with
  | none => exact ⟨fun _ t h => (by cases h), fun _ => rfl⟩
  | some t =>
    constructor
    · rintro h _ ⟨⟩
      exact h
    · intro h
      exact h t rfl

/-- The parts are what the validator asks for. -/
theorem found_valid_iff : (found reference).Valid ↔
    (cutTag reference).2.forM validateTag = .ok () ∧
      (cutRegistry (cutTag reference).1).1.forM validateRegistry = .ok () ∧
      validateImage (cutRegistry (cutTag reference).1).2 = .ok () := by
  rw [forM_option_iff, forM_option_iff, validateImage_iff]
  simp only [validateTag_iff, validateRegistry_iff]
  constructor
  · intro h
    refine ⟨h.tag, fun registry hregistry => ?_, h.component⟩
    have hmap : (found reference).registry = some (cutPort registry) := by
      rw [found, hregistry, Option.map_some]
    refine ⟨h.host _ _ hmap, fun port hport => ?_⟩
    refine h.port (cutPort registry).1 port ?_
    rw [hmap, ← hport]
  · rintro ⟨htag, hregistry, himage⟩
    refine ⟨List.splitOn_ne_nil _ _, fun hnone => ?_, fun host port hsome => ?_, fun host port hsome => ?_,
      himage, htag⟩
    · have hcut : Text.splitOnce '/' (cutTag reference).1 = none := by
        cases hsplit : Text.splitOnce '/' (cutTag reference).1 with
        | none => rfl
        | some parts => simp [found, cutRegistry, hsplit] at hnone
      have himage : (found reference).components = (cutTag reference).1.splitOn '/' := by
        rw [found, cutRegistry, hcut]
      rw [himage, List.splitOn_eq_singleton (Text.splitOnce_none hcut), List.length_singleton]
    · obtain ⟨registry, hsome, hcut⟩ := Option.map_eq_some_iff.mp hsome
      have hvalid := (hregistry registry hsome).1
      rwa [hcut] at hvalid
    · obtain ⟨registry, hsome, hcut⟩ := Option.map_eq_some_iff.mp hsome
      exact (hregistry registry hsome).2 port (by rw [hcut])

theorem bind_unit_iff {x : Except String Unit} {y : Except String Unit} :
    (x >>= fun _ => y) = .ok () ↔ x = .ok () ∧ y = .ok () := by
  cases x with
  | error reason =>
    constructor
    · intro h
      cases h
    · rintro ⟨h, -⟩
      cases h
  | ok done => exact ⟨fun h => ⟨rfl, h⟩, fun h => h.2⟩

theorem validateOciReference_iff (hlength : Text.byteLen reference ≤ 512) :
    validateOciReference reference = .ok () ↔ (found reference).Valid ∧ reference.head? ≠ some '-' := by
  have hparts : ((cutTag reference).2.forM validateTag >>= fun _ =>
      (cutRegistry (cutTag reference).1).1.forM validateRegistry >>= fun _ =>
        validateImage (cutRegistry (cutTag reference).1).2) = .ok () ↔ (found reference).Valid := by
    rw [bind_unit_iff, bind_unit_iff, found_valid_iff]
  constructor
  · intro h
    unfold validateOciReference at h
    split_ifs at h with hempty hspace htransport
    simp only [Bool.or_eq_true, decide_eq_true_eq, not_or] at htransport
    exact ⟨hparts.mp h, htransport.1.1⟩
  · rintro ⟨hvalid, hdash⟩
    have hchars := hvalid.chars
    have hchain := hvalid.chain
    rw [render_found] at hchars hchain
    have hplain : ∀ c ∈ reference, isWhitespace c = false ∧ isControl c = false ∧ c ≠ '@' := by
      intro c hc
      rcases hchars c hc with hname | rfl | rfl
      · obtain ⟨-, -, hat, hspace, hcontrol⟩ := nameChar_plain hname
        exact ⟨hspace, hcontrol, hat⟩
      · decide
      · decide
    have hne : reference ≠ [] := by
      intro hnil
      have hrender : (found reference).render = [] := (render_found reference).trans hnil
      exact hvalid.path_ne_nil (List.append_eq_nil_iff.mp (List.append_eq_nil_iff.mp hrender).1).2
    have htrim := trim_free fun c hc => (hplain c hc).1
    have hcontrol : reference.any isControl = false := by
      rw [List.any_eq_false]
      intro c hc
      rw [(hplain c hc).2.1]
      exact Bool.false_ne_true
    have hat : '@' ∉ reference := fun hmem => (hplain '@' hmem).2.2 rfl
    unfold validateOciReference
    have htransport : ¬ (reference.head? = some '-' || contains "://".toList reference ||
        '@' ∈ reference) = true := by
      rw [not_contains_transport hchain]
      simp [hdash, hat]
    rw [if_neg (by simp [hne, hlength]), if_neg (by simp [htrim, hcontrol]), if_neg htransport]
    exact hparts.mpr hvalid

theorem new_ok_iff : (∃ accepted, OciReference.new reference = .ok accepted) ↔
    validateOciReference reference = .ok () := by
  unfold OciReference.new
  split
  · rename_i h
    exact ⟨fun _ => h, fun _ => ⟨_, rfl⟩⟩
  · rename_i reason h
    rw [h]
    constructor
    · rintro ⟨accepted, hok⟩
      cases hok
    · intro hok
      cases hok

/-- What is accepted is what the grammar can write, and it can be read in one way. -/
theorem new_iff_grammar (reference : Text) (hlength : Text.byteLen reference ≤ 512) :
    ((∃ accepted, OciReference.new reference = .ok accepted) ↔
      (∃ d : Decomposition, d.Valid ∧ d.render = reference) ∧ reference.head? ≠ some '-') ∧
    ∀ d : Decomposition, d.Valid → d.render = reference → d = found reference := by
  have hunique : ∀ d : Decomposition, d.Valid → d.render = reference → d = found reference := by
    rintro d hd rfl
    exact hd.found_render.symm
  refine ⟨?_, hunique⟩
  rw [new_ok_iff, validateOciReference_iff hlength]
  constructor
  · rintro ⟨hvalid, hdash⟩
    exact ⟨⟨found reference, hvalid, render_found reference⟩, hdash⟩
  · rintro ⟨⟨d, hd, hrender⟩, hdash⟩
    rw [← hunique d hd hrender]
    exact ⟨hd, hdash⟩

/-- `localhost:5000/lib/nginx:dev`. -/
def tagged : Text :=
  ['l', 'o', 'c', 'a', 'l', 'h', 'o', 's', 't', ':', '5', '0', '0', '0', '/', 'l', 'i', 'b', '/', 'n', 'g',
    'i', 'n', 'x', ':', 'd', 'e', 'v']

theorem new_iff_grammar_tagged : (∃ accepted, OciReference.new tagged = .ok accepted) ↔
    (∃ d : Decomposition, d.Valid ∧ d.render = tagged) ∧ tagged.head? ≠ some '-' :=
  (new_iff_grammar tagged (by decide)).1

end Acceptance

end Lasper.Provisioning
