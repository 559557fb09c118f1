import Lasper.Config.Logical
import Lasper.Nvidia.Matching
import Lasper.Nspawn.Content

/-! The lines of written sections, read back as settings. Only a value that ends in an
open escape runs into the next line, and only the blanks at the ends of a value are lost. -/

namespace Lasper.Nspawn

open Lib Config Nvidia

section Ends

variable {c : Char} {front back : Text}

theorem trimEnd_append_cons (hc : isWhitespace c = false) (front back : Text) :
    Text.trimEnd (front ++ c :: back) = front ++ c :: Text.trimEnd back := by
  induction back using List.reverseRecOn with
  | nil => exact List.rdropWhile_concat_neg isWhitespace front c (by simp [hc])
  | append_singleton back d ih =>
    rw [← List.cons_append, ← List.append_assoc]
    by_cases hd : isWhitespace d = true
    · rw [Text.trimEnd, Text.trimEnd, List.rdropWhile_concat_pos _ _ _ hd, List.rdropWhile_concat_pos _ _ _ hd]
      exact ih
    · rw [Text.trimEnd, Text.trimEnd, List.rdropWhile_concat_neg _ _ _ hd, List.rdropWhile_concat_neg _ _ _ hd]
      simp

theorem trim_cons (hc : isWhitespace c = false) (back : Text) : Text.trim (c :: back) = c :: Text.trimEnd back := by
  have hstart : Text.trimStart (c :: back) = [] ++ c :: back :=
    List.dropWhile_cons_of_neg (by rw [hc]; exact Bool.false_ne_true)
  rw [Text.trim, hstart, trimEnd_append_cons hc, List.nil_append]

theorem trim_trimEnd (text : Text) : Text.trim (Text.trimEnd text) = Text.trim text := by
  have hblank : ∀ c ∈ text.rtakeWhile isWhitespace, isWhitespace c = true := fun _ => List.mem_rtakeWhile_imp
  conv_rhs => rw [← List.rdropWhile_append_rtakeWhile (p := isWhitespace) (l := text)]
  rw [trim_append hblank]
  rfl

/-- The characters that show. -/
def inked (text : Text) : ℕ := text.countP fun c => !isWhitespace c

theorem inked_append (front back : Text) : inked (front ++ back) = inked front + inked back :=
  List.countP_append

theorem inked_cons_ink (hc : isWhitespace c = false) (text : Text) : inked (c :: text) = inked text + 1 :=
  List.countP_cons_of_pos (by rw [hc]; rfl)

theorem inked_cons_blank (hc : isWhitespace c = true) (text : Text) : inked (c :: text) = inked text :=
  List.countP_cons_of_neg (by rw [hc]; exact Bool.false_ne_true)

theorem inked_trimEnd (text : Text) : inked (Text.trimEnd text) = inked text := by
  induction text using List.reverseRecOn with
  | nil => rfl
  | append_singleton text c ih =>
    by_cases hc : isWhitespace c = true
    · rw [Text.trimEnd, List.rdropWhile_concat_pos _ _ _ hc, ← Text.trimEnd, ih]
      simp [inked, hc]
    · rw [Text.trimEnd, List.rdropWhile_concat_neg _ _ _ hc]

theorem inked_trim (text : Text) : inked (Text.trim text) = inked text := by
  rw [Text.trim, inked_trimEnd]
  induction text with
  | nil => rfl
  | cons c rest ih =>
    by_cases hc : isWhitespace c = true
    · rw [Text.trimStart, List.dropWhile_cons_of_pos hc, ← Text.trimStart, ih]
      simp [inked, hc]
    · rw [Text.trimStart, List.dropWhile_cons_of_neg hc]

theorem hasContinuation_concat_ne (hc : c ≠ '\\') (front : Text) : hasContinuation (front ++ [c]) = false := by
  have hnone := List.rtakeWhile_concat_neg (fun d : Char => decide (d = '\\')) front c (by simpa using hc)
  unfold hasContinuation
  rw [hnone]
  rfl

theorem hasContinuation_concat (front : Text) : hasContinuation (front ++ ['\\']) = !hasContinuation front := by
  have hmore := List.rtakeWhile_concat_pos (fun d : Char => decide (d = '\\')) front '\\' (by simp)
  unfold hasContinuation
  rw [hmore, List.length_append, List.length_singleton]
  generalize (List.rtakeWhile (fun d : Char => decide (d = '\\')) front).length = n
  rcases Nat.mod_two_eq_zero_or_one n with h | h
  · simp [h, Nat.add_mod]
  · simp [h, Nat.add_mod]

theorem hasContinuation_append_cons (hc : c ≠ '\\') (front back : Text) :
    hasContinuation (front ++ c :: back) = hasContinuation back := by
  induction back using List.reverseRecOn with
  | nil => exact hasContinuation_concat_ne hc front
  | append_singleton back d ih =>
    rw [← List.cons_append, ← List.append_assoc]
    by_cases hd : d = '\\'
    · rw [hd, hasContinuation_concat, hasContinuation_concat, ih]
    · rw [hasContinuation_concat_ne hd, hasContinuation_concat_ne hd]

/-- An escaped path has no open escape at its end. -/
theorem hasContinuation_escape (path : Text) : hasContinuation (escapeNspawnBindPath path) = false := by
  induction path using List.reverseRecOn with
  | nil => rfl
  | append_singleton path c ih =>
    rw [escapeNspawnBindPath, List.flatMap_append, List.flatMap_singleton, ← escapeNspawnBindPath]
    by_cases hslash : c = '\\'
    · rw [if_pos (Or.inl hslash), hslash]
      rw [List.append_cons, hasContinuation_concat, hasContinuation_concat, ih]
      rfl
    · split_ifs with hescape
      · rw [List.append_cons]
        exact hasContinuation_concat_ne hslash _
      · exact hasContinuation_concat_ne hslash _

end Ends

section Assignments

/-- A letter of a key. -/
def isKeyCharacter (c : Char) : Bool := c.isAlpha || c = '-'

def isPlainKey (key : Text) : Bool := key ≠ [] && key.all isKeyCharacter

def assignment (entry : Text × Text) : Text := entry.1 ++ '=' :: entry.2

def headerLine (name : Text) : Text := '[' :: name ++ [']']

def IniSection.lines (part : IniSection) : List Text := headerLine part.name :: part.entries.map assignment

/-- The settings that the entries of a section stand for. -/
def IniSection.settings (part : IniSection) : List (Text × Text × Text) :=
  part.entries.map fun entry => (headerLine part.name, entry.1, Text.trim entry.2)

variable {c : Char} {key value header name : Text} {lines : List Text} {entries : List (Text × Text)}

theorem inked_keyCharacter (h : isKeyCharacter c = true) : isWhitespace c = false := by
  unfold isKeyCharacter Char.isAlpha Char.isUpper Char.isLower at h
  simp only [Bool.or_eq_true, Bool.and_eq_true, decide_eq_true_eq, ge_iff_le, UInt32.le_iff_toNat_le] at h
  rcases h with (⟨hlow, hhigh⟩ | ⟨hlow, hhigh⟩) | rfl
  · unfold isWhitespace
    have hval : c.toNat = c.val.toNat := rfl
    simp at hlow hhigh ⊢
    omega
  · unfold isWhitespace
    have hval : c.toNat = c.val.toNat := rfl
    simp at hlow hhigh ⊢
    omega
  · decide

theorem exists_of_isPlainKey (h : isPlainKey key = true) : ∃ c rest, key = c :: rest ∧ isKeyCharacter c = true := by
  cases key with
  | nil => cases h
  | cons c rest => exact ⟨c, rest, rfl, by simp_all [isPlainKey]⟩

theorem all_of_isPlainKey (h : isPlainKey key = true) : ∀ c ∈ key, isKeyCharacter c = true := by
  simp only [isPlainKey, Bool.and_eq_true, List.all_eq_true] at h
  exact h.2

theorem trim_key (h : isPlainKey key = true) : Text.trim key = key := by
  apply trim_eq_self
  · intro c hc
    exact inked_keyCharacter (all_of_isPlainKey h c (List.mem_of_mem_head? hc))
  · intro c hc
    exact inked_keyCharacter (all_of_isPlainKey h c (List.mem_of_getLast? hc))

theorem trim_assignment (h : isPlainKey key = true) (value : Text) :
    Text.trim (assignment (key, value)) = key ++ '=' :: Text.trimEnd value := by
  obtain ⟨c, rest, rfl, hc⟩ := exists_of_isPlainKey h
  rw [assignment, List.cons_append, trim_cons (inked_keyCharacter hc), trimEnd_append_cons (by decide)]
  rfl

theorem splitOnce_assignment (h : isPlainKey key = true) (value : Text) :
    Text.splitOnce '=' (key ++ '=' :: value) = some (key, value) := by
  apply Text.splitOnce_append
  intro hmem
  exact absurd (all_of_isPlainKey h _ hmem) (by decide)

theorem not_header_assignment (h : isPlainKey key = true) (value : Text) :
    (Text.trim (assignment (key, value))).head? ≠ some '[' := by
  rw [trim_assignment h]
  obtain ⟨c, rest, rfl, hc⟩ := exists_of_isPlainKey h
  intro hhead
  rw [List.cons_append, List.head?_cons, Option.some_inj] at hhead
  rw [hhead] at hc
  exact absurd hc (by decide)

theorem settingsFrom_assignment (h : isPlainKey key = true) (value header : Text) (lines : List Text) :
    settingsFrom header (assignment (key, value) :: lines) =
      (header, key, Text.trim value) :: settingsFrom header lines := by
  rw [settingsFrom, if_neg (not_header_assignment h value), trim_assignment h, splitOnce_assignment h]
  simp only [trim_key h, trim_trimEnd]

theorem settingsFrom_assignments (h : ∀ entry ∈ entries, isPlainKey entry.1 = true) (header : Text)
    (lines : List Text) : settingsFrom header (entries.map assignment ++ lines) =
      (entries.map fun entry => (header, entry.1, Text.trim entry.2)) ++ settingsFrom header lines := by
  induction entries with
  | nil => rfl
  | cons entry entries ih =>
    rw [List.map_cons, List.cons_append, settingsFrom_assignment (h entry List.mem_cons_self),
      ih fun other hother => h other (List.mem_cons_of_mem _ hother)]
    rfl

theorem trim_headerLine (name : Text) : Text.trim (headerLine name) = headerLine name := by
  rw [headerLine, List.cons_append, trim_cons (by decide), trimEnd_append_cons (by decide)]
  rfl

/-- The settings of whole sections. -/
theorem settingsFrom_sections {parts : List IniSection}
    (h : ∀ part ∈ parts, ∀ entry ∈ part.entries, isPlainKey entry.1 = true) (header : Text) :
    settingsFrom header (parts.flatMap IniSection.lines) = parts.flatMap IniSection.settings := by
  induction parts generalizing header with
  | nil => rfl
  | cons part parts ih =>
    have hhead : (headerLine part.name).head? = some '[' := rfl
    rw [List.flatMap_cons, List.flatMap_cons, IniSection.lines, List.cons_append, settingsFrom, trim_headerLine,
      if_pos hhead, settingsFrom_assignments (h part List.mem_cons_self),
      ih fun other hother => h other (List.mem_cons_of_mem _ hother)]
    rfl

theorem isComment_assignment (h : isPlainKey key = true) (value : Text) :
    isComment (assignment (key, value)) = false := by
  obtain ⟨c, rest, rfl, hc⟩ := exists_of_isPlainKey h
  have hstart : Text.trimStart (assignment (c :: rest, value)) = c :: (rest ++ '=' :: value) :=
    List.dropWhile_cons_of_neg (by rw [inked_keyCharacter hc]; exact Bool.false_ne_true)
  unfold isComment
  rw [hstart]
  split
  · next heq =>
    rw [(List.cons.inj heq).1] at hc
    exact absurd hc (by decide)
  · next heq =>
    rw [(List.cons.inj heq).1] at hc
    exact absurd hc (by decide)
  · rfl

theorem hasContinuation_assignment (entry : Text × Text) : hasContinuation (assignment entry) = hasContinuation entry.2 :=
  hasContinuation_append_cons (by decide) entry.1 entry.2

theorem plainLine_assignment (h : isPlainKey key = true) (hvalue : hasContinuation value = false) :
    PlainLine (assignment (key, value)) :=
  ⟨isComment_assignment h value, (hasContinuation_assignment (key, value)).trans hvalue⟩

theorem plainLine_header (name : Text) : PlainLine (headerLine name) where
  comment := rfl
  continued := hasContinuation_concat_ne (by decide) _

theorem plainLine_nil : PlainLine [] := ⟨rfl, rfl⟩

end Assignments

end Lasper.Nspawn
