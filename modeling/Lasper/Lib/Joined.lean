import Lasper.Lib.Text
import Lasper.Lib.Lines

/-! Texts that are put together from lines, and what is read back from them. Reading a
line takes its newline and one carriage return before it. -/

namespace Lasper.Lib.Text

/-- The lines with a newline between them. -/
def joinedLines : List Text → Text
  | [] => []
  | [line] => line
  | line :: rest => line ++ '\n' :: joinedLines rest

/-- The lines with a newline after each. -/
def terminated (lines : List Text) : Text := lines.flatMap (· ++ ['\n'])

def endsInNewline (text : Text) : Bool := text.getLast? = some '\n'

/-- The line as it is read when a newline follows. -/
def dropReturn (line : Text) : Text := if line.getLast? = some '\r' then line.dropLast else line

/-- The text without the carriage returns that stand before a newline. -/
def dropReturns : Text → Text
  | [] => []
  | c :: rest => if c = '\r' ∧ rest.head? = some '\n' then dropReturns rest else c :: dropReturns rest

variable {lines : List Text} {line last : Text}

@[simp] theorem terminated_nil : terminated [] = [] := rfl

@[simp] theorem terminated_cons : terminated (line :: lines) = line ++ '\n' :: terminated lines := by
  simp [terminated]

theorem joinedLines_concat : joinedLines (lines ++ [last]) = terminated lines ++ last := by
  induction lines with
  | nil => rfl
  | cons line lines ih =>
    have hne : lines ++ [last] ≠ [] := by simp
    rw [List.cons_append, joinedLines]
    · rw [ih]
      simp
    · exact hne

theorem joinedLines_newline (h : lines ≠ []) : joinedLines lines ++ ['\n'] = terminated lines := by
  obtain ⟨front, last, rfl⟩ := (List.eq_nil_or_concat lines).resolve_left h
  rw [List.concat_eq_append, joinedLines_concat]
  simp [terminated]

theorem endsInNewline_terminated (hlast : '\n' ∉ last) :
    endsInNewline (terminated lines ++ last) = (!lines.isEmpty && last.isEmpty) := by
  unfold endsInNewline
  cases last with
  | nil =>
    rcases List.eq_nil_or_concat lines with rfl | ⟨front, line, rfl⟩
    · rfl
    · simp [terminated]
  | cons c rest =>
    have hne : (c :: rest).getLast? ≠ some '\n' := fun h => hlast (List.mem_of_getLast? h)
    rw [List.getLast?_append_of_ne_nil _ (List.cons_ne_nil c rest)]
    simpa using hne

theorem splitEnding_terminated (line : Text) : (splitEnding (line ++ ['\n'])).1 = dropReturn line := by
  unfold splitEnding dropReturn
  simp only [List.getLast?_concat, List.dropLast_concat, if_true]
  split_ifs <;> rfl

theorem splitEnding_unterminated (h : '\n' ∉ last) : (splitEnding last).1 = last := by
  unfold splitEnding
  rw [if_neg fun hlast => h (List.mem_of_getLast? hlast)]

/-- The lines of a text that was put together from lines. -/
theorem lines_terminated (h : ∀ line ∈ lines, '\n' ∉ line) (hlast : '\n' ∉ last) :
    Text.lines (terminated lines ++ last) = lines.map dropReturn ++ if last = [] then [] else [last] := by
  induction lines with
  | nil =>
    unfold Text.lines
    split_ifs with hempty
    · rw [hempty]
      rfl
    · simp [pieces_of_notMem hlast hempty, splitEnding_unterminated hlast]
  | cons line lines ih =>
    have hrest := ih fun other hother => h other (List.mem_cons_of_mem _ hother)
    unfold Text.lines at hrest ⊢
    rw [terminated_cons, List.append_assoc, List.cons_append, pieces_piece (h line List.mem_cons_self),
      List.map_cons, List.map_cons, hrest, splitEnding_terminated]
    rfl

/-- A text is its lines, with their newlines. -/
theorem exists_terminated (text : Text) : ∃ lines last, text = terminated lines ++ last ∧
    (∀ line ∈ lines, '\n' ∉ line) ∧ '\n' ∉ last := by
  induction text with
  | nil => exact ⟨[], [], rfl, nofun, nofun⟩
  | cons c rest ih =>
    obtain ⟨lines, last, rfl, hlines, hlast⟩ := ih
    by_cases hc : c = '\n'
    · refine ⟨[] :: lines, last, by simp [hc], fun line hline => ?_, hlast⟩
      rcases List.mem_cons.mp hline with rfl | hline
      · exact List.not_mem_nil
      · exact hlines line hline
    · cases lines with
      | nil => exact ⟨[], c :: last, rfl, nofun, List.not_mem_cons_of_ne_of_not_mem (Ne.symm hc) hlast⟩
      | cons line lines =>
        refine ⟨(c :: line) :: lines, last, by simp, fun other hother => ?_, hlast⟩
        rcases List.mem_cons.mp hother with rfl | hother
        · exact List.not_mem_cons_of_ne_of_not_mem (Ne.symm hc) (hlines line List.mem_cons_self)
        · exact hlines other (List.mem_cons_of_mem _ hother)

theorem dropReturn_subset (line : Text) : dropReturn line ⊆ line := by
  unfold dropReturn
  split_ifs
  · exact List.dropLast_subset line
  · exact List.Subset.refl line

theorem newline_notMem_lines {text : Text} (h : line ∈ Text.lines text) : '\n' ∉ line := by
  obtain ⟨lines, last, rfl, hlines, hlast⟩ := exists_terminated text
  rw [lines_terminated hlines hlast] at h
  rcases List.mem_append.mp h with h | h
  · obtain ⟨line, hline, rfl⟩ := List.mem_map.mp h
    exact fun hmem => hlines line hline (dropReturn_subset line hmem)
  · split_ifs at h
    · cases h
    · rw [List.mem_singleton.mp h]
      exact hlast

theorem dropReturns_of_notMem (h : '\n' ∉ last) : dropReturns last = last := by
  induction last with
  | nil => rfl
  | cons c rest ih =>
    have hhead : ¬ (c = '\r' ∧ rest.head? = some '\n') :=
      fun hpair => h (List.mem_cons_of_mem c (List.mem_of_head? hpair.2))
    rw [dropReturns, if_neg hhead, ih fun hmem => h (List.mem_cons_of_mem c hmem)]

theorem dropReturns_line (h : '\n' ∉ line) (rest : Text) :
    dropReturns (line ++ '\n' :: rest) = dropReturn line ++ '\n' :: dropReturns rest := by
  induction line with
  | nil => simp [dropReturns, dropReturn]
  | cons c line ih =>
    have hline : '\n' ∉ line := fun hmem => h (List.mem_cons_of_mem c hmem)
    have hih := ih hline
    cases line with
    | nil =>
      by_cases hc : c = '\r'
      · simp [dropReturns, dropReturn, hc]
      · simp [dropReturns, dropReturn, hc]
    | cons d line =>
      have hd : d ≠ '\n' := fun heq => hline (heq ▸ List.mem_cons_self)
      have hreturn : dropReturn (c :: d :: line) = c :: dropReturn (d :: line) := by
        unfold dropReturn
        rw [List.getLast?_cons_cons]
        split_ifs <;> rfl
      rw [List.cons_append, dropReturns, if_neg (by simp [hd]), hih, hreturn]
      rfl

theorem dropReturns_terminated (h : ∀ line ∈ lines, '\n' ∉ line) (hlast : '\n' ∉ last) :
    dropReturns (terminated lines ++ last) = terminated (lines.map dropReturn) ++ last := by
  induction lines with
  | nil => exact dropReturns_of_notMem hlast
  | cons line lines ih =>
    rw [terminated_cons, List.append_assoc, List.cons_append, dropReturns_line (h line List.mem_cons_self),
      ih fun other hother => h other (List.mem_cons_of_mem _ hother), List.map_cons, terminated_cons]
    simp

theorem byteLen_dropReturns (text : Text) : (dropReturns text).byteLen ≤ text.byteLen := by
  induction text with
  | nil => exact Nat.le_refl 0
  | cons c rest ih =>
    rw [dropReturns, byteLen_cons]
    split_ifs
    · omega
    · rw [byteLen_cons]
      omega

/-- The lines of a text, joined again. -/
theorem joinedLines_lines (text : Text) :
    joinedLines (Text.lines text) ++ (if endsInNewline text then ['\n'] else []) = dropReturns text := by
  obtain ⟨lines, last, rfl, hlines, hlast⟩ := exists_terminated text
  rw [lines_terminated hlines hlast, endsInNewline_terminated hlast, dropReturns_terminated hlines hlast]
  by_cases hempty : last = []
  · rw [hempty, if_pos rfl, List.append_nil]
    cases lines with
    | nil => rfl
    | cons line lines => simpa using @joinedLines_newline ((line :: lines).map dropReturn) (by simp)
  · have hnotEmpty : last.isEmpty = false := by simpa using hempty
    rw [if_neg hempty, joinedLines_concat, hnotEmpty]
    simp

end Lasper.Lib.Text
