import Lasper.Config.Document
import Lasper.Lib.Joined

/-! What the logical lines of a document say: settings, each under the section's header
that comes before it. Where no line is a comment and none is continued, the logical lines
are the lines. -/

namespace Lasper.Config

open Lib

section Reading

/-- The texts of the logical lines, behind what is continued. -/
def logicalTexts (logical : Text) : List Text → List Text
  | [] => if logical = [] then [] else [logical]
  | line :: rest =>
    if isComment line then logicalTexts logical rest
    else if hasContinuation line then logicalTexts ((logical ++ line).dropLast ++ [' ']) rest
    else (logical ++ line) :: logicalTexts [] rest

/-- The settings of logical lines, each with its section, key and value. -/
def settingsFrom (header : Text) : List Text → List (Text × Text × Text)
  | [] => []
  | line :: rest =>
    if line.trim.head? = some '[' then settingsFrom line.trim rest
    else match line.trim.splitOnce '=' with
      | some (key, value) => (header, key.trim, value.trim) :: settingsFrom header rest
      | none => settingsFrom header rest

/-- The header that is in force behind the lines. -/
def headerAfter (header : Text) : List Text → Text
  | [] => header
  | line :: rest => headerAfter (if line.trim.head? = some '[' then line.trim else header) rest

def settings (content : Text) : List (Text × Text × Text) :=
  settingsFrom [] ((logicalLines content).map (·.1))

def settingsIn (header content : Text) : List (Text × Text) :=
  (settings content).filterMap fun setting => if setting.1 = header then some setting.2 else none

end Reading

section Lines

variable {logical header line : Text} {lines more : List Text}

theorem joinLines_texts (index firstLine : ℕ) :
    (joinLines index logical firstLine lines).map (·.1) = logicalTexts logical lines := by
  induction lines generalizing index logical firstLine with
  | nil =>
    unfold joinLines logicalTexts
    split_ifs <;> rfl
  | cons line lines ih =>
    unfold joinLines logicalTexts
    generalize (if logical = [] then index + 1 else firstLine) = first
    by_cases hcomment : isComment line = true
    · rw [if_pos hcomment, if_pos hcomment]
      exact ih _ _
    · rw [if_neg hcomment, if_neg hcomment]
      by_cases hcontinued : hasContinuation line = true
      · rw [if_pos hcontinued, if_pos hcontinued]
        exact ih _ _
      · rw [if_neg hcontinued, if_neg hcontinued, List.map_cons, ih]

/-- The lines are read one by one. -/
structure PlainLine (line : Text) : Prop where
  comment : isComment line = false
  continued : hasContinuation line = false

theorem logicalTexts_append (h : ∀ line ∈ lines, PlainLine line) :
    logicalTexts [] (lines ++ more) = lines ++ logicalTexts [] more := by
  induction lines with
  | nil => rfl
  | cons line lines ih =>
    have hline := h line List.mem_cons_self
    rw [List.cons_append, logicalTexts, if_neg (by simp [hline.comment]), if_neg (by simp [hline.continued]),
      ih fun other hother => h other (List.mem_cons_of_mem _ hother)]
    rfl

theorem logicalTexts_plain (h : ∀ line ∈ lines, PlainLine line) : logicalTexts [] lines = lines := by
  have happend := @logicalTexts_append lines [] h
  rwa [List.append_nil, logicalTexts, if_pos rfl, List.append_nil] at happend

/-- A continued line takes the next one, or ends with a space for it. -/
theorem logicalTexts_continued (hcomment : isComment line = false) (hcontinued : hasContinuation line = true)
    (h : ∀ line ∈ more, PlainLine line) :
    ∃ next rest, logicalTexts [] (line :: more) = (line.dropLast ++ ' ' :: next) :: rest ∧
      (more = next :: rest ∨ more = [] ∧ next = [] ∧ rest = []) := by
  rw [logicalTexts, if_neg (by simp [hcomment]), if_pos hcontinued, List.nil_append]
  cases more with
  | nil => exact ⟨[], [], by simp [logicalTexts], .inr ⟨rfl, rfl, rfl⟩⟩
  | cons next rest =>
    have hnext := h next List.mem_cons_self
    refine ⟨next, rest, ?_, .inl rfl⟩
    rw [logicalTexts, if_neg (by simp [hnext.comment]), if_neg (by simp [hnext.continued]),
      logicalTexts_plain fun other hother => h other (List.mem_cons_of_mem _ hother)]
    simp

/-- Empty lines say nothing. -/
theorem settingsFrom_filter : settingsFrom header (lines.filter (· ≠ [])) = settingsFrom header lines := by
  induction lines generalizing header with
  | nil => rfl
  | cons line lines ih =>
    by_cases hline : line = []
    · rw [List.filter_cons_of_neg (by simpa using hline), ih, hline]
      rfl
    · rw [List.filter_cons_of_pos (by simpa using hline), settingsFrom, settingsFrom]
      simp only [ih]

/-- A document that does not begin with a byte order mark is read from its start. -/
theorem settings_eq {content : Text} (h : content.head? ≠ some byteOrderMark) :
    settings content = settingsFrom [] (logicalTexts [] (Text.lines content)) := by
  have hstrip : stripByteOrderMark content = content := by
    cases content with
    | nil => rfl
    | cons c rest => exact if_neg fun hc => h (congrArg some hc)
  rw [settings, logicalLines, hstrip, joinLines_texts]

end Lines

end Lasper.Config
