import Lasper.Config.Layout

/-! The logical lines of a document as a reading of its physical lines: comment lines are left
out, the rest falls into groups that end at a line without continuation, and a group is one
logical line under the number of its first line. -/

namespace Lasper.Config

open Lib

section Pieces

variable {d : Char} {text piece : Text}

/-- A piece has the delimiter at its end only. -/
theorem pieces_delim_last (h : piece ∈ pieces d text) : d ∉ piece.dropLast := by
  induction text generalizing piece with
  | nil => cases h
  | cons c text ih =>
    unfold pieces at h
    split_ifs at h with hc
    · rcases List.mem_cons.mp h with rfl | h
      · simp
      · exact ih h
    · split at h
      · rw [List.mem_singleton.mp h]
        simp
      · rename_i first rest hpieces
        rcases List.mem_cons.mp h with rfl | h
        · have hfirst : first ∈ pieces d text := hpieces ▸ List.mem_cons_self
          rw [List.dropLast_cons_of_ne_nil (pieces_ne_nil hfirst), List.mem_cons, not_or]
          exact ⟨Ne.symm hc, ih hfirst⟩
        · exact ih (hpieces ▸ List.mem_cons_of_mem _ h)

/-- All pieces but the last one have it. -/
theorem pieces_dropLast (h : piece ∈ (pieces d text).dropLast) : piece.getLast? = some d := by
  induction text generalizing piece with
  | nil => cases h
  | cons c text ih =>
    unfold pieces at h
    split_ifs at h with hc
    · subst hc
      by_cases hrest : pieces c text = []
      · rw [hrest] at h
        cases h
      · rw [List.dropLast_cons_of_ne_nil hrest] at h
        rcases List.mem_cons.mp h with rfl | h
        · rfl
        · exact ih h
    · split at h
      · cases h
      · rename_i first rest hpieces
        by_cases hrest : rest = []
        · rw [hrest] at h
          cases h
        · rw [List.dropLast_cons_of_ne_nil hrest] at h
          rw [hpieces, List.dropLast_cons_of_ne_nil hrest] at ih
          rcases List.mem_cons.mp h with rfl | h
          · have hfirst : first ≠ [] := pieces_ne_nil (hpieces ▸ List.mem_cons_self)
            rw [List.getLast?_cons_of_ne_nil hfirst]
            exact ih List.mem_cons_self
          · exact ih (List.mem_cons_of_mem _ h)

end Pieces

section Lines

variable {content body : Text} {line : PhysicalLine} {number offset i : ℕ} {raws : List Text}

theorem splitEnding_body {raw : Text} (h : '\n' ∉ raw.dropLast) : '\n' ∉ (Text.splitEnding raw).1 := by
  unfold Text.splitEnding
  split_ifs with hlast hreturn
  · exact fun hmem => h ((List.dropLast_sublist _).subset hmem)
  · exact h
  · intro hmem
    have hne : raw ≠ [] := List.ne_nil_of_mem hmem
    rw [← List.dropLast_append_getLast hne, List.mem_append, List.mem_singleton] at hmem
    rcases hmem with hmem | heq
    · exact h hmem
    · exact hlast (by rw [List.getLast?_eq_some_getLast hne, ← heq])

theorem splitEnding_ending (raw : Text) : (Text.splitEnding raw).2 ∈ [[], ['\n'], ['\r', '\n']] := by
  unfold Text.splitEnding
  split_ifs <;> simp

theorem splitEnding_ended {raw : Text} (h : raw.getLast? = some '\n') : (Text.splitEnding raw).2 ≠ [] := by
  unfold Text.splitEnding
  rw [if_pos h]
  split_ifs <;> simp

/-- Where the line of a raw line lies. -/
theorem getElem?_layLines : (layLines number offset raws)[i]? = raws[i]?.map fun raw =>
    ⟨number + i, offset + Text.byteLen (raws.take i).flatten, (Text.splitEnding raw).1,
      (Text.splitEnding raw).2⟩ := by
  induction raws generalizing number offset i with
  | nil => simp [layLines]
  | cons raw raws ih =>
    cases i with
    | zero => simp [layLines]
    | succ i =>
      have hnumber : number + 1 + i = number + (i + 1) := by omega
      simp [layLines, ih, hnumber, Nat.add_assoc]

end Lines

section Groups

/-- A continued line takes the lines up to the first one that is not continued. -/
def groups : List PhysicalLine → List (List PhysicalLine)
  | [] => []
  | line :: rest =>
    if hasContinuation line.body then
      match groups rest with
      | [] => [[line]]
      | group :: others => (line :: group) :: others
    else [line] :: groups rest

/-- The text of a group: a final backslash that continues a line is read as a space. -/
def groupText (group : List PhysicalLine) : Text :=
  group.flatMap fun line => if hasContinuation line.body then line.body.dropLast ++ [' '] else line.body

def groupNumber : List PhysicalLine → ℕ
  | [] => 0
  | line :: _ => line.number

/-- The lines that are read at all. -/
def readable (content : Text) : List PhysicalLine :=
  (physicalLines (stripByteOrderMark content)).filter fun line => !isComment line.body

/-- What a document's logical lines are meant to be. -/
def readLines (content : Text) : List (Text × ℕ) :=
  (groups (readable content)).map fun group => (groupText group, groupNumber group)

variable {line : PhysicalLine} {pending lines : List PhysicalLine} {number offset : ℕ} {content : Text}

theorem groups_pending (h : ∀ line ∈ pending, hasContinuation line.body = true) (hne : pending ≠ []) :
    groups pending = [pending] := by
  induction pending with
  | nil => exact absurd rfl hne
  | cons line pending ih =>
    rw [groups, if_pos (h line List.mem_cons_self)]
    by_cases hrest : pending = []
    · simp [hrest, groups]
    · rw [ih (fun other hother => h other (List.mem_cons_of_mem _ hother)) hrest]

theorem groups_ended (h : ∀ line ∈ pending, hasContinuation line.body = true)
    (hline : hasContinuation line.body = false) :
    groups (pending ++ line :: lines) = (pending ++ [line]) :: groups lines := by
  induction pending with
  | nil => simp [groups, hline]
  | cons first pending ih =>
    rw [List.cons_append, groups, if_pos (h first List.mem_cons_self),
      ih fun other hother => h other (List.mem_cons_of_mem _ hother)]
    rfl

theorem groupText_append (before after : List PhysicalLine) :
    groupText (before ++ after) = groupText before ++ groupText after := List.flatMap_append

theorem groupText_continued (h : hasContinuation line.body = true) :
    groupText [line] = line.body.dropLast ++ [' '] := by
  simp [groupText, h]

theorem groupText_plain (h : hasContinuation line.body = false) : groupText [line] = line.body := by
  simp [groupText, h]

/-- Only a group of no lines has pending text that is empty. -/
theorem groupText_eq_nil (h : ∀ line ∈ pending, hasContinuation line.body = true) :
    groupText pending = [] ↔ pending = [] := by
  constructor
  · intro htext
    cases pending with
    | nil => rfl
    | cons first pending =>
      rw [← List.singleton_append, groupText_append, groupText_continued (h first List.mem_cons_self)] at htext
      simp at htext
  · rintro rfl
    rfl

theorem groupNumber_append (h : pending ≠ []) : groupNumber (pending ++ lines) = groupNumber pending := by
  cases pending with
  | nil => exact absurd rfl h
  | cons first pending => rfl

theorem ne_nil_of_hasContinuation {body : Text} (h : hasContinuation body = true) : body ≠ [] := by
  rintro rfl
  cases h

/-- The pass over the lines, with the lines that are pending. -/
theorem joinLines_eq (hl : Laid (number + 1) offset lines)
    (hp : ∀ line ∈ pending, hasContinuation line.body = true)
    (first : ℕ) (hfirst : pending ≠ [] → first = groupNumber pending) :
    joinLines number (groupText pending) first (lines.map (·.body)) =
      (groups (pending ++ lines.filter fun line => !isComment line.body)).map
        fun group => (groupText group, groupNumber group) := by
  induction lines generalizing number offset pending first with
  | nil =>
    rw [List.map_nil, List.filter_nil, List.append_nil, joinLines]
    by_cases hne : pending = []
    · subst hne
      rfl
    · rw [if_neg (by rwa [groupText_eq_nil hp]), groups_pending hp hne, hfirst hne]
      rfl
  | cons line lines ih =>
    obtain ⟨hnumber, -, -, hrest⟩ := hl
    rw [List.map_cons, joinLines]
    by_cases hcomment : isComment line.body = true
    · rw [if_pos hcomment, List.filter_cons_of_neg (by simp [hcomment])]
      exact ih hrest hp first hfirst
    · have hnow : (if groupText pending = [] then number + 1 else first) = groupNumber (pending ++ [line]) := by
        by_cases hne : pending = []
        · subst hne
          exact hnumber.symm
        · rw [if_neg (by rwa [groupText_eq_nil hp]), groupNumber_append hne, hfirst hne]
      rw [if_neg hcomment, List.filter_cons_of_pos (by simp [hcomment]), hnow]
      by_cases hcontinued : hasContinuation line.body = true
      · have hpending : ∀ other ∈ pending ++ [line], hasContinuation other.body = true := by
          intro other hother
          rcases List.mem_append.mp hother with hother | hother
          · exact hp other hother
          · rwa [List.mem_singleton.mp hother]
        have htext : (groupText pending ++ line.body).dropLast ++ [' '] = groupText (pending ++ [line]) := by
          rw [groupText_append, groupText_continued hcontinued,
            List.dropLast_append_of_ne_nil (ne_nil_of_hasContinuation hcontinued), List.append_assoc]
        rw [if_pos hcontinued, htext, List.append_cons pending line (lines.filter _)]
        exact ih hrest hpending _ fun _ => rfl
      · rw [Bool.not_eq_true] at hcontinued
        have htext : groupText pending ++ line.body = groupText (pending ++ [line]) := by
          rw [groupText_append, groupText_plain hcontinued]
        have hnil : ([] : Text) = groupText [] := rfl
        rw [if_neg (by simp [hcontinued]), groups_ended hp hcontinued, htext, List.map_cons, hnil]
        congr 1
        exact ih hrest (fun _ hmem => absurd hmem List.not_mem_nil) _ fun hne => absurd rfl hne

theorem body_layLines {raws : List Text} :
    (layLines number offset raws).map (·.body) = raws.map fun raw => (Text.splitEnding raw).1 := by
  induction raws generalizing number offset with
  | nil => rfl
  | cons raw raws ih => rw [layLines, List.map_cons, ih, List.map_cons]

theorem logicalLines_eq (content : Text) : logicalLines content = readLines content := by
  have hbodies : Text.lines (stripByteOrderMark content) =
      (physicalLines (stripByteOrderMark content)).map (·.body) := by
    rw [physicalLines, body_layLines, Text.lines]
  have hnil : ([] : Text) = groupText [] := rfl
  rw [logicalLines, hbodies, hnil]
  exact joinLines_eq (physicalLines_laid _) (fun _ hmem => absurd hmem List.not_mem_nil) 1
    fun hne => absurd rfl hne

theorem groupNumbers_sublist (lines : List PhysicalLine) :
    ((groups lines).map groupNumber).Sublist (lines.map (·.number)) := by
  induction lines with
  | nil => exact List.Sublist.slnil
  | cons line lines ih =>
    unfold groups
    split_ifs
    · split
      · simp [groupNumber]
      · rename_i group others hgroups
        rw [hgroups, List.map_cons] at ih
        exact ((List.sublist_cons_self _ _).trans ih).cons_cons _
    · exact ih.cons_cons _

theorem Laid.numbers_lt (h : Laid number offset lines) : (lines.map (·.number)).Pairwise (· < ·) := by
  induction lines generalizing number offset with
  | nil => exact List.Pairwise.nil
  | cons line lines ih =>
    obtain ⟨hnumber, -, -, hrest⟩ := h
    rw [List.map_cons, List.pairwise_cons]
    refine ⟨fun n hn => ?_, ih hrest⟩
    obtain ⟨later, hlater, rfl⟩ := List.mem_map.mp hn
    have := hrest.le_number hlater
    omega

theorem numbers_logicalLines (content : Text) : ((logicalLines content).map (·.2)).Pairwise (· < ·) := by
  rw [logicalLines_eq, readLines, List.map_map]
  have hread := (physicalLines_laid (stripByteOrderMark content)).numbers_lt
  exact (hread.sublist (List.filter_sublist.map _)).sublist (groupNumbers_sublist _)

end Groups

section Mark

variable {content : Text} {line : PhysicalLine} {c : Char} {raw : Text}

theorem splitEnding_cons (hc : c ≠ '\r') (hraw : raw ≠ []) :
    Text.splitEnding (c :: raw) = (c :: (Text.splitEnding raw).1, (Text.splitEnding raw).2) := by
  unfold Text.splitEnding
  rw [List.getLast?_cons_of_ne_nil hraw, List.dropLast_cons_of_ne_nil hraw]
  by_cases hlast : raw.getLast? = some '\n'
  · rw [if_pos hlast, if_pos hlast]
    by_cases hrest : raw.dropLast = []
    · simp [hrest, hc]
    · rw [List.getLast?_cons_of_ne_nil hrest, List.dropLast_cons_of_ne_nil hrest]
      split_ifs <;> rfl
  · rw [if_neg hlast, if_neg hlast]

theorem layLines_shift {number offset : ℕ} {raws : List Text} (h : line ∈ layLines number offset raws)
    (shifted : ℕ) : number ≤ line.number ∧ ∃ original ∈ layLines number shifted raws,
      original.number = line.number ∧ original.ending = line.ending ∧ original.body = line.body := by
  induction raws generalizing number offset shifted with
  | nil => cases h
  | cons raw raws ih =>
    rcases List.mem_cons.mp h with rfl | h
    · exact ⟨Nat.le_refl _, _, List.mem_cons_self, rfl, rfl, rfl⟩
    · obtain ⟨hnumber, original, horiginal, heq⟩ := ih h (shifted + Text.byteLen raw)
      exact ⟨by omega, original, List.mem_cons_of_mem _ horiginal, heq⟩

theorem pieces_cons (d : Char) (rest : Text) :
    ∃ first others, pieces d (c :: rest) = (c :: first) :: others := by
  unfold pieces
  split_ifs
  · exact ⟨[], _, rfl⟩
  · split
    · exact ⟨[], [], rfl⟩
    · exact ⟨_, _, rfl⟩

/-- The lines that are read are the lines of the document: only the byte order mark is gone from the first. -/
theorem physicalLines_stripped (h : line ∈ physicalLines (stripByteOrderMark content)) :
    ∃ original ∈ physicalLines content, original.number = line.number ∧ original.ending = line.ending ∧
      line.body = if line.number = 1 then stripByteOrderMark original.body else original.body := by
  cases content with
  | nil => cases h
  | cons c rest =>
    by_cases hmark : c = byteOrderMark
    · rw [stripByteOrderMark, if_pos hmark] at h
      have hc : c ≠ '\n' ∧ c ≠ '\r' := by
        rw [hmark]
        decide
      rw [physicalLines] at h
      rw [physicalLines, pieces, if_neg hc.1]
      cases hpieces : pieces '\n' rest with
      | nil =>
        rw [hpieces] at h
        cases h
      | cons first others =>
        have hfirst : first ≠ [] := pieces_ne_nil (hpieces ▸ List.mem_cons_self)
        rw [hpieces, layLines] at h
        simp only [layLines, splitEnding_cons hc.2 hfirst]
        rcases List.mem_cons.mp h with rfl | h
        · refine ⟨_, List.mem_cons_self, rfl, rfl, ?_⟩
          rw [if_pos rfl, stripByteOrderMark, if_pos hmark]
        · obtain ⟨hnumber, original, horiginal, hnumbers, hending, hbody⟩ := layLines_shift h _
          refine ⟨original, List.mem_cons_of_mem _ horiginal, hnumbers, hending, ?_⟩
          rw [if_neg (by omega), hbody]
    · rw [stripByteOrderMark, if_neg hmark] at h
      refine ⟨line, h, rfl, rfl, ?_⟩
      split_ifs with hnumber
      · obtain ⟨first, others, hpieces⟩ := @pieces_cons c '\n' rest
        rw [physicalLines, hpieces, layLines] at h
        rcases List.mem_cons.mp h with rfl | h
        · have happend := Text.splitEnding_append (c :: first)
          cases hbody : (Text.splitEnding (c :: first)).1 with
          | nil => rfl
          | cons c' body =>
            rw [hbody, List.cons_append, List.cons.injEq] at happend
            rw [stripByteOrderMark, if_neg (happend.1 ▸ hmark)]
        · have := (layLines_shift h 0).1
          omega
      · rfl

end Mark

section Result

variable {content : Text} {line : PhysicalLine}

/-- Bodies and endings of the lines, up to the end of the document. -/
theorem physicalLines_endings (content : Text) :
    (∀ line ∈ physicalLines content, '\n' ∉ line.body ∧ line.ending ∈ [[], ['\n'], ['\r', '\n']]) ∧
      ∀ line ∈ (physicalLines content).dropLast, line.ending ≠ [] := by
  constructor
  · intro line hline
    obtain ⟨i, hi⟩ := List.mem_iff_getElem?.mp hline
    rw [physicalLines, getElem?_layLines] at hi
    obtain ⟨raw, hraw, rfl⟩ := Option.map_eq_some_iff.mp hi
    exact ⟨splitEnding_body (pieces_delim_last (List.mem_of_getElem? hraw)), splitEnding_ending raw⟩
  · intro line hline
    obtain ⟨i, hi⟩ := List.mem_iff_getElem?.mp hline
    have hlength : (physicalLines content).length = (pieces '\n' content).length := by
      rw [← List.length_map, physicalLines, body_layLines, List.length_map]
    rw [List.getElem?_dropLast] at hi
    split_ifs at hi with hlt
    rw [physicalLines, getElem?_layLines] at hi
    obtain ⟨raw, hraw, rfl⟩ := Option.map_eq_some_iff.mp hi
    have hmem : raw ∈ (pieces '\n' content).dropLast := by
      refine List.mem_iff_getElem?.mpr ⟨i, ?_⟩
      rw [List.getElem?_dropLast, if_pos (by omega), hraw]
    exact splitEnding_ended (pieces_dropLast hmem)

/-- The physical lines tile a document, and its logical lines are the groups of its readable lines. -/
theorem document_lines (content : Text) :
    linesText (physicalLines content) = content ∧ Laid 1 0 (physicalLines content) ∧
      (∀ line ∈ physicalLines content, '\n' ∉ line.body ∧ line.ending ∈ [[], ['\n'], ['\r', '\n']]) ∧
      (∀ line ∈ (physicalLines content).dropLast, line.ending ≠ []) ∧
      logicalLines content = readLines content ∧
      ((logicalLines content).map (·.2)).Pairwise (· < ·) ∧
      ∀ line ∈ readable content, ∃ original ∈ physicalLines content, original.number = line.number ∧
        original.ending = line.ending ∧
        line.body = if line.number = 1 then stripByteOrderMark original.body else original.body :=
  ⟨linesText_physicalLines content, physicalLines_laid content, (physicalLines_endings content).1,
    (physicalLines_endings content).2, logicalLines_eq content, numbers_logicalLines content,
    fun _ hline => physicalLines_stripped (List.mem_of_mem_filter hline)⟩

end Result

end Lasper.Config
