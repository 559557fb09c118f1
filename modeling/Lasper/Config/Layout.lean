import Lasper.Config.Edit

/-! The layout of a document in physical lines, and what mutations of whole
lines do to it. The mutations are byte ranges of the original; applied from the
last to the first they stay good, because nothing before them has moved. -/

namespace Lasper.Config

open Lib

section Layout

/-- Consecutive numbers, consecutive ranges, no empty line. -/
def Laid : ℕ → ℕ → List PhysicalLine → Prop
  | _, _, [] => True
  | number, offset, line :: rest =>
    line.number = number ∧ line.start = offset ∧ line.raw ≠ [] ∧ Laid (number + 1) line.stop rest

variable {number offset : ℕ} {lines before after : List PhysicalLine} {line : PhysicalLine}

/-- The text of some lines. -/
def linesText (lines : List PhysicalLine) : Text := lines.flatMap (·.raw)

theorem linesText_append : linesText (before ++ after) = linesText before ++ linesText after :=
  List.flatMap_append

theorem linesText_cons : linesText (line :: after) = line.raw ++ linesText after := rfl

theorem layLines_laid {raws : List Text} (h : ∀ raw ∈ raws, raw ≠ []) :
    Laid number offset (layLines number offset raws) := by
  induction raws generalizing number offset with
  | nil => trivial
  | cons raw raws ih =>
    have hraw : (Text.splitEnding raw).1 ++ (Text.splitEnding raw).2 = raw := Text.splitEnding_append raw
    refine ⟨rfl, rfl, ?_, ?_⟩
    · show (Text.splitEnding raw).1 ++ (Text.splitEnding raw).2 ≠ []
      rw [hraw]
      exact h raw List.mem_cons_self
    · have hstop : PhysicalLine.stop ⟨number, offset, (Text.splitEnding raw).1, (Text.splitEnding raw).2⟩ =
          offset + Text.byteLen raw := by
        simp only [PhysicalLine.stop, PhysicalLine.raw, hraw]
      rw [hstop]
      exact ih fun r hr => h r (List.mem_cons_of_mem _ hr)

theorem linesText_layLines (raws : List Text) : linesText (layLines number offset raws) = raws.flatten := by
  induction raws generalizing number offset with
  | nil => rfl
  | cons raw raws ih =>
    have hraw : PhysicalLine.raw ⟨number, offset, (Text.splitEnding raw).1, (Text.splitEnding raw).2⟩ =
        raw := Text.splitEnding_append raw
    rw [layLines, linesText_cons, ih, List.flatten_cons, hraw]

theorem physicalLines_laid (content : Text) : Laid 1 0 (physicalLines content) :=
  layLines_laid fun _ hraw => pieces_ne_nil hraw

@[simp] theorem linesText_physicalLines (content : Text) : linesText (physicalLines content) = content := by
  rw [physicalLines, linesText_layLines, flatten_pieces]

theorem Laid.split (h : Laid number offset (before ++ after)) :
    Laid (number + before.length) (offset + Text.byteLen (linesText before)) after := by
  induction before generalizing number offset with
  | nil => simpa [linesText] using h
  | cons line before ih =>
    obtain ⟨-, hstart, -, hrest⟩ := h
    have := ih hrest
    rw [List.length_cons, linesText_cons, Text.byteLen_append]
    convert this using 1
    · omega
    · simp only [PhysicalLine.stop]; omega

theorem Laid.stop_le (h : Laid number offset lines) (hl : line ∈ lines) :
    line.stop ≤ offset + Text.byteLen (linesText lines) := by
  induction lines generalizing number offset with
  | nil => cases hl
  | cons first rest ih =>
    obtain ⟨-, hstart, -, hrest⟩ := h
    rw [linesText_cons, Text.byteLen_append]
    rcases List.mem_cons.mp hl with rfl | hl
    · simp only [PhysicalLine.stop]; omega
    · have := ih hrest hl
      simp only [PhysicalLine.stop] at this ⊢
      omega

theorem Laid.lt_stop (h : Laid number offset lines) (hl : line ∈ lines) : offset < line.stop := by
  induction lines generalizing number offset with
  | nil => cases hl
  | cons first rest ih =>
    obtain ⟨-, hstart, hne, hrest⟩ := h
    have hpos : 0 < Text.byteLen first.raw := Text.byteLen_pos hne
    rcases List.mem_cons.mp hl with rfl | hl
    · simp only [PhysicalLine.stop]; omega
    · have := ih hrest hl
      simp only [PhysicalLine.stop] at this ⊢
      omega

/-- The lines that end at or before a boundary are the ones in front of it. -/
theorem Laid.filter_stop (h : Laid number offset (before ++ after)) :
    (before ++ after).filter (·.stop ≤ offset + Text.byteLen (linesText before)) = before ∧
      (before ++ after).filter (¬ ·.stop ≤ offset + Text.byteLen (linesText before)) = after := by
  have hbefore : Laid number offset before := by
    induction before generalizing number offset with
    | nil => trivial
    | cons line before ih =>
      obtain ⟨hn, hs, hne, hrest⟩ := h
      exact ⟨hn, hs, hne, ih hrest⟩
  have hle : ∀ line ∈ before, line.stop ≤ offset + Text.byteLen (linesText before) :=
    fun line hl => hbefore.stop_le hl
  have hgt : ∀ line ∈ after, ¬ line.stop ≤ offset + Text.byteLen (linesText before) :=
    fun line hl => not_le.mpr (h.split.lt_stop hl)
  constructor
  · rw [List.filter_append, List.filter_eq_self.mpr (by simpa using hle),
      List.filter_eq_nil_iff.mpr (by simpa using hgt), List.append_nil]
  · rw [List.filter_append, List.filter_eq_nil_iff.mpr (by simpa using hle),
      List.filter_eq_self.mpr (by simpa using hgt), List.nil_append]

theorem Laid.le_number (h : Laid number offset lines) (hl : line ∈ lines) : number ≤ line.number := by
  induction lines generalizing number offset with
  | nil => cases hl
  | cons first rest ih =>
    obtain ⟨hn, -, -, hrest⟩ := h
    rcases List.mem_cons.mp hl with rfl | hl
    · omega
    · have := ih hrest hl
      omega

/-- Line `n` of a document is the `n`-th one. -/
theorem Laid.getElem?_eq_some (h : Laid number offset lines) {n : ℕ} (hn : number ≤ n) :
    lines[n - number]? = some line ↔ line ∈ lines ∧ line.number = n := by
  induction lines generalizing number offset with
  | nil => simp
  | cons first rest ih =>
    obtain ⟨hfirst, -, -, hrest⟩ := h
    have hlater : ∀ l ∈ rest, number < l.number := fun l hl => hrest.le_number hl
    rcases Nat.eq_or_lt_of_le hn with rfl | hn'
    · rw [Nat.sub_self]
      constructor
      · intro hf
        cases hf
        exact ⟨List.mem_cons_self, hfirst⟩
      · rintro ⟨hl, hnum⟩
        rcases List.mem_cons.mp hl with rfl | hl
        · rfl
        · have := hlater line hl
          omega
    · have hsucc : n - number = (n - (number + 1)) + 1 := by omega
      rw [hsucc, List.getElem?_cons_succ, ih hrest (by omega)]
      constructor
      · rintro ⟨hl, hnum⟩
        exact ⟨List.mem_cons_of_mem _ hl, hnum⟩
      · rintro ⟨hl, hnum⟩
        rcases List.mem_cons.mp hl with rfl | hl
        · omega
        · exact ⟨hl, hnum⟩

end Layout

section Application

variable {number offset : ℕ} {lines : List PhysicalLine}

theorem applyMutations_append (content : Text) (mutations : List SourceMutation)
    (mutation : SourceMutation) :
    applyMutations content (mutations ++ [mutation]) =
      (Text.replaceRange content mutation.start mutation.stop (mutation.replacement.getD [])).bind
        (applyMutations · mutations) := by
  unfold applyMutations
  rw [List.foldr_append]
  simp only [List.foldr_cons, List.foldr_nil, Option.bind_some]
  cases Text.replaceRange content mutation.start mutation.stop (mutation.replacement.getD []) with
  | some text => rfl
  | none =>
    induction mutations with
    | nil => rfl
    | cons first rest ih => rw [List.foldr_cons, ih]; rfl

/-- What stands for a line after an edit of some lines: `none` keeps the line. -/
def editedText (edit : PhysicalLine → Option (Option Text)) (line : PhysicalLine) : Text :=
  match edit line with
  | none => line.raw
  | some new => new.getD []

/-- Line mutations applied from the last to the first replace each line in its
place, whatever stands before and after these lines. -/
theorem applyMutations_lines (hl : Laid number offset lines) (edit : PhysicalLine → Option (Option Text))
    {before : Text} (hb : Text.byteLen before = offset) (after : Text) :
    applyMutations (before ++ linesText lines ++ after)
        (lines.filterMap fun line => (edit line).map (lineMutation line)) =
      some (before ++ lines.flatMap (editedText edit) ++ after) := by
  induction lines generalizing number offset before with
  | nil => rfl
  | cons line lines ih =>
    obtain ⟨-, hstart, -, hrest⟩ := hl
    have hb' : Text.byteLen (before ++ line.raw) = line.stop := by
      rw [Text.byteLen_append, hb, ← hstart]
      rfl
    have hih := ih hrest hb'
    rw [linesText_cons, List.flatMap_cons, List.filterMap_cons]
    cases he : edit line with
    | none =>
      have hkeep : editedText edit line = line.raw := by simp [editedText, he]
      rw [hkeep]
      simpa [List.append_assoc] using hih
    | some new =>
      have hnew : editedText edit line = new.getD [] := by simp [editedText, he]
      have happlied : applyMutations (before ++ (line.raw ++ linesText lines) ++ after)
          (lines.filterMap fun l => (edit l).map (lineMutation l)) =
          some (before ++ line.raw ++ (lines.flatMap (editedText edit) ++ after)) := by
        simpa [List.append_assoc] using hih
      have hrange : Text.replaceRange (before ++ line.raw ++ (lines.flatMap (editedText edit) ++ after))
          line.start line.stop (new.getD []) =
          some (before ++ new.getD [] ++ (lines.flatMap (editedText edit) ++ after)) := by
        have := Text.replaceRange_append (a := before) (b := line.raw)
          (c := lines.flatMap (editedText edit) ++ after) (r := new.getD [])
        rw [hb, ← hstart] at this
        exact this
      rw [hnew]
      show (applyMutations _ _).bind _ = _
      rw [happlied, Option.bind_some]
      show Text.replaceRange _ line.start line.stop (new.getD []) = _
      rw [hrange]
      simp [List.append_assoc]

end Application

section Insertion

variable {lines : List PhysicalLine} {point : InsertionPoint}

/-- An offset between two lines. -/
def Boundary (lines : List PhysicalLine) (offset : ℕ) : Prop :=
  ∃ front back, lines = front ++ back ∧ offset = Text.byteLen (linesText front)

theorem scanInsertion_boundary (hl : Laid 1 0 lines) (before rest : List PhysicalLine)
    (hsplit : lines = before ++ rest) (hp : Boundary lines point.offset) :
    Boundary lines (scanInsertion point rest).offset := by
  induction rest generalizing before point with
  | nil => exact hp
  | cons line rest ih =>
    have hsplit' : lines = (before ++ [line]) ++ rest := by rw [hsplit]; simp
    have hlaid := hl
    rw [hsplit] at hlaid
    obtain ⟨-, hstart, -⟩ := hlaid.split
    have hstart' : line.start = Text.byteLen (linesText before) := by rw [hstart, Nat.zero_add]
    have hfront : Boundary lines line.start := ⟨before, line :: rest, hsplit, hstart'⟩
    have hback : Boundary lines line.stop := by
      refine ⟨before ++ [line], rest, hsplit', ?_⟩
      rw [linesText_append, Text.byteLen_append, ← hstart']
      simp [PhysicalLine.stop, linesText]
    unfold scanInsertion
    dsimp only
    split_ifs
    · exact ih _ hsplit' hback
    · exact ih _ hsplit' hfront
    · exact ih _ hsplit' hp
    · exact hfront
    · exact ih _ hsplit' hback
    · exact ih _ hsplit' hp

theorem insertionPoint_boundary (content : Text) :
    Boundary (physicalLines content) (insertionPoint content).offset := by
  refine scanInsertion_boundary (physicalLines_laid content) [] _ rfl ?_
  exact ⟨physicalLines content, [], (List.append_nil _).symm, by rw [linesText_physicalLines]⟩

end Insertion

end Lasper.Config
