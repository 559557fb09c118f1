import Lasper.Lib.Text

/-! Text wrapped into rows of a terminal. A row breaks at white space where it can, and in a word
that is too long for it. How many cells a character takes is a parameter. -/

namespace Lasper.Tui.Wrapping

open Lib

section Wrapping

variable (cellWidth : Char → ℕ) (maxWidth : ℕ)

def rowWidth (row : Text) : ℕ := (row.map cellWidth).sum

/-- How many characters go into the row, and where its last white space ends. -/
def reach : Text → ℕ → ℕ → Option ℕ → ℕ × Option ℕ
  | [], _, hardEnd, whitespaceEnd => (hardEnd, whitespaceEnd)
  | c :: rest, currentWidth, hardEnd, whitespaceEnd =>
    if 0 < hardEnd ∧ maxWidth < currentWidth + cellWidth c then (hardEnd, whitespaceEnd)
    else reach rest (currentWidth + cellWidth c) (hardEnd + 1)
      (if isWhitespace c then some (hardEnd + 1) else whitespaceEnd)

/-- Where a text that is too long for one row is split. A word can fill the row, with its
separator the first character outside. -/
def splitPoint (remaining : Text) (hardEnd : ℕ) (whitespaceEnd : Option ℕ) : ℕ :=
  if (remaining.drop hardEnd).head?.any isWhitespace then hardEnd
  else (whitespaceEnd.filter (0 < ·)).getD hardEnd

/-- The rows of one line. -/
def wrapLine : ℕ → Text → List Text
  | 0, _ => []
  | fuel + 1, remaining =>
    if remaining = [] then []
    else
      let reached := reach cellWidth maxWidth remaining 0 0 none
      if reached.1 = remaining.length then [remaining.trimEnd]
      else
        let splitAt := splitPoint remaining reached.1 reached.2
        let wrapped := Text.trimEnd (remaining.take splitAt)
        (if wrapped = [] then [] else [wrapped]) ++ wrapLine fuel (Text.trimStart (remaining.drop splitAt))

def wrapSourceLine (line : Text) : List Text :=
  if line = [] then [[]] else wrapLine cellWidth maxWidth line.length line

def softWrapText (value : Text) : List Text :=
  let result := (value.splitOn '\n').flatMap (wrapSourceLine cellWidth (max maxWidth 1))
  if result = [] then [[]] else result

end Wrapping

/-! ## What the rows hold -/

/-- The characters that are not white space. -/
def visible (text : Text) : Text := text.filter (!isWhitespace ·)

/-- The words of a text. -/
def words (text : Text) : List Text := (text.splitOnP isWhitespace).filter (· ≠ [])

/-- A row fits if it has no more cells than the width, or one character. -/
def Fits (cellWidth : Char → ℕ) (maxWidth : ℕ) (row : Text) : Prop :=
  row.length ≤ 1 ∨ rowWidth cellWidth row ≤ maxWidth

section Visible

@[simp] theorem visible_append (a b : Text) : visible (a ++ b) = visible a ++ visible b :=
  List.filter_append ..

theorem visible_cons_white {c : Char} (hc : isWhitespace c = true) (text : Text) :
    visible (c :: text) = visible text :=
  List.filter_cons_of_neg (by rw [hc]; decide)

theorem visible_trimStart (text : Text) : visible text.trimStart = visible text := by
  rw [Text.trimStart]
  induction text with
  | nil => rfl
  | cons c text ih =>
    rw [List.dropWhile_cons]
    split
    · rename_i hc
      rw [ih, visible_cons_white hc]
    · rfl

theorem visible_trimEnd (text : Text) : visible text.trimEnd = visible text := by
  rw [Text.trimEnd]
  induction text using List.reverseRecOn with
  | nil => rfl
  | append_singleton text c ih =>
    rw [List.rdropWhile_concat]
    split
    · rename_i hc
      rw [ih, visible_append, visible_cons_white hc]
      exact (List.append_nil _).symm
    · rfl

theorem visible_lines (lines : List Text) :
    visible (['\n'].intercalate lines) = visible lines.flatten := by
  induction lines with
  | nil => rfl
  | cons line lines ih =>
    by_cases hlines : lines = []
    · rw [hlines, List.intercalate_singleton, List.flatten_singleton]
    · rw [List.intercalate_cons_of_ne_nil hlines, List.append_assoc, visible_append, List.singleton_append,
        visible_cons_white (by decide), ih, List.flatten_cons, visible_append]

end Visible

section Words

theorem words_break {c : Char} (hc : isWhitespace c = true) (a b : Text) :
    words (a ++ c :: b) = words a ++ words b := by
  rw [words, List.splitOnP_append_cons a b hc, List.filter_append]
  rfl

theorem words_cons_white {c : Char} (hc : isWhitespace c = true) (text : Text) :
    words (c :: text) = words text :=
  words_break hc [] text

theorem words_concat_white {c : Char} (hc : isWhitespace c = true) (text : Text) :
    words (text ++ [c]) = words text :=
  (words_break hc text []).trans (List.append_nil _)

theorem words_unbroken {text : Text} (hne : text ≠ []) (h : ∀ c ∈ text, isWhitespace c = false) :
    words text = [text] := by
  rw [words, List.splitOnP_eq_singleton h]
  exact List.filter_cons_of_pos (decide_eq_true hne)

theorem words_trimStart (text : Text) : words text.trimStart = words text := by
  rw [Text.trimStart]
  induction text with
  | nil => rfl
  | cons c text ih =>
    rw [List.dropWhile_cons]
    split
    · rename_i hc
      rw [ih, words_cons_white hc]
    · rfl

theorem words_trimEnd (text : Text) : words text.trimEnd = words text := by
  rw [Text.trimEnd]
  induction text using List.reverseRecOn with
  | nil => rfl
  | append_singleton text c ih =>
    rw [List.rdropWhile_concat]
    split
    · rename_i hc
      rw [ih, words_concat_white hc]
    · rfl

theorem words_lines (lines : List Text) : words (['\n'].intercalate lines) = lines.flatMap words := by
  induction lines with
  | nil => rfl
  | cons line lines ih =>
    by_cases hlines : lines = []
    · rw [hlines, List.intercalate_singleton, List.flatMap_singleton]
    · rw [List.intercalate_cons_of_ne_nil hlines, List.append_assoc, List.singleton_append,
        words_break (by decide), ih, List.flatMap_cons]

/-- A break is at the end of the first part, or at the start of the second. -/
def Breaks (a b : Text) : Prop :=
  (∃ front c, isWhitespace c = true ∧ a = front ++ [c]) ∨ b.head?.all isWhitespace = true

theorem Breaks.words {a b : Text} (h : Breaks a b) : words (a ++ b) = words a ++ words b := by
  obtain ⟨front, c, hc, rfl⟩ | h := h
  · rw [List.append_assoc, List.singleton_append, words_break hc, words_concat_white hc]
  · cases b with
    | nil => rw [List.append_nil]; exact (List.append_nil _).symm
    | cons c b =>
      have hc : isWhitespace c = true := h
      rw [words_break hc, words_cons_white hc]

/-- Text without white space is in one word, with what follows it up to the next white space. -/
theorem exists_word {a : Text} (hne : a ≠ []) (h : ∀ c ∈ a, isWhitespace c = false) (b : Text) :
    ∃ word ∈ words (a ++ b), a <+: word := by
  have hbreak : Breaks (a ++ b.takeWhile (!isWhitespace ·)) (b.dropWhile (!isWhitespace ·)) := by
    right
    cases hrest : b.dropWhile (!isWhitespace ·) with
    | nil => rfl
    | cons c rest =>
      have hrest' : b.dropWhile (!isWhitespace ·) ≠ [] := by
        rw [hrest]
        exact List.cons_ne_nil c rest
      simpa [hrest] using List.head_dropWhile_not (!isWhitespace ·) hrest'
  have hword : ∀ c ∈ a ++ b.takeWhile (!isWhitespace ·), isWhitespace c = false := by
    intro c hc
    obtain hc | hc := List.mem_append.mp hc
    · exact h c hc
    · simpa using List.mem_takeWhile_imp hc
  have hsplit : a ++ b = a ++ b.takeWhile (!isWhitespace ·) ++ b.dropWhile (!isWhitespace ·) := by
    rw [List.append_assoc, List.takeWhile_append_dropWhile]
  refine ⟨a ++ b.takeWhile (!isWhitespace ·), ?_, List.prefix_append _ _⟩
  rw [hsplit, hbreak.words, words_unbroken (List.append_ne_nil_of_left_ne_nil hne _) hword]
  exact List.mem_append_left _ (List.mem_singleton.mpr rfl)

theorem flatten_pieces (text : Text) : (text.splitOnP isWhitespace).flatten = visible text := by
  induction text with
  | nil => rfl
  | cons c text ih =>
    rw [List.splitOnP_cons_eq_if_modifyHead]
    split
    · rename_i hc
      rw [List.flatten_cons, List.nil_append, ih, visible_cons_white hc]
    · rename_i hc
      obtain ⟨piece, pieces, hpieces⟩ :=
        List.exists_cons_of_ne_nil (List.splitOnP_ne_nil isWhitespace text)
      rw [hpieces, List.flatten_cons] at ih
      rw [hpieces, List.modifyHead_cons, List.flatten_cons, List.cons_append, ih]
      exact (List.filter_cons_of_pos (by simpa using hc)).symm

theorem word_sublist {word text : Text} (h : word ∈ words text) : word.Sublist text := by
  have hpiece : word ∈ text.splitOnP isWhitespace := (List.mem_filter.mp h).1
  have hvisible : word.Sublist (visible text) := by
    rw [← flatten_pieces]
    exact List.sublist_flatten_of_mem hpiece
  exact hvisible.trans List.filter_sublist

end Words

section Rows

variable {cellWidth : Char → ℕ} {maxWidth : ℕ}

theorem rowWidth_sublist {row part : Text} (h : part.Sublist row) :
    rowWidth cellWidth part ≤ rowWidth cellWidth row := by
  have hcons (c : Char) (text : Text) :
      rowWidth cellWidth (c :: text) = cellWidth c + rowWidth cellWidth text := List.sum_cons
  induction h with
  | slnil => exact le_refl _
  | cons c _ ih =>
    rw [hcons]
    omega
  | cons_cons c _ ih =>
    rw [hcons, hcons]
    omega

theorem Fits.sublist {row part : Text} (h : Fits cellWidth maxWidth row) (hpart : part.Sublist row) :
    Fits cellWidth maxWidth part := by
  obtain h | h := h
  · exact .inl (hpart.length_le.trans h)
  · exact .inr ((rowWidth_sublist hpart).trans h)

theorem Fits.front {row front : Text} (h : Fits cellWidth maxWidth row) (hfront : front <+: row) :
    Fits cellWidth maxWidth front :=
  h.sublist hfront.sublist

theorem trimEnd_front (text : Text) : text.trimEnd <+: text := List.rdropWhile_prefix _ _

/-- Where the last white space of a row ends. -/
def Marks (row : Text) : Option ℕ → Prop
  | none => ∀ c ∈ row, isWhitespace c = false
  | some stop => ∃ front c back, isWhitespace c = true ∧ row = front ++ c :: back ∧
      stop = front.length + 1

theorem Marks.concat {row : Text} {found : Option ℕ} (h : Marks row found) (c : Char) :
    Marks (row ++ [c]) (if isWhitespace c then some (row.length + 1) else found) := by
  split
  · rename_i hc
    exact ⟨row, c, [], hc, rfl, rfl⟩
  · rename_i hc
    cases found with
    | none =>
      intro d hd
      obtain hd | hd := List.mem_append.mp hd
      · exact h d hd
      · rw [List.mem_singleton.mp hd]
        exact Bool.not_eq_true _ ▸ hc
    | some stop =>
      obtain ⟨front, d, back, hd, rfl, hstop⟩ := h
      exact ⟨front, d, back ++ [c], hd, by simp, hstop⟩

/-- A row takes one character at least, and as many as fit. -/
theorem reach_spec (rest done : Text) (whitespaceEnd : Option ℕ) (hfits : Fits cellWidth maxWidth done)
    (hmarks : Marks done whitespaceEnd) {hardEnd : ℕ} {found : Option ℕ}
    (h : reach cellWidth maxWidth rest (rowWidth cellWidth done) done.length whitespaceEnd =
      (hardEnd, found)) :
    ∃ row back, done ++ rest = row ++ back ∧ hardEnd = row.length ∧
      (done ++ rest ≠ [] → row ≠ []) ∧ Fits cellWidth maxWidth row ∧ Marks row found ∧
      (∀ c ∈ back.head?, ¬ Fits cellWidth maxWidth (row ++ [c])) := by
  induction rest generalizing done whitespaceEnd with
  | nil =>
    rw [reach] at h
    cases h
    refine ⟨done, [], rfl, rfl, fun hne => ?_, hfits, hmarks, ?_⟩
    · rwa [List.append_nil] at hne
    · exact fun c hc => absurd hc (Option.not_mem_none c)
  | cons c rest ih =>
    rw [reach] at h
    have hwidth : rowWidth cellWidth (done ++ [c]) = rowWidth cellWidth done + cellWidth c := by
      simp [rowWidth]
    have hlength : (done ++ [c]).length = done.length + 1 := by simp
    split at h
    · rename_i hstop
      cases h
      refine ⟨done, c :: rest, rfl, rfl, fun _ => ?_, hfits, hmarks, ?_⟩
      · exact List.length_pos_iff.mp hstop.1
      · intro d hd
        cases hd
        rw [Fits, hwidth, hlength]
        omega
    · rename_i hgo
      have hnext : Fits cellWidth maxWidth (done ++ [c]) := by
        rw [Fits, hwidth, hlength]
        omega
      rw [← hwidth, ← hlength] at h
      have hmarks' : Marks (done ++ [c])
          (if isWhitespace c then some ((done ++ [c]).length) else whitespaceEnd) := by
        rw [hlength]
        exact hmarks.concat c
      obtain ⟨row, back, hsplit, hrow⟩ := ih (done ++ [c]) _ hnext hmarks' h
      rw [List.append_assoc, List.singleton_append] at hsplit hrow
      exact ⟨row, back, hsplit, hrow⟩

/-- A row is split at a break, except in a word that does not fit. -/
theorem splitPoint_spec {row back : Text} {found : Option ℕ} (hne : row ≠ []) (hback : back ≠ [])
    (hmarks : Marks row found) (hover : ∀ c ∈ back.head?, ¬ Fits cellWidth maxWidth (row ++ [c])) :
    ∃ first rest, row ++ back = first ++ rest ∧ splitPoint (row ++ back) row.length found = first.length ∧
      first ≠ [] ∧ first <+: row ∧
      (Breaks first rest ∨ ∃ word ∈ words (row ++ back), ¬ Fits cellWidth maxWidth word) := by
  obtain ⟨c, after, rfl⟩ := List.exists_cons_of_ne_nil hback
  rw [splitPoint, List.drop_left]
  split
  · rename_i hc
    exact ⟨row, c :: after, rfl, rfl, hne, List.prefix_refl row, .inl (.inr hc)⟩
  · rename_i hc
    cases found with
    | none =>
      have hword : ∀ d ∈ row ++ [c], isWhitespace d = false := by
        intro d hd
        obtain hd | hd := List.mem_append.mp hd
        · exact hmarks d hd
        · rw [List.mem_singleton.mp hd]
          simpa using hc
      obtain ⟨word, hmem, hprefix⟩ := exists_word (List.append_ne_nil_of_left_ne_nil hne [c]) hword after
      rw [List.append_assoc, List.singleton_append] at hmem
      refine ⟨row, c :: after, rfl, rfl, hne, List.prefix_refl row, .inr ⟨word, hmem, fun hfits => ?_⟩⟩
      exact hover c rfl (hfits.front hprefix)
    | some stop =>
      obtain ⟨front, d, tail, hd, rfl, rfl⟩ := hmarks
      refine ⟨front ++ [d], tail ++ c :: after, by simp, ?_, by simp, ?_, ?_⟩
      · rw [Option.filter_some, if_pos (by simp)]
        simp
      · exact ⟨tail, by simp⟩
      · exact .inl (.inl ⟨front, d, hd, rfl⟩)

theorem flatten_row (row : Text) : (if row = [] then [] else [row]).flatten = row := by
  split
  · rename_i hblank
    rw [hblank]
    rfl
  · exact List.flatten_singleton

theorem words_row (row : Text) : (if row = [] then [] else [row]).flatMap words = words row := by
  split
  · rename_i hblank
    rw [hblank]
    rfl
  · exact List.flatMap_singleton ..

/-- Rows that fit and show what the line shows. Its words are whole if each of them fits. -/
structure Rows (cellWidth : Char → ℕ) (maxWidth : ℕ) (line : Text) (rows : List Text) : Prop where
  fit : ∀ row ∈ rows, Fits cellWidth maxWidth row
  shown : visible rows.flatten = visible line
  whole : (∀ word ∈ words line, Fits cellWidth maxWidth word) → rows.flatMap words = words line

theorem Rows.nil : Rows cellWidth maxWidth [] [] :=
  ⟨fun _ hrow => absurd hrow List.not_mem_nil, rfl, fun _ => rfl⟩

theorem wrapLine_rows (fuel : ℕ) (line : Text) (hfuel : line.length ≤ fuel) :
    Rows cellWidth maxWidth line (wrapLine cellWidth maxWidth fuel line) := by
  induction fuel generalizing line with
  | zero =>
    rw [List.length_eq_zero_iff.mp (Nat.le_zero.mp hfuel)]
    exact Rows.nil
  | succ fuel ih =>
    rw [wrapLine]
    split
    · rename_i hempty
      rw [hempty]
      exact Rows.nil
    · rename_i hne
      generalize hreached : reach cellWidth maxWidth line 0 0 none = reached
      obtain ⟨hardEnd, found⟩ := reached
      obtain ⟨row, back, hsplit, hend, hrow, hfits, hmarks, hover⟩ := reach_spec line [] none
        (.inl (Nat.zero_le 1)) (fun c hc => absurd hc List.not_mem_nil) hreached
      rw [List.nil_append] at hsplit hrow
      subst hsplit hend
      dsimp only
      split
      · rename_i hall
        have hback : back = [] := by
          rw [List.length_append] at hall
          exact List.length_eq_zero_iff.mp (by omega)
        rw [hback, List.append_nil]
        refine ⟨fun row' hrow' => ?_, ?_, fun _ => ?_⟩
        · rw [List.mem_singleton.mp hrow']
          exact hfits.front (trimEnd_front row)
        · rw [List.flatten_singleton, visible_trimEnd]
        · rw [List.flatMap_singleton, words_trimEnd]
      · rename_i hmore
        have hback : back ≠ [] := fun hnil => hmore (by rw [hnil, List.append_nil])
        obtain ⟨first, rest, hparts, hat, hfirst, hfront, hbreak⟩ :=
          splitPoint_spec (hrow hne) hback hmarks hover
        rw [hat, hparts, List.take_left, List.drop_left]
        rw [hparts] at hbreak hfuel
        -- The first part is not empty, so the rest has fuel enough.
        have hlength : rest.trimStart.length ≤ fuel := by
          have htrim : rest.trimStart.length ≤ rest.length := (List.dropWhile_sublist _).length_le
          have hpos : 0 < first.length := List.length_pos_iff.mpr hfirst
          rw [List.length_append] at hfuel
          omega
        obtain ⟨hfit, hshown, hwhole⟩ := ih _ hlength
        refine ⟨fun row' hrow' => ?_, ?_, fun hall => ?_⟩
        · obtain hrow' | hrow' := List.mem_append.mp hrow'
          · split at hrow'
            · exact absurd hrow' List.not_mem_nil
            · rw [List.mem_singleton.mp hrow']
              exact hfits.front ((trimEnd_front first).trans hfront)
          · exact hfit row' hrow'
        · rw [List.flatten_append, visible_append, flatten_row, hshown, visible_trimEnd,
            visible_trimStart, visible_append]
        · obtain hbreak | ⟨word, hword, hlong⟩ := hbreak
          · rw [hbreak.words] at hall ⊢
            rw [words_trimStart] at hwhole
            rw [List.flatMap_append, words_row, words_trimEnd,
              hwhole fun word hword => hall word (List.mem_append_right _ hword)]
          · exact absurd (hall word hword) hlong

theorem wrapSourceLine_rows (line : Text) :
    Rows cellWidth maxWidth line (wrapSourceLine cellWidth maxWidth line) := by
  rw [wrapSourceLine]
  split
  · rename_i hempty
    rw [hempty]
    exact ⟨fun row hrow => .inl (by rw [List.mem_singleton.mp hrow]; exact Nat.zero_le 1), rfl, fun _ => rfl⟩
  · exact wrapLine_rows line.length line (le_refl _)

theorem wrapLines_rows (lines : List Text) :
    Rows cellWidth maxWidth (['\n'].intercalate lines)
      (lines.flatMap (wrapSourceLine cellWidth maxWidth)) := by
  have hline (line : Text) := @wrapSourceLine_rows cellWidth maxWidth line
  refine ⟨fun row hrow => ?_, ?_, fun hall => ?_⟩
  · obtain ⟨line, -, hrow⟩ := List.mem_flatMap.mp hrow
    exact (hline line).fit row hrow
  · rw [visible_lines]
    clear * -
    induction lines with
    | nil => rfl
    | cons line lines ih =>
      rw [List.flatMap_cons, List.flatten_append, visible_append, (wrapSourceLine_rows line).shown, ih,
        List.flatten_cons, visible_append]
  · rw [words_lines] at hall ⊢
    rw [List.flatMap_assoc]
    exact List.flatMap_congr fun line hmem =>
      (hline line).whole fun word hword => hall word (List.mem_flatMap.mpr ⟨line, hmem, hword⟩)

/-- Wrapping keeps what is visible of a text, in its order. Each row fits the width, or holds one
character that is too wide for it. The words stay whole exactly if each of them fits. -/
theorem softWrapText_rows (cellWidth : Char → ℕ) (maxWidth : ℕ) (value : Text) :
    softWrapText cellWidth maxWidth value ≠ [] ∧
      (∀ row ∈ softWrapText cellWidth maxWidth value, Fits cellWidth (max maxWidth 1) row) ∧
      visible (softWrapText cellWidth maxWidth value).flatten = visible value ∧
      ((softWrapText cellWidth maxWidth value).flatMap words = words value ↔
        ∀ word ∈ words value, Fits cellWidth (max maxWidth 1) word) := by
  have hrows := @wrapLines_rows cellWidth (max maxWidth 1) (value.splitOn '\n')
  rw [List.intercalate_splitOn] at hrows
  have hresult : softWrapText cellWidth maxWidth value ≠ [] ∧
      Rows cellWidth (max maxWidth 1) value (softWrapText cellWidth maxWidth value) := by
    rw [softWrapText]
    split
    · rename_i hempty
      rw [hempty] at hrows
      refine ⟨List.cons_ne_nil [] [], fun row hrow => .inl ?_, hrows.shown, hrows.whole⟩
      rw [List.mem_singleton.mp hrow]
      exact Nat.zero_le 1
    · rename_i hne
      exact ⟨hne, hrows⟩
  obtain ⟨hne, hfit, hshown, hwhole⟩ := hresult
  refine ⟨hne, hfit, hshown, fun hwords word hword => ?_, hwhole⟩
  rw [← hwords] at hword
  obtain ⟨row, hrow, hword⟩ := List.mem_flatMap.mp hword
  exact (hfit row hrow).sublist (word_sublist hword)

end Rows

end Lasper.Tui.Wrapping
