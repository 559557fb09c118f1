import Lasper.Lib.Checked
import Lasper.Nvidia.Markers

/-! What the surgery does to the rest of the file. A bind of the administrator
stands in the way or is dropped as a repetition; and what remains is found again
around the new block. -/

namespace Lasper.Nvidia

open Lib Config

section Rewriting

variable (newBinds removedBinds : List NspawnBindSemantics)

/-- The line says what a new or a removed bind says. -/
def repeats (line : Text) : Bool :=
  (parseNspawnBindLine line).any fun bind => bind ∈ newBinds ∨ bind ∈ removedBinds

/-- Another bind to the destination of a new one. -/
def conflicts (line : Text) : Prop :=
  ∃ bind, parseNspawnBindLine line = some bind ∧ bind ∉ newBinds ∧ bind ∉ removedBinds ∧
    bind.destination ∈ newBinds.map (·.destination)

/-- The lines without the repetitions in sections of files. -/
def strip : Bool → List Text → List Text
  | _, [] => []
  | inFiles, line :: rest =>
    if isSectionHeader line = false ∧ inFiles = true ∧ repeats newBinds removedBinds line = true then strip inFiles rest
    else line :: strip (filesAfter inFiles line) rest

/-- Some line in a section of files conflicts. -/
def Conflicting : Bool → List Text → Prop
  | _, [] => False
  | inFiles, line :: rest =>
    (isSectionHeader line = false ∧ inFiles = true ∧ conflicts newBinds removedBinds line) ∨
      Conflicting (filesAfter inFiles line) rest

variable {newBinds removedBinds}

theorem strip_line (inFiles : Bool) (line : Text) (rest : List Text) :
    strip newBinds removedBinds inFiles (line :: rest) =
      if isSectionHeader line = false ∧ inFiles = true ∧ repeats newBinds removedBinds line = true then
        strip newBinds removedBinds inFiles rest
      else line :: strip newBinds removedBinds (filesAfter inFiles line) rest := rfl

theorem strip_append (inFiles : Bool) (front back : List Text) :
    strip newBinds removedBinds inFiles (front ++ back) =
      strip newBinds removedBinds inFiles front ++ strip newBinds removedBinds (inFilesAfter inFiles front) back := by
  induction front generalizing inFiles with
  | nil => rfl
  | cons line front ih =>
    rw [List.cons_append, strip_line, strip_line, inFilesAfter, List.foldl_cons, ← inFilesAfter]
    split_ifs with h
    · rw [filesAfter_of_not_header h.1]
      exact ih inFiles
    · rw [List.cons_append, ih]

theorem strip_cons (inFiles : Bool) (line : Text) (rest : List Text) :
    strip newBinds removedBinds inFiles (line :: rest) =
      strip newBinds removedBinds inFiles [line] ++ strip newBinds removedBinds (filesAfter inFiles line) rest :=
  strip_append inFiles [line] rest

theorem inFilesAfter_strip (newBinds removedBinds : List NspawnBindSemantics) (inFiles : Bool) (lines : List Text) :
    inFilesAfter inFiles (strip newBinds removedBinds inFiles lines) = inFilesAfter inFiles lines := by
  induction lines generalizing inFiles with
  | nil => rfl
  | cons line lines ih =>
    rw [strip_line, inFilesAfter, inFilesAfter, List.foldl_cons, ← inFilesAfter, ← inFilesAfter]
    split_ifs with h
    · rw [filesAfter_of_not_header h.1]
      exact ih inFiles
    · rw [inFilesAfter, List.foldl_cons]
      exact ih _

theorem strip_sublist (newBinds removedBinds : List NspawnBindSemantics) (inFiles : Bool) (lines : List Text) :
    (strip newBinds removedBinds inFiles lines).Sublist lines := by
  induction lines generalizing inFiles with
  | nil => exact List.Sublist.refl []
  | cons line lines ih =>
    rw [strip_line]
    split_ifs with h
    · exact (ih inFiles).cons line
    · exact (ih _).cons_cons line

theorem Unmarked.strip (newBinds removedBinds : List NspawnBindSemantics) {inFiles : Bool} {lines : List Text}
    (h : Unmarked inFiles lines) :
    Unmarked inFiles (Nvidia.strip newBinds removedBinds inFiles lines) := by
  induction lines generalizing inFiles with
  | nil => exact trivial
  | cons line lines ih =>
    obtain ⟨hline, hrest⟩ := h
    rw [strip_line]
    split_ifs with hdrop
    · rw [filesAfter_of_not_header hdrop.1] at hrest
      exact ih hrest
    · exact ⟨hline, ih hrest⟩

/-- What one line that is no header does to the rewriting. -/
theorem rewriteStep_line (newBinds removedBinds : List NspawnBindSemantics) (s : RewriteState) {line : Text} (h : isSectionHeader line = false) :
    ∃ found, rewriteStep newBinds removedBinds s line =
      { s with
        result := s.result ++ strip newBinds removedBinds s.inFiles [line]
        conflicts := s.conflicts ++ found } ∧
      (found = [] ↔ ¬ Conflicting newBinds removedBinds s.inFiles [line]) := by
  obtain ⟨result, inFiles, seen, filesOpen, insertAt, before⟩ := s
  simp only [rewriteStep, isSectionHeader_lineBody, parseNspawnBindLine_lineBody, h, Bool.false_eq_true, if_false,
    strip, Conflicting, or_false, true_and]
  cases inFiles with
  | false => exact ⟨[], by simp, by simp⟩
  | true =>
    cases hbind : parseNspawnBindLine line with
    | none => exact ⟨[], by simp [repeats, hbind], by simp [conflicts, hbind]⟩
    | some bind =>
      by_cases hrepeats : bind ∈ newBinds ∨ bind ∈ removedBinds
      · refine ⟨[], by simp [repeats, hbind, hrepeats], ?_⟩
        simp only [true_iff]
        rintro ⟨-, other, hother, hnew, hremoved, -⟩
        cases hbind.symm.trans hother
        exact hrepeats.elim hnew hremoved
      · by_cases hdestination : bind.destination ∈ newBinds.map (·.destination)
        · refine ⟨[bind.destination], ?_, ?_⟩
          · simp only [if_true, hrepeats, if_false, hdestination]
            simp [repeats, hbind, hrepeats]
          rw [not_or] at hrepeats
          simp only [List.cons_ne_nil, false_iff, not_not]
          exact ⟨trivial, bind, hbind, hrepeats.1, hrepeats.2, hdestination⟩
        · refine ⟨[], ?_, ?_⟩
          · simp only [if_true, hrepeats, if_false, hdestination]
            simp [repeats, hbind, hrepeats]
          simp only [true_iff]
          rintro ⟨-, other, hother, -, -, hother'⟩
          cases hbind.symm.trans hother
          exact hdestination hother'

theorem rewriteStep_header (s : RewriteState) {line : Text} (h : isSectionHeader line = true) :
    rewriteStep newBinds removedBinds s line = rewriteHeader s line := by
  simp [rewriteStep, h]

/-- The rewriting keeps all lines but the repetitions, and notes every conflict. -/
theorem rewrite_lines (newBinds removedBinds : List NspawnBindSemantics) (s : RewriteState) (lines : List Text) :
    (lines.foldl (rewriteStep newBinds removedBinds) s).result =
      s.result ++ strip newBinds removedBinds s.inFiles lines ∧
    ((lines.foldl (rewriteStep newBinds removedBinds) s).conflicts = [] ↔
      s.conflicts = [] ∧ ¬ Conflicting newBinds removedBinds s.inFiles lines) := by
  induction lines generalizing s with
  | nil => simp [strip, Conflicting]
  | cons line lines ih =>
    rw [List.foldl_cons]
    obtain ⟨hresult, hconflicts⟩ := ih (rewriteStep newBinds removedBinds s line)
    rw [hresult, hconflicts, strip, Conflicting]
    cases hheader : isSectionHeader line with
    | true =>
      rw [rewriteStep_header s hheader, filesAfter_of_header hheader]
      have hfiles : (rewriteHeader s line).inFiles = isFilesSection line := by
        simp [rewriteHeader]
      rw [hfiles]
      simp [rewriteHeader]
    | false =>
      obtain ⟨found, hstep, hfound⟩ := rewriteStep_line newBinds removedBinds s hheader
      rw [hstep, filesAfter_of_not_header hheader]
      simp only [strip, Conflicting, or_false, hheader, true_and, List.append_eq_nil_iff] at hfound ⊢
      refine ⟨?_, ?_⟩
      · split_ifs <;> simp
      · rw [hfound, not_or, and_assoc]

/-- The lines up to the end of the first section of files, and the rest. -/
def filesSpan : List Text → Option (List Text × List Text)
  | [] => none
  | line :: rest =>
    if isSectionHeader line && isFilesSection line then
      some (line :: rest.takeWhile (! isSectionHeader ·), rest.dropWhile (! isSectionHeader ·))
    else (filesSpan rest).map fun (front, back) => (line :: front, back)

theorem filesSpan_append {lines front back : List Text} (h : filesSpan lines = some (front, back)) :
    lines = front ++ back := by
  induction lines generalizing front back with
  | nil => cases h
  | cons line lines ih =>
    unfold filesSpan at h
    split_ifs at h with hfiles
    · cases h
      rw [List.cons_append, List.takeWhile_append_dropWhile]
    · obtain ⟨⟨front', back'⟩, hrest, hsplit⟩ := Option.map_eq_some_iff.mp h
      cases hsplit
      rw [List.cons_append, ← ih hrest]

/-- Once the first section of files is over, the place of the block is fixed. -/
theorem rewrite_placed {s : RewriteState} (hseen : s.firstFilesSeen = true) (hopen : s.firstFilesOpen = false)
    (lines : List Text) :
    insertionOffset (lines.foldl (rewriteStep newBinds removedBinds) s) = s.insertAt := by
  induction lines generalizing s with
  | nil => rw [List.foldl_nil, insertionOffset, hopen, if_neg Bool.false_ne_true]
  | cons line lines ih =>
    rw [List.foldl_cons]
    cases hheader : isSectionHeader line with
    | true =>
      rw [rewriteStep_header s hheader, ih]
      · simp [rewriteHeader, hopen]
      · simp [rewriteHeader, hseen]
      · simp [rewriteHeader, hseen]
    | false =>
      obtain ⟨found, hstep, -⟩ := rewriteStep_line newBinds removedBinds s hheader
      rw [hstep, ih]
      · exact hseen
      · exact hopen

/-- In the first section of files, the block goes behind the lines of the section. -/
theorem rewrite_within {s : RewriteState} (hseen : s.firstFilesSeen = true) (hopen : s.firstFilesOpen = true)
    (hfiles : s.inFiles = true) (lines : List Text) :
    insertionOffset (lines.foldl (rewriteStep newBinds removedBinds) s) =
      some (s.result.length + (strip newBinds removedBinds true (lines.takeWhile (! isSectionHeader ·))).length) := by
  induction lines generalizing s with
  | nil =>
    rw [List.foldl_nil, insertionOffset, if_pos hopen]
    rfl
  | cons line lines ih =>
    rw [List.foldl_cons]
    cases hheader : isSectionHeader line with
    | true =>
      rw [rewriteStep_header s hheader, rewrite_placed, List.takeWhile_cons_of_neg (by simp [hheader])]
      · simp [rewriteHeader, hopen, strip]
      · simp [rewriteHeader, hseen]
      · simp [rewriteHeader, hseen]
    | false =>
      obtain ⟨found, hstep, -⟩ := rewriteStep_line newBinds removedBinds s hheader
      rw [hstep, ih]
      · rw [List.takeWhile_cons_of_pos (by simp [hheader]), strip_cons true line (lines.takeWhile _),
          filesAfter_of_not_header hheader, hfiles, List.length_append, List.length_append, Nat.add_assoc]
      · exact hseen
      · exact hopen
      · exact hfiles

/-- Outside sections of files nothing is stripped. -/
theorem strip_of_no_files {lines : List Text} (h : filesSpan lines = none) :
    strip newBinds removedBinds false lines = lines := by
  induction lines with
  | nil => rfl
  | cons line lines ih =>
    unfold filesSpan at h
    split_ifs at h with hfiles
    have hrest : filesSpan lines = none := Option.map_eq_none_iff.mp h
    have hafter : filesAfter false line = false := by
      unfold filesAfter
      split_ifs with hheader
      · simpa [hheader] using hfiles
      · rfl
    rw [strip, if_neg (fun hdrop => absurd hdrop.2.1 Bool.false_ne_true), hafter, ih hrest]

theorem rewrite_unseen (newBinds removedBinds : List NspawnBindSemantics) {s : RewriteState}
    (hseen : s.firstFilesSeen = false) (hopen : s.firstFilesOpen = false)
    (hfiles : s.inFiles = false) (hinsert : s.insertAt = none) (lines : List Text) :
    insertionOffset (lines.foldl (rewriteStep newBinds removedBinds) s) =
      (filesSpan lines).map fun (front, _) =>
        s.result.length + (strip newBinds removedBinds false front).length := by
  induction lines generalizing s with
  | nil =>
    rw [List.foldl_nil, insertionOffset, hopen, if_neg Bool.false_ne_true, hinsert]
    rfl
  | cons line lines ih =>
    rw [List.foldl_cons, filesSpan]
    cases hheader : isSectionHeader line with
    | true =>
      rw [rewriteStep_header s hheader]
      cases hsection : isFilesSection line with
      | true =>
        rw [rewrite_within]
        · simp [rewriteHeader, strip, filesAfter, hheader, hsection]
          omega
        · simp [rewriteHeader, hsection]
        · simp [rewriteHeader, hsection, hseen]
        · simp [rewriteHeader, hsection]
      | false =>
        rw [ih]
        · cases filesSpan lines with
          | none => rfl
          | some span =>
            simp [rewriteHeader, strip, filesAfter, hheader, hsection]
            omega
        · simp [rewriteHeader, hsection, hseen]
        · simp [rewriteHeader, hsection]
        · simp [rewriteHeader, hsection]
        · simp [rewriteHeader, hopen, hinsert]
    | false =>
      obtain ⟨found, hstep, -⟩ := rewriteStep_line newBinds removedBinds s hheader
      rw [hstep, ih]
      · cases filesSpan lines with
        | none => rfl
        | some span =>
          simp [strip, filesAfter, hheader, hfiles]
          omega
      · exact hseen
      · exact hopen
      · exact hfiles
      · exact hinsert

end Rewriting

section Block

variable {lineEnding : Text}

/-- The two line endings. -/
structure IsLineEnding (lineEnding : Text) : Prop where
  eq : lineEnding = ['\n'] ∨ lineEnding = ['\r', '\n']

theorem lineEndingOf_isLineEnding (content : Text) : IsLineEnding (lineEndingOf content) := by
  constructor
  unfold lineEndingOf
  split_ifs
  · exact .inr rfl
  · exact .inl rfl

theorem IsLineEnding.whitespace (h : IsLineEnding lineEnding) : ∀ c ∈ lineEnding, isWhitespace c = true := by
  rcases h.eq with rfl | rfl <;> simp [isWhitespace]

theorem IsLineEnding.ended (h : IsLineEnding lineEnding) {line : Text} (hline : '\n' ∉ line) :
    Ended '\n' (line ++ lineEnding) := by
  rcases h.eq with rfl | rfl
  · exact ⟨line, rfl, hline⟩
  · refine ⟨line ++ ['\r'], by rw [List.append_assoc]; rfl, ?_⟩
    rw [List.mem_append]
    exact not_or.mpr ⟨hline, by decide⟩

theorem IsLineEnding.trim_append (h : IsLineEnding lineEnding) (line : Text) :
    Text.trim (line ++ lineEnding) = Text.trim line := Nvidia.trim_append h.whitespace line

/-- The lines of the block, the last of them possibly without its ending. -/
def blockLines (lineEnding : Text) (ended : Bool) (binds : List PassthroughBind) : List Text :=
  (nvidiaBlockBegin ++ lineEnding) :: (binds.map (bindLine · ++ lineEnding) ++
    [nvidiaBlockEnd ++ if ended then lineEnding else []])

theorem join_lines (first : Text) (lines : List Text) (last : Text) :
    join lineEnding (first :: (lines ++ [last])) = first ++ lineEnding ++ (lines.map (· ++ lineEnding)).flatten ++ last := by
  induction lines generalizing first with
  | nil => simp [join, List.intercalate]
  | cons line lines ih =>
    have hrest := ih line
    simp only [join, List.intercalate, List.cons_append, List.intersperse_cons_cons, List.flatten_cons, List.map_cons,
      List.append_assoc] at hrest ⊢
    rw [hrest]

theorem join_managedBlock (ended : Bool) (binds : List PassthroughBind) :
    join lineEnding (managedBlock binds) ++ (if ended then lineEnding else []) =
      (blockLines lineEnding ended binds).flatten := by
  rw [managedBlock, join_lines, blockLines, List.map_map]
  simp [Function.comp_def]

theorem trim_head {c : Char} (hc : isWhitespace c = false) (rest : Text) : (Text.trim (c :: rest)).head? = some c := by
  have hstart : Text.trimStart (c :: rest) = c :: rest :=
    List.dropWhile_cons_of_neg (by rw [hc]; exact Bool.false_ne_true)
  have hbegin : Text.trim (c :: rest) <+: c :: rest := by
    rw [Text.trim, hstart]
    exact List.rdropWhile_prefix _ _
  have hne : Text.trim (c :: rest) ≠ [] := by
    rw [Text.trim, hstart, Text.trimEnd, Ne, List.rdropWhile_eq_nil_iff]
    intro hall
    exact absurd (hall c List.mem_cons_self) (by rw [hc]; exact Bool.false_ne_true)
  obtain ⟨more, hmore⟩ := hbegin
  cases htrim : Text.trim (c :: rest) with
  | nil => exact absurd htrim hne
  | cons d kept =>
    rw [htrim] at hmore
    exact congrArg some (List.cons.inj hmore).1

theorem bindLine_head (bind : PassthroughBind) : ∃ rest, bindLine bind = 'B' :: rest := by
  unfold bindLine nspawnBindKey
  split_ifs
  all_goals exact ⟨_, rfl⟩

/-- A bind is neither a header nor a marker. -/
theorem inner_bindLine (h : IsLineEnding lineEnding) (bind : PassthroughBind) : Inner (bindLine bind ++ lineEnding) := by
  obtain ⟨rest, hrest⟩ := bindLine_head bind
  have hhead : (Text.trim (bindLine bind ++ lineEnding)).head? = some 'B' := by
    rw [h.trim_append, hrest]
    exact trim_head (by decide) rest
  constructor
  · rw [isSectionHeader, hhead]
    rfl
  · rw [isNvidiaBeginMarker, decide_eq_false_iff_not]
    intro hmarker
    rw [hmarker] at hhead
    exact absurd hhead (by decide)
  · rw [isNvidiaEndMarker, decide_eq_false_iff_not]
    intro hmarker
    rw [hmarker] at hhead
    exact absurd hhead (by decide)

theorem newline_not_mem_escape {path : Text} (h : '\n' ∉ path) : '\n' ∉ escapeNspawnBindPath path := by
  intro hmem
  obtain ⟨c, hc, hin⟩ := List.mem_flatMap.mp hmem
  split_ifs at hin with hspecial
  · rcases List.mem_cons.mp hin with heq | hin
    · exact absurd heq (by decide)
    · exact h (List.mem_singleton.mp hin ▸ hc)
  · exact h (List.mem_singleton.mp hin ▸ hc)

/-- A bind whose paths have no line break. -/
def OneLine (bind : PassthroughBind) : Prop := '\n' ∉ bind.hostPath ∧ '\n' ∉ bind.containerPath

instance (bind : PassthroughBind) : Decidable (OneLine bind) :=
  inferInstanceAs (Decidable ('\n' ∉ bind.hostPath ∧ '\n' ∉ bind.containerPath))

theorem newline_not_mem_bindLine {bind : PassthroughBind} (h : OneLine bind) : '\n' ∉ bindLine bind := by
  have hkey : '\n' ∉ nspawnBindKey bind.readonly := by
    unfold nspawnBindKey
    split_ifs <;> decide
  have hhost := newline_not_mem_escape h.1
  have hcontainer := newline_not_mem_escape h.2
  unfold bindLine
  split_ifs
  · simp [hkey, hhost]
  · simp [hkey, hhost, hcontainer]

end Block

section Completing

variable {lineEnding : Text}

/-- The last line gets the ending it lacks. -/
def complete (lineEnding : Text) : List Text → List Text
  | [] => []
  | [line] => [if line.getLast? = some '\n' then line else line ++ lineEnding]
  | line :: next :: rest => line :: complete lineEnding (next :: rest)

theorem complete_trim (h : IsLineEnding lineEnding) (lines : List Text) :
    (complete lineEnding lines).map Text.trim = lines.map Text.trim := by
  induction lines with
  | nil => rfl
  | cons line rest ih =>
    cases rest with
    | nil =>
      rw [complete, List.map_cons, List.map_cons]
      split_ifs
      · rfl
      · rw [h.trim_append]
    | cons next rest => rw [complete, List.map_cons, List.map_cons, ih]

theorem Ended.getLast? {line : Text} (h : Ended '\n' line) : line.getLast? = some '\n' := by
  obtain ⟨body, rfl, -⟩ := h
  exact List.getLast?_concat

theorem complete_ended (h : IsLineEnding lineEnding) {lines : List Text} (hlines : Pieced '\n' lines) :
    ∀ line ∈ complete lineEnding lines, Ended '\n' line := by
  induction lines with
  | nil => exact nofun
  | cons line rest ih =>
    cases rest with
    | nil =>
      intro other hother
      rw [complete, List.mem_singleton] at hother
      rw [hother]
      rcases hlines.1 with hended | ⟨-, -, hplain⟩
      · rwa [if_pos (Ended.getLast? hended)]
      · rw [if_neg fun hlast => hplain (List.mem_of_getLast? hlast)]
        exact h.ended hplain
    | cons next rest =>
      intro other hother
      rw [complete] at hother
      rcases List.mem_cons.mp hother with rfl | hother
      · exact hlines.1.resolve_right fun hlast => absurd hlast.1 (List.cons_ne_nil _ _)
      · exact ih hlines.2 other hother

theorem Pieced.flatten_ne_nil {lines : List Text} (h : Pieced '\n' lines) (hne : lines ≠ []) : lines.flatten ≠ [] := by
  cases lines with
  | nil => exact absurd rfl hne
  | cons line rest =>
    have hline : line ≠ [] := h.1.elim (fun hended => hended.ne_nil) fun hlast => hlast.2.1
    rw [List.flatten_cons]
    exact List.append_ne_nil_of_left_ne_nil hline _

theorem complete_flatten {lines : List Text} (h : Pieced '\n' lines) (hne : lines ≠ []) :
    (complete lineEnding lines).flatten =
      lines.flatten ++ if lines.flatten.getLast? ≠ some '\n' then lineEnding else [] := by
  induction lines with
  | nil => exact absurd rfl hne
  | cons line rest ih =>
    cases rest with
    | nil =>
      rw [complete, List.flatten_singleton, List.flatten_singleton]
      by_cases hlast : line.getLast? = some '\n'
      · rw [if_pos hlast, if_neg (not_not.mpr hlast), List.append_nil]
      · rw [if_neg hlast, if_pos hlast]
    | cons next rest =>
      have hrest := Pieced.flatten_ne_nil h.2 (List.cons_ne_nil next rest)
      rw [complete, List.flatten_cons, ih h.2 (List.cons_ne_nil _ _), List.flatten_cons (l := line),
        List.getLast?_append_of_ne_nil _ hrest, List.append_assoc]

theorem unmarked_congr {front back : List Text} (h : front.map Text.trim = back.map Text.trim) (inFiles : Bool) :
    (Unmarked inFiles front ↔ Unmarked inFiles back) ∧ inFilesAfter inFiles front = inFilesAfter inFiles back := by
  induction front generalizing back inFiles with
  | nil =>
    rw [List.map_nil, eq_comm, List.map_eq_nil_iff] at h
    rw [h]
    exact ⟨Iff.rfl, rfl⟩
  | cons line front ih =>
    cases back with
    | nil => cases h
    | cons other back =>
      obtain ⟨hline, hrest⟩ := List.cons.inj h
      have hheader : isSectionHeader line = isSectionHeader other := by rw [isSectionHeader, hline, ← isSectionHeader]
      have hsection : isFilesSection line = isFilesSection other := by rw [isFilesSection, hline, ← isFilesSection]
      have hbegin : isNvidiaBeginMarker line = isNvidiaBeginMarker other := by
        rw [isNvidiaBeginMarker, hline, ← isNvidiaBeginMarker]
      have hend : isNvidiaEndMarker line = isNvidiaEndMarker other := by
        rw [isNvidiaEndMarker, hline, ← isNvidiaEndMarker]
      have hfiles : filesAfter inFiles line = filesAfter inFiles other := by
        rw [filesAfter, hheader, hsection, ← filesAfter]
      have hback := ih hrest (filesAfter inFiles other)
      rw [Unmarked, Unmarked, inFilesAfter, inFilesAfter, List.foldl_cons, List.foldl_cons, ← inFilesAfter,
        ← inFilesAfter, hfiles, hback.1, hback.2, hheader, hbegin, hend]
      exact ⟨Iff.rfl, rfl⟩

theorem unmarked_append {inFiles : Bool} {front back : List Text} :
    Unmarked inFiles (front ++ back) ↔ Unmarked inFiles front ∧ Unmarked (inFilesAfter inFiles front) back := by
  induction front generalizing inFiles with
  | nil => exact (and_iff_right trivial).symm
  | cons line front ih =>
    rw [List.cons_append, Unmarked, ih, Unmarked, and_assoc]
    rfl

end Completing

section Frame

variable {lineEnding : Text} {binds : List PassthroughBind}

/-- The block among lines that have no markers of their own. -/
theorem marked_block (hle : IsLineEnding lineEnding) (hbinds : ∀ bind ∈ binds, OneLine bind) {front back : List Text}
    (hfront : ∀ line ∈ front, Ended '\n' line) (hback : Pieced '\n' back) (hplain : Unmarked false front)
    (hfiles : inFilesAfter false front = true) (hrest : Unmarked true back) {ended : Bool}
    (hended : ended = false → back = []) :
    Marked (pieces '\n' (front.flatten ++ (blockLines lineEnding ended binds).flatten ++ back.flatten)) front
      (nvidiaBlockBegin ++ lineEnding) (binds.map (bindLine · ++ lineEnding))
      (nvidiaBlockEnd ++ if ended then lineEnding else []) back := by
  have hlast : Ended '\n' (nvidiaBlockEnd ++ if ended then lineEnding else []) ∨
      back = [] ∧ (nvidiaBlockEnd ++ if ended then lineEnding else []) ≠ [] ∧
        '\n' ∉ nvidiaBlockEnd ++ if ended then lineEnding else [] := by
    cases ended with
    | true => exact .inl (hle.ended (by decide))
    | false =>
      rw [if_neg Bool.false_ne_true, List.append_nil]
      exact .inr ⟨hended rfl, by decide, by decide⟩
  have hpieced : Pieced '\n' (front ++ (nvidiaBlockBegin ++ lineEnding) :: (binds.map (bindLine · ++ lineEnding) ++
      (nvidiaBlockEnd ++ if ended then lineEnding else []) :: back)) := by
    refine Pieced.append hfront ⟨.inl (hle.ended (by decide)), Pieced.append ?_ ⟨hlast, hback⟩⟩
    intro line hline
    obtain ⟨bind, hbind, rfl⟩ := List.mem_map.mp hline
    exact hle.ended (newline_not_mem_bindLine (hbinds bind hbind))
  have hsplit : front.flatten ++ (blockLines lineEnding ended binds).flatten ++ back.flatten =
      (front ++ (nvidiaBlockBegin ++ lineEnding) :: (binds.map (bindLine · ++ lineEnding) ++
        (nvidiaBlockEnd ++ if ended then lineEnding else []) :: back)).flatten := by
    simp [blockLines]
  refine ⟨by rw [hsplit, hpieced.pieces_flatten], hplain, hfiles, ?_, ?_, ?_, hrest⟩
  · rw [isNvidiaBeginMarker, hle.trim_append]
    decide
  · intro line hline
    obtain ⟨bind, -, rfl⟩ := List.mem_map.mp hline
    exact inner_bindLine hle bind
  · rw [isNvidiaEndMarker]
    cases ended with
    | true =>
      rw [if_pos rfl, hle.trim_append]
      decide
    | false =>
      rw [if_neg Bool.false_ne_true, List.append_nil]
      decide

theorem filesSpan_spec {lines front back : List Text} (h : filesSpan lines = some (front, back)) (inFiles : Bool) :
    front ≠ [] ∧ inFilesAfter inFiles front = true ∧ ∀ line rest, back = line :: rest → isSectionHeader line = true := by
  induction lines generalizing front back inFiles with
  | nil => cases h
  | cons line lines ih =>
    unfold filesSpan at h
    split_ifs at h with hfiles
    · cases h
      rw [Bool.and_eq_true] at hfiles
      have hsection : ∀ rest : List Text, inFilesAfter true (rest.takeWhile (! isSectionHeader ·)) = true := by
        intro rest
        induction rest with
        | nil => rfl
        | cons other rest ih =>
          cases hheader : isSectionHeader other with
          | true =>
            rw [List.takeWhile_cons_of_neg (by simp [hheader])]
            rfl
          | false =>
            rw [List.takeWhile_cons_of_pos (by simp [hheader]), inFilesAfter, List.foldl_cons,
              filesAfter_of_not_header hheader]
            exact ih
      refine ⟨List.cons_ne_nil _ _, ?_, ?_⟩
      · rw [inFilesAfter, List.foldl_cons, filesAfter_of_header hfiles.1, hfiles.2]
        exact hsection lines
      · intro other rest hback
        have hhead := List.head?_dropWhile_not (! isSectionHeader ·) lines
        rw [hback] at hhead
        simpa using hhead
    · obtain ⟨⟨front', back'⟩, hrest, hsplit⟩ := Option.map_eq_some_iff.mp h
      cases hsplit
      obtain ⟨-, hin, hback⟩ := ih hrest (filesAfter inFiles line)
      exact ⟨List.cons_ne_nil _ _, hin, hback⟩

/-- A header is never stripped. -/
theorem strip_eq_nil {newBinds removedBinds : List NspawnBindSemantics} {inFiles : Bool} {lines : List Text}
    (hheader : ∀ line rest, lines = line :: rest → isSectionHeader line = true)
    (h : strip newBinds removedBinds inFiles lines = []) : lines = [] := by
  cases lines with
  | nil => rfl
  | cons line rest =>
    rw [strip, if_neg fun hdrop => absurd (hheader line rest rfl) (by rw [hdrop.1]; exact Bool.false_ne_true)] at h
    cases h

/-- What the block needs around it stays when it is purged: a line ending before
it at the end of the file, or a section of files of its own. -/
def supplied (lineEnding : Text) (outside : List Text) (kept : Text) : Text :=
  match filesSpan outside with
  | some (_, back) => if back = [] ∧ kept.getLast? ≠ some '\n' then kept ++ lineEnding else kept
  | none => setOff lineEnding kept ++ filesHeader ++ lineEnding

theorem setOff_complete {lines : List Text} (hpieced : Pieced '\n' lines) (hne : lines ≠ []) :
    setOff lineEnding lines.flatten =
      if lineEnding ++ lineEnding <:+ (complete lineEnding lines).flatten then (complete lineEnding lines).flatten
      else (complete lineEnding lines).flatten ++ lineEnding := by
  have hcomplete : (complete lineEnding lines).flatten =
      if lines.flatten.getLast? ≠ some '\n' then lines.flatten ++ lineEnding else lines.flatten := by
    rw [complete_flatten hpieced hne]
    split_ifs with hlast
    · rfl
    · rw [List.append_nil]
  rw [setOff, if_neg (Pieced.flatten_ne_nil hpieced hne), hcomplete]

/-- The text before a section of the block's own, in lines. -/
theorem setOff_lines (hle : IsLineEnding lineEnding) {lines : List Text} (hpieced : Pieced '\n' lines)
    (hplain : Unmarked false lines) :
    ∃ before, before.flatten = setOff lineEnding lines.flatten ∧ (∀ line ∈ before, Ended '\n' line) ∧
      Unmarked false before := by
  by_cases hne : lines = []
  · rw [hne]
    exact ⟨[], rfl, nofun, trivial⟩
  · have hended := complete_ended hle hpieced
    have hunmarked : Unmarked false (complete lineEnding lines) :=
      (unmarked_congr (complete_trim hle lines) false).1.mpr hplain
    rw [setOff_complete hpieced hne]
    split_ifs with hblank
    · exact ⟨_, rfl, hended, hunmarked⟩
    · refine ⟨complete lineEnding lines ++ [lineEnding], by simp, ?_, ?_⟩
      · intro line hline
        rcases List.mem_append.mp hline with hline | hline
        · exact hended line hline
        · rw [List.mem_singleton.mp hline]
          exact hle.ended List.not_mem_nil
      · have hblankLine : Inner lineEnding := by
          rcases hle.eq with rfl | rfl <;> exact ⟨by decide, by decide, by decide⟩
        exact unmarked_append.mpr ⟨hunmarked, fun _ _ => ⟨hblankLine.begins, hblankLine.ends⟩, trivial⟩

theorem Outside.unmarked {lines outside : List Text} (h : Outside lines outside) : Unmarked false outside := by
  rcases h with ⟨hplain, rfl⟩ | ⟨front, first, middle, last, back, hmarked, rfl⟩
  · exact hplain
  · rw [unmarked_append, hmarked.in_files]
    exact ⟨hmarked.front_unmarked, hmarked.back_unmarked⟩

theorem Outside.pieced {content : Text} {outside : List Text} (h : Outside (pieces '\n' content) outside) :
    Pieced '\n' outside := by
  rw [← h.pieces_flatten]
  exact pieces_pieced _

variable {newBinds removedBinds : List NspawnBindSemantics}

/-- The lines of the rewritten file: where the block goes, between its neighbours. -/
theorem rewrite_eq (newBinds removedBinds : List NspawnBindSemantics) {content : Text} {outside : List Text}
    (h : Outside (pieces '\n' content) outside) :
    (rewrite newBinds removedBinds outside.flatten).result = strip newBinds removedBinds false outside ∧
    ((rewrite newBinds removedBinds outside.flatten).conflicts = [] ↔
      ¬ Conflicting newBinds removedBinds false outside) ∧
    insertionOffset (rewrite newBinds removedBinds outside.flatten) =
      (filesSpan outside).map fun (front, _) => (strip newBinds removedBinds false front).length := by
  unfold rewrite
  rw [h.pieces_flatten]
  obtain ⟨hresult, hconflicts⟩ := rewrite_lines newBinds removedBinds .start outside
  have hoffset := rewrite_unseen newBinds removedBinds (s := .start) rfl rfl rfl rfl outside
  refine ⟨hresult, hconflicts.trans (and_iff_right rfl), hoffset.trans ?_⟩
  simp [RewriteState.start]

/-- In a section of files the block stands at its end. -/
theorem placeBlock_within {content : Text} {outside : List Text} (h : Outside (pieces '\n' content) outside)
    (binds : List PassthroughBind) {front back : List Text} (hspan : filesSpan outside = some (front, back)) :
    placeBlock outside.flatten (rewrite newBinds removedBinds outside.flatten) binds =
      (complete (lineEndingOf outside.flatten) (strip newBinds removedBinds false front)).flatten ++
        (blockLines (lineEndingOf outside.flatten)
          (decide ((strip newBinds removedBinds true back).flatten ≠ [] ∨ outside.flatten.getLast? = some '\n'))
          binds).flatten ++
        (strip newBinds removedBinds true back).flatten := by
  obtain ⟨hresult, -, hoffset⟩ := rewrite_eq newBinds removedBinds h
  obtain ⟨hne, hfiles, -⟩ := filesSpan_spec hspan false
  have hpieced := h.pieced
  rw [filesSpan_append hspan] at hpieced
  have hfront : Pieced '\n' (strip newBinds removedBinds false front) :=
    hpieced.sublist ((strip_sublist _ _ false front).trans (List.sublist_append_left front back))
  have hkept : strip newBinds removedBinds false front ≠ [] := by
    intro hnil
    have hafter := inFilesAfter_strip newBinds removedBinds false front
    rw [hnil, hfiles] at hafter
    exact Bool.false_ne_true hafter
  have hsplit : strip newBinds removedBinds false outside =
      strip newBinds removedBinds false front ++ strip newBinds removedBinds true back := by
    rw [filesSpan_append hspan, strip_append, hfiles]
  unfold placeBlock
  rw [hoffset, hspan]
  simp only [Option.map_some]
  rw [hresult, hsplit, List.take_left, List.drop_left]
  rw [insertBlock, ← join_managedBlock, complete_flatten hfront hkept]
  simp [Pieced.flatten_ne_nil hfront hkept]

/-- Without a section of files the block gets its own, at the end of the file. -/
theorem placeBlock_appended {content : Text} {outside : List Text} (h : Outside (pieces '\n' content) outside)
    (binds : List PassthroughBind) (hspan : filesSpan outside = none) :
    placeBlock outside.flatten (rewrite newBinds removedBinds outside.flatten) binds =
      setOff (lineEndingOf outside.flatten) outside.flatten ++ filesHeader ++ lineEndingOf outside.flatten ++
        (blockLines (lineEndingOf outside.flatten) (decide (outside.flatten.getLast? = some '\n')) binds).flatten := by
  obtain ⟨hresult, -, hoffset⟩ := rewrite_eq newBinds removedBinds h
  unfold placeBlock
  rw [hoffset, hspan]
  simp only [Option.map_none]
  rw [hresult, strip_of_no_files hspan, appendFilesBlock, ← join_managedBlock]
  simp [List.append_assoc]

theorem within_marked (hle : IsLineEnding lineEnding) (hbinds : ∀ bind ∈ binds, OneLine bind)
    {front back : List Text} (hpieced : Pieced '\n' (front ++ back)) (hplain : Unmarked false front)
    (hfiles : inFilesAfter false front = true) (hrest : Unmarked true back) {ended : Bool}
    (hended : ended = false → back = []) :
    Marked (pieces '\n' ((complete lineEnding front).flatten ++ (blockLines lineEnding ended binds).flatten ++
        back.flatten)) (complete lineEnding front) (nvidiaBlockBegin ++ lineEnding)
      (binds.map (bindLine · ++ lineEnding)) (nvidiaBlockEnd ++ if ended then lineEnding else []) back := by
  have hsame := unmarked_congr (complete_trim hle front) false
  exact marked_block hle hbinds (complete_ended hle (hpieced.sublist (List.sublist_append_left front back)))
    (hpieced.sublist (List.sublist_append_right front back)) (hsame.1.mpr hplain) (hsame.2.trans hfiles) hrest hended

theorem appended_marked (hle : IsLineEnding lineEnding) (hbinds : ∀ bind ∈ binds, OneLine bind)
    {before : List Text} (hbefore : ∀ line ∈ before, Ended '\n' line) (hplain : Unmarked false before) (ended : Bool) :
    Marked (pieces '\n' (before.flatten ++ filesHeader ++ lineEnding ++ (blockLines lineEnding ended binds).flatten))
      (before ++ [filesHeader ++ lineEnding]) (nvidiaBlockBegin ++ lineEnding) (binds.map (bindLine · ++ lineEnding))
      (nvidiaBlockEnd ++ if ended then lineEnding else []) [] := by
  have hheader : isSectionHeader (filesHeader ++ lineEnding) = true := by
    rw [isSectionHeader, hle.trim_append]
    decide
  have hsection : isFilesSection (filesHeader ++ lineEnding) = true := by
    rw [isFilesSection, hle.trim_append]
    decide
  have hlines : ∀ line ∈ before ++ [filesHeader ++ lineEnding], Ended '\n' line := by
    intro line hline
    rcases List.mem_append.mp hline with hline | hline
    · exact hbefore line hline
    · rw [List.mem_singleton.mp hline]
      exact hle.ended (by decide)
  have hunmarked : Unmarked false (before ++ [filesHeader ++ lineEnding]) := by
    refine unmarked_append.mpr ⟨hplain, fun hnot => ?_, trivial⟩
    exact absurd hheader (by rw [hnot]; exact Bool.false_ne_true)
  have hfiles : inFilesAfter false (before ++ [filesHeader ++ lineEnding]) = true := by
    rw [inFilesAfter, List.foldl_append, List.foldl_cons, List.foldl_nil, filesAfter_of_header hheader, hsection]
  have hmarked := marked_block hle hbinds hlines (show Pieced '\n' [] from trivial) hunmarked hfiles
    (show Unmarked true [] from trivial) (show ended = false → ([] : List Text) = [] from fun _ => rfl)
  have htext : (before ++ [filesHeader ++ lineEnding]).flatten ++ (blockLines lineEnding ended binds).flatten ++
      ([] : List Text).flatten =
      before.flatten ++ filesHeader ++ lineEnding ++ (blockLines lineEnding ended binds).flatten := by
    simp
  rwa [htext] at hmarked

/-- Only the end of the file lacks a line ending. -/
theorem flatten_complete_append {front back : List Text} (hpieced : Pieced '\n' (front ++ back)) (hne : front ≠ []) :
    (complete lineEnding front ++ back).flatten =
      if back = [] ∧ (front ++ back).flatten.getLast? ≠ some '\n' then (front ++ back).flatten ++ lineEnding
      else (front ++ back).flatten := by
  rw [List.flatten_append, complete_flatten (hpieced.sublist (List.sublist_append_left front back)) hne]
  cases back with
  | nil =>
    simp only [List.flatten_nil, List.append_nil, true_and]
    split_ifs
    · rfl
    · rw [List.append_nil]
  | cons line back =>
    have hended := Pieced.ended hpieced
    have hlast : front.flatten.getLast? = some '\n' := by
      have hlast := hended _ (List.getLast_mem hne)
      rw [← List.dropLast_append_getLast hne, List.flatten_append, List.flatten_singleton,
        List.getLast?_append_of_ne_nil _ hlast.ne_nil]
      exact Ended.getLast? hlast
    rw [if_neg (not_not.mpr hlast), List.append_nil, if_neg fun h => absurd h.1 (List.cons_ne_nil _ _),
      List.flatten_append]

/-- The block stands where it was put, among what was kept and what it needed. -/
theorem placed_marked (newBinds removedBinds : List NspawnBindSemantics) {content : Text} {outside : List Text}
    (h : Outside (pieces '\n' content) outside)
    (hbinds : ∀ bind ∈ binds, OneLine bind) :
    ∃ front last back,
      Marked (pieces '\n' (placeBlock outside.flatten (rewrite newBinds removedBinds outside.flatten) binds)) front
        (nvidiaBlockBegin ++ lineEndingOf outside.flatten)
        (binds.map (bindLine · ++ lineEndingOf outside.flatten)) last back ∧
      (front ++ back).flatten =
        supplied (lineEndingOf outside.flatten) outside (strip newBinds removedBinds false outside).flatten := by
  have hle := lineEndingOf_isLineEnding outside.flatten
  have hpieced := h.pieced
  unfold supplied
  cases hspan : filesSpan outside with
  | none =>
    obtain ⟨before, hbefore, hended, hplain⟩ := setOff_lines hle hpieced h.unmarked
    rw [placeBlock_appended h binds hspan, strip_of_no_files hspan, ← hbefore]
    exact ⟨_, _, _, appended_marked hle hbinds hended hplain _, by simp⟩
  | some span =>
    obtain ⟨front, back⟩ := span
    obtain ⟨hne, hfiles, hheader⟩ := filesSpan_spec hspan false
    have hsplit := filesSpan_append hspan
    have hkept : strip newBinds removedBinds false outside =
        strip newBinds removedBinds false front ++ strip newBinds removedBinds true back := by
      rw [hsplit, strip_append, hfiles]
    have hkeptPieced := hpieced.sublist (strip_sublist newBinds removedBinds false outside)
    have hunmarked := h.unmarked.strip newBinds removedBinds
    rw [hkept] at hkeptPieced hunmarked
    have hkeptFiles : inFilesAfter false (strip newBinds removedBinds false front) = true := by
      rw [inFilesAfter_strip, hfiles]
    have hkeptNe : strip newBinds removedBinds false front ≠ [] := by
      intro hnil
      rw [hnil] at hkeptFiles
      exact Bool.false_ne_true hkeptFiles
    rw [unmarked_append, hkeptFiles] at hunmarked
    have hlast : decide ((strip newBinds removedBinds true back).flatten ≠ [] ∨
        outside.flatten.getLast? = some '\n') = false → strip newBinds removedBinds true back = [] := by
      intro hnot
      by_contra hback
      have hfull := Pieced.flatten_ne_nil (hkeptPieced.sublist (List.sublist_append_right _ _)) hback
      exact of_decide_eq_false hnot (.inl hfull)
    have hback : strip newBinds removedBinds true back = [] ↔ back = [] := by
      constructor
      · exact strip_eq_nil hheader
      · rintro rfl
        rfl
    rw [placeBlock_within h binds hspan]
    refine ⟨_, _, _, within_marked hle hbinds hkeptPieced hunmarked.1 hkeptFiles hunmarked.2 hlast, ?_⟩
    rw [flatten_complete_append hkeptPieced hkeptNe, hkept]
    simp only [hback]

/-- Purging the file gives back what was kept, with what the block needed. -/
theorem purge_placed {content : Text} {outside : List Text} (h : Outside (pieces '\n' content) outside)
    (hbinds : ∀ bind ∈ binds, OneLine bind) :
    ∃ values, purgeNvidiaBlock (placeBlock outside.flatten (rewrite newBinds removedBinds outside.flatten) binds) =
      .ok (supplied (lineEndingOf outside.flatten) outside (strip newBinds removedBinds false outside).flatten, values) := by
  obtain ⟨front, last, back, hmarked, hkept⟩ := placed_marked newBinds removedBinds h hbinds
  rw [hmarked.purge, hkept]
  exact ⟨_, rfl⟩

theorem apply_outside {content : Text} {outside : List Text} (h : Outside (pieces '\n' content) outside)
    (newState : NvidiaState) (removed : List PassthroughBind) :
    applyGpuPassthroughToContent content newState removed =
      let s := rewrite (newState.binds.map .fromPassthrough) (removed.map .fromPassthrough) outside.flatten
      if s.conflicts ≠ [] then .error (conflictError s.conflicts)
      else if newState.binds = [] then .ok s.result.flatten
      else .ok (placeBlock outside.flatten s newState.binds) := by
  obtain ⟨values, hpurge⟩ := h.purge
  simp only [applyGpuPassthroughToContent, hpurge, bind, Except.bind]
  rfl

theorem apply_without_outside {content : Text} (h : ¬ ∃ outside, Outside (pieces '\n' content) outside)
    (newState : NvidiaState) (removed : List PassthroughBind) :
    ∃ error, applyGpuPassthroughToContent content newState removed = .error error := by
  cases hpurge : purgeNvidiaBlock content with
  | error error => exact ⟨error, by simp only [applyGpuPassthroughToContent, hpurge, bind, Except.bind]⟩
  | ok purged =>
    obtain ⟨outside, houtside, -⟩ := outside_of_purge hpurge
    exact absurd ⟨outside, houtside⟩ h

/-- A file with its markers in order, that the surgery accepts. -/
theorem apply_ok {content result : Text} {newState : NvidiaState} {removed : List PassthroughBind}
    (h : applyGpuPassthroughToContent content newState removed = .ok result) :
    ∃ outside, Outside (pieces '\n' content) outside ∧
      ¬ Conflicting (newState.binds.map .fromPassthrough) (removed.map .fromPassthrough) false outside ∧
      result = if newState.binds = [] then
          (strip (newState.binds.map .fromPassthrough) (removed.map .fromPassthrough) false outside).flatten
        else placeBlock outside.flatten
          (rewrite (newState.binds.map .fromPassthrough) (removed.map .fromPassthrough) outside.flatten)
          newState.binds := by
  by_cases hex : ∃ outside, Outside (pieces '\n' content) outside
  · obtain ⟨outside, houtside⟩ := hex
    obtain ⟨hresult, hconflicts, -⟩ := rewrite_eq (newState.binds.map .fromPassthrough) (removed.map .fromPassthrough) houtside
    rw [apply_outside houtside] at h
    simp only at h
    split_ifs at h with hconflict hempty
    · cases h
      rw [not_not] at hconflict
      exact ⟨outside, houtside, hconflicts.mp hconflict, by rw [if_pos hempty, hresult]⟩
    · cases h
      rw [not_not] at hconflict
      exact ⟨outside, houtside, hconflicts.mp hconflict, by rw [if_neg hempty]⟩
  · obtain ⟨error, herror⟩ := apply_without_outside hex newState removed
    rw [herror] at h
    cases h

/-- The surgery fails exactly if the markers are not in order or another bind
takes a destination of the new ones. If it succeeds, its block stands in the file
without the repetitions, and everything else is where it was. -/
theorem surgery_frame (content : Text) (newState : NvidiaState) (removed : List PassthroughBind) :
    ((∃ error, applyGpuPassthroughToContent content newState removed = .error error) ↔
      (¬ ∃ outside, Outside (pieces '\n' content) outside) ∨
      ∃ outside, Outside (pieces '\n' content) outside ∧
        Conflicting (newState.binds.map .fromPassthrough) (removed.map .fromPassthrough) false outside) ∧
    ((∀ bind ∈ newState.binds, OneLine bind) → ∀ result,
      applyGpuPassthroughToContent content newState removed = .ok result →
      ∃ outside, Outside (pieces '\n' content) outside ∧ ∃ values, purgeNvidiaBlock result =
        .ok (if newState.binds = [] then
            (strip (newState.binds.map .fromPassthrough) (removed.map .fromPassthrough) false outside).flatten
          else supplied (lineEndingOf outside.flatten) outside
            (strip (newState.binds.map .fromPassthrough) (removed.map .fromPassthrough) false outside).flatten,
          values)) := by
  constructor
  · constructor
    · rintro ⟨error, herror⟩
      by_cases hex : ∃ outside, Outside (pieces '\n' content) outside
      · obtain ⟨outside, houtside⟩ := hex
        obtain ⟨-, hconflicts, -⟩ := rewrite_eq (newState.binds.map .fromPassthrough) (removed.map .fromPassthrough) houtside
        rw [apply_outside houtside] at herror
        simp only at herror
        split_ifs at herror with hconflict hempty
        rw [Ne, hconflicts, not_not] at hconflict
        exact .inr ⟨outside, houtside, hconflict⟩
      · exact .inl hex
    · rintro (hnone | ⟨outside, houtside, hconflicting⟩)
      · exact apply_without_outside hnone newState removed
      · obtain ⟨-, hconflicts, -⟩ := rewrite_eq (newState.binds.map .fromPassthrough) (removed.map .fromPassthrough) houtside
        rw [apply_outside houtside]
        exact ⟨_, if_pos fun hnil => hconflicts.mp hnil hconflicting⟩
  · intro hbinds result hresult
    obtain ⟨outside, houtside, -, rfl⟩ := apply_ok hresult
    refine ⟨outside, houtside, ?_⟩
    split_ifs with hempty
    · have hkept := houtside.pieced.sublist (strip_sublist (newState.binds.map .fromPassthrough)
        (removed.map .fromPassthrough) false outside)
      refine ⟨[], purge_unmarked ?_⟩
      rw [hkept.pieces_flatten]
      exact houtside.unmarked.strip _ _
    · exact purge_placed houtside hbinds

def bareState (binds : List PassthroughBind) : NvidiaState where
  driverVersion := "550.54".toList
  ownershipMarker := none
  binds := binds
  readonlyBinds := []
  deviceBinds := []
  classifiedEntries := []
  symlinks := []
  ldcacheFolders := []
  envVars := []
  profile := none

def deviceNode : PassthroughBind := ⟨"/dev/nvidia0".toList, "/dev/nvidia0".toList, false⟩

/-- One line repeats the new bind, the other stays. -/
def repeatedDevice : Text := "[Files]\nBind=/dev/nvidia0\nBind=/srv/data\n".toList

theorem surgery_frame_device :
    (∀ bind ∈ (bareState [deviceNode]).binds, OneLine bind) ∧
      ∃ result, applyGpuPassthroughToContent repeatedDevice (bareState [deviceNode]) [] = .ok result ∧
        ∃ outside, Outside (pieces '\n' repeatedDevice) outside ∧ ∃ values, purgeNvidiaBlock result =
          .ok (supplied (lineEndingOf outside.flatten) outside
            (strip ((bareState [deviceNode]).binds.map .fromPassthrough) [] false outside).flatten, values) := by
  have hbinds : ∀ bind ∈ (bareState [deviceNode]).binds, OneLine bind := by decide +kernel
  have happly : (applyGpuPassthroughToContent repeatedDevice (bareState [deviceNode]) []).toOption =
      some ("[Files]\nBind=/srv/data\n".toList ++ nvidiaBlockBegin ++ "\nBind=/dev/nvidia0\n".toList ++
        nvidiaBlockEnd ++ "\n".toList) := by decide +kernel
  have hresult := ok_of_toOption happly
  exact ⟨hbinds, _, hresult, (surgery_frame repeatedDevice (bareState [deviceNode]) []).2 hbinds _ hresult⟩

def execOnly : Text := "[Exec]\nBoot=yes".toList

/-- A section of its own is set off by a blank line, which stays too. -/
theorem blank_line_stays :
    ¬ ∀ (content : Text) (newState : NvidiaState) (removed : List PassthroughBind) (result : Text),
      (∀ bind ∈ newState.binds, OneLine bind) → applyGpuPassthroughToContent content newState removed = .ok result →
      ∃ outside, Outside (pieces '\n' content) outside ∧ ∃ purged values ending header,
        purgeNvidiaBlock result = .ok (purged, values) ∧
        purged = (strip (newState.binds.map .fromPassthrough) (removed.map .fromPassthrough) false outside).flatten ++
          ending ++ header ∧
        ending ∈ [[], ['\n'], ['\r', '\n']] ∧
        header ∈ [[], filesHeader ++ ['\n'], filesHeader ++ ['\r', '\n']] := by
  intro hall
  have happly : (applyGpuPassthroughToContent execOnly (bareState [deviceNode]) []).toOption =
      some (execOnly ++ "\n\n[Files]\n".toList ++ nvidiaBlockBegin ++ "\nBind=/dev/nvidia0\n".toList ++
        nvidiaBlockEnd) := by decide +kernel
  have hpurge : (purgeNvidiaBlock (execOnly ++ "\n\n[Files]\n".toList ++ nvidiaBlockBegin ++
      "\nBind=/dev/nvidia0\n".toList ++ nvidiaBlockEnd)).toOption =
      some (execOnly ++ "\n\n[Files]\n".toList, ["/dev/nvidia0".toList]) := by decide +kernel
  have hclean : (purgeNvidiaBlock execOnly).toOption = some (execOnly, []) := by decide +kernel
  obtain ⟨outside, houtside, purged, values, ending, header, hresult, hpurged, hending, hheader⟩ :=
    hall execOnly (bareState [deviceNode]) [] _ (by decide +kernel) (ok_of_toOption happly)
  obtain ⟨kept, hkept⟩ := houtside.purge
  have hsame := (ok_of_toOption hclean).symm.trans hkept
  have hlines : outside = pieces '\n' execOnly := by
    rw [← houtside.pieces_flatten, ← (Prod.mk.inj (Except.ok.inj hsame)).1]
  have htext : purged = execOnly ++ "\n\n[Files]\n".toList :=
    (Prod.mk.inj (Except.ok.inj (hresult.symm.trans (ok_of_toOption hpurge)))).1
  rw [htext, hlines] at hpurged
  revert hpurged
  simp only [List.mem_cons, List.not_mem_nil, or_false] at hending hheader
  rcases hending with rfl | rfl | rfl <;> rcases hheader with rfl | rfl | rfl <;> decide +kernel

end Frame

end Lasper.Nvidia
