import Lasper.Nvidia.Block

/-! The markers of the managed block. They are read line by line, and only in
sections of files: there is no marker, or one pair in one section, or an error. -/

namespace Lasper.Nvidia

open Lib Config

section Trimming

theorem rdropWhile_append {p : Char → Bool} {back : Text} (h : ∀ c ∈ back, p c = true) (front : Text) :
    (front ++ back).rdropWhile p = front.rdropWhile p := by
  unfold List.rdropWhile
  rw [List.reverse_append, List.dropWhile_append_of_pos fun c hc => h c (List.mem_reverse.mp hc)]

/-- Space at the end of a line does not count. -/
theorem trim_append {back : Text} (h : ∀ c ∈ back, isWhitespace c = true) (front : Text) :
    Text.trim (front ++ back) = Text.trim front := by
  unfold Text.trim Text.trimStart Text.trimEnd
  induction front with
  | nil =>
    rw [List.nil_append, List.dropWhile_eq_nil_iff.mpr h]
    rfl
  | cons c front ih =>
    by_cases hc : isWhitespace c = true
    · rw [List.cons_append, List.dropWhile_cons_of_pos hc, List.dropWhile_cons_of_pos hc]
      exact ih
    · rw [List.cons_append, List.dropWhile_cons_of_neg hc, List.dropWhile_cons_of_neg hc, ← List.cons_append,
        rdropWhile_append h]

theorem trim_stripEnd {c : Char} (hc : isWhitespace c = true) (text : Text) :
    Text.trim (stripEnd c text) = Text.trim text := by
  unfold stripEnd
  split_ifs with h
  · have hsplit := List.dropLast_append_getLast? c h
    have hspace : ∀ d ∈ [c], isWhitespace d = true := fun d hd => by rwa [List.mem_singleton.mp hd]
    nth_rewrite 2 [← hsplit]
    rw [trim_append hspace]
  · rfl

@[simp] theorem trim_lineBody (line : Text) : Text.trim (lineBody line) = Text.trim line := by
  rw [lineBody, trim_stripEnd (by decide), trim_stripEnd (by decide)]

@[simp] theorem isSectionHeader_lineBody (line : Text) : isSectionHeader (lineBody line) = isSectionHeader line := by
  simp only [isSectionHeader, trim_lineBody]

@[simp] theorem isFilesSection_lineBody (line : Text) : isFilesSection (lineBody line) = isFilesSection line := by
  simp only [isFilesSection, trim_lineBody]

@[simp] theorem isNvidiaBeginMarker_lineBody (line : Text) :
    isNvidiaBeginMarker (lineBody line) = isNvidiaBeginMarker line := by
  simp only [isNvidiaBeginMarker, trim_lineBody]

@[simp] theorem isNvidiaEndMarker_lineBody (line : Text) :
    isNvidiaEndMarker (lineBody line) = isNvidiaEndMarker line := by
  simp only [isNvidiaEndMarker, trim_lineBody]

@[simp] theorem parseNspawnBindLine_lineBody (line : Text) :
    parseNspawnBindLine (lineBody line) = parseNspawnBindLine line := by
  simp only [parseNspawnBindLine, trim_lineBody]

end Trimming

section Markers

def filesAfter (inFiles : Bool) (line : Text) : Bool := if isSectionHeader line then isFilesSection line else inFiles

/-- Whether a list of lines ends in a section of files. -/
def inFilesAfter (inFiles : Bool) (lines : List Text) : Bool := lines.foldl filesAfter inFiles

/-- No marker in a section of files. -/
def Unmarked : Bool → List Text → Prop
  | _, [] => True
  | inFiles, line :: rest =>
    (isSectionHeader line = false → inFiles = true → isNvidiaBeginMarker line = false ∧ isNvidiaEndMarker line = false) ∧
      Unmarked (filesAfter inFiles line) rest

/-- A line of the block: neither a header nor a marker. -/
structure Inner (line : Text) : Prop where
  header : isSectionHeader line = false
  begins : isNvidiaBeginMarker line = false
  ends : isNvidiaEndMarker line = false

/-- One pair of markers in one section of files. -/
structure Marked (lines front : List Text) (first : Text) (middle : List Text) (last : Text) (back : List Text) : Prop where
  split : lines = front ++ first :: (middle ++ last :: back)
  front_unmarked : Unmarked false front
  in_files : inFilesAfter false front = true
  begins : isNvidiaBeginMarker first = true
  inner : ∀ line ∈ middle, Inner line
  ends : isNvidiaEndMarker last = true
  back_unmarked : Unmarked true back

/-- The lines outside the block, if the markers are in order. -/
def Outside (lines outside : List Text) : Prop :=
  (Unmarked false lines ∧ outside = lines) ∨
    ∃ front first middle last back, Marked lines front first middle last back ∧ outside = front ++ back

theorem not_header_of_begin {line : Text} (h : isNvidiaBeginMarker line = true) : isSectionHeader line = false := by
  rw [isSectionHeader, of_decide_eq_true h]
  decide

theorem not_header_of_end {line : Text} (h : isNvidiaEndMarker line = true) : isSectionHeader line = false := by
  rw [isSectionHeader, of_decide_eq_true h]
  decide

theorem not_begin_of_end {line : Text} (h : isNvidiaEndMarker line = true) : isNvidiaBeginMarker line = false := by
  rw [isNvidiaBeginMarker, of_decide_eq_true h]
  decide

namespace PurgeState

/-- No marker was met. -/
def fresh (inFiles : Bool) (offset : ℕ) : PurgeState := ⟨inFiles, none, none, [], offset⟩

def opened (start : ℕ) (deaths : List Text) (offset : ℕ) : PurgeState := ⟨true, some start, none, deaths, offset⟩

def closed (inFiles : Bool) (start stop : ℕ) (deaths : List Text) (offset : ℕ) : PurgeState :=
  ⟨inFiles, some start, some stop, deaths, offset⟩

end PurgeState

open PurgeState

variable {t : PurgeState} {start stop offset : ℕ} {deaths : List Text}

theorem filesAfter_of_header {line : Text} (h : isSectionHeader line = true) (inFiles : Bool) :
    filesAfter inFiles line = isFilesSection line := if_pos h

theorem filesAfter_of_not_header {line : Text} (h : isSectionHeader line = false) (inFiles : Bool) :
    filesAfter inFiles line = inFiles := if_neg (by rw [h]; exact Bool.false_ne_true)

/-- Behind the block, any further marker is an error. -/
theorem run_closed (inFiles : Bool) (start stop : ℕ) (deaths : List Text) (offset : ℕ) (lines : List Text) :
    lines.foldlM purgeStep (closed inFiles start stop deaths offset) = .ok t ↔
      Unmarked inFiles lines ∧ t = closed (inFilesAfter inFiles lines) start stop deaths (offset + lines.length) := by
  induction lines generalizing inFiles offset with
  | nil => simp [Unmarked, inFilesAfter, pure, Except.pure, eq_comm]
  | cons line lines ih =>
    have hcount : offset + 1 + lines.length = offset + (line :: lines).length := by
      rw [List.length_cons]
      omega
    have hstep : purgeStep (closed inFiles start stop deaths offset) line =
        if isSectionHeader line then .ok (closed (isFilesSection line) start stop deaths (offset + 1))
        else if inFiles && isNvidiaBeginMarker line then
          .error (.runtime "Duplicate X-Lasper-Nvidia-Begin marker")
        else if inFiles && isNvidiaEndMarker line then
          .error (.runtime "X-Lasper-Nvidia-End marker has no matching begin marker")
        else .ok (closed inFiles start stop deaths (offset + 1)) := by
      simp [purgeStep, closed, isOpen]
    rw [List.foldlM_cons, hstep, Unmarked, inFilesAfter, List.foldl_cons, ← inFilesAfter]
    cases hheader : isSectionHeader line with
    | true =>
      rw [if_pos rfl, filesAfter_of_header hheader, ← hcount]
      refine (ih _ _).trans (and_congr_left' ?_)
      exact ⟨fun h => ⟨nofun, h⟩, fun h => h.2⟩
    | false =>
      rw [if_neg Bool.false_ne_true, filesAfter_of_not_header hheader, ← hcount]
      cases hbegin : inFiles && isNvidiaBeginMarker line with
      | true =>
        rw [Bool.and_eq_true] at hbegin
        simp [bind, Except.bind, hbegin.1, hbegin.2]
      | false =>
        cases hend : inFiles && isNvidiaEndMarker line with
        | true =>
          rw [Bool.and_eq_true] at hend
          simp [bind, Except.bind, hend.1, hend.2]
        | false =>
          rw [if_neg Bool.false_ne_true, if_neg Bool.false_ne_true]
          refine (ih _ _).trans (and_congr_left' ?_)
          refine ⟨fun h => ⟨fun _ hfiles => ?_, h⟩, fun h => h.2⟩
          rw [hfiles, Bool.true_and] at hbegin hend
          exact ⟨hbegin, hend⟩

@[simp] theorem managedValue_lineBody (line : Text) : managedValue (lineBody line) = managedValue line := by
  simp only [managedValue, trim_lineBody]

def managedValues (lines : List Text) : List Text := lines.flatMap fun line => (managedValue line).toList

theorem managedValues_cons (line : Text) (lines : List Text) :
    managedValues (line :: lines) = (managedValue line).toList ++ managedValues lines := rfl

theorem purgeStep_opened (line : Text) : purgeStep (opened start deaths offset) line =
    if isSectionHeader line then .error (.runtime "Incomplete NVIDIA markers cross a section boundary")
    else if isNvidiaBeginMarker line then .error (.runtime "Duplicate X-Lasper-Nvidia-Begin marker")
    else if isNvidiaEndMarker line then .ok (closed true start (offset + 1) deaths (offset + 1))
    else .ok (opened start (deaths ++ (managedValue line).toList) (offset + 1)) := by
  simp [purgeStep, opened, isOpen, closed]

theorem run_inner (start : ℕ) (deaths : List Text) (offset : ℕ) {lines : List Text} (h : ∀ line ∈ lines, Inner line) :
    lines.foldlM purgeStep (opened start deaths offset) =
      .ok (opened start (deaths ++ managedValues lines) (offset + lines.length)) := by
  induction lines generalizing deaths offset with
  | nil => simp [managedValues, pure, Except.pure]
  | cons line lines ih =>
    have hline := h line List.mem_cons_self
    have hstep : purgeStep (opened start deaths offset) line =
        .ok (opened start (deaths ++ (managedValue line).toList) (offset + 1)) := by
      rw [purgeStep_opened, hline.header, hline.begins, hline.ends]
      rfl
    rw [List.foldlM_cons, hstep]
    refine (ih _ _ fun other hother => h other (List.mem_cons_of_mem _ hother)).trans ?_
    rw [managedValues_cons, List.append_assoc, List.length_cons, Nat.add_assoc, Nat.add_comm 1]

/-- A block that was opened is closed in its own section, or not at all. -/
theorem run_opened {lines : List Text} (h : lines.foldlM purgeStep (opened start deaths offset) = .ok t) :
    t.endOffset = none ∧ t.startOffset = some start ∨
      ∃ middle last back, lines = middle ++ last :: back ∧ (∀ line ∈ middle, Inner line) ∧
        isNvidiaEndMarker last = true ∧ Unmarked true back ∧
        t = closed (inFilesAfter true back) start (offset + middle.length + 1) (deaths ++ managedValues middle)
          (offset + lines.length) := by
  induction lines generalizing deaths offset with
  | nil =>
    cases h
    exact .inl ⟨rfl, rfl⟩
  | cons line lines ih =>
    rw [List.foldlM_cons, purgeStep_opened] at h
    split_ifs at h with hheader hbegin hend
    · cases h
    · cases h
    · obtain ⟨hback, rfl⟩ := (run_closed true _ _ _ _ lines).mp h
      refine .inr ⟨[], line, lines, rfl, nofun, hend, hback, ?_⟩
      rw [managedValues, List.flatMap_nil, List.append_nil, List.length_nil, List.length_cons, Nat.add_zero,
        Nat.add_assoc, Nat.add_comm 1]
    · have hline : Inner line := ⟨by simpa using hheader, by simpa using hbegin, by simpa using hend⟩
      rcases ih h with hnone | ⟨middle, last, back, rfl, hinner, hlast, hback, rfl⟩
      · exact .inl hnone
      · refine .inr ⟨line :: middle, last, back, rfl, ?_, hlast, hback, ?_⟩
        · intro other hother
          rcases List.mem_cons.mp hother with rfl | hother
          · exact hline
          · exact hinner other hother
        · rw [managedValues_cons, List.append_assoc, List.length_cons, List.length_cons]
          congr 1 <;> omega

theorem purgeStep_fresh (inFiles : Bool) (line : Text) : purgeStep (fresh inFiles offset) line =
    if isSectionHeader line then .ok (fresh (isFilesSection line) (offset + 1))
    else if inFiles && isNvidiaBeginMarker line then .ok (opened offset [] (offset + 1))
    else if inFiles && isNvidiaEndMarker line then
      .error (.runtime "X-Lasper-Nvidia-End marker has no matching begin marker")
    else .ok (fresh inFiles (offset + 1)) := by
  cases inFiles <;> simp [purgeStep, fresh, isOpen, opened]

theorem run_unmarked {inFiles : Bool} (offset : ℕ) {lines : List Text} (h : Unmarked inFiles lines) :
    lines.foldlM purgeStep (fresh inFiles offset) =
      .ok (fresh (inFilesAfter inFiles lines) (offset + lines.length)) := by
  induction lines generalizing inFiles offset with
  | nil => rfl
  | cons line lines ih =>
    obtain ⟨hline, hrest⟩ := h
    have hstep : purgeStep (fresh inFiles offset) line = .ok (fresh (filesAfter inFiles line) (offset + 1)) := by
      rw [purgeStep_fresh, filesAfter]
      cases hheader : isSectionHeader line with
      | true => rfl
      | false =>
        cases inFiles with
        | false => rfl
        | true =>
          rw [(hline hheader rfl).1, (hline hheader rfl).2]
          rfl
    rw [List.foldlM_cons, hstep]
    refine (ih _ hrest).trans ?_
    rw [List.length_cons, Nat.add_assoc, Nat.add_comm 1]
    rfl

/-- The lines have no marker, or a block is opened among them that is read on to the end. -/
def Opens (t : PurgeState) (inFiles : Bool) (offset : ℕ) (lines : List Text) : Prop :=
  Unmarked inFiles lines ∨
    ∃ front first rest, lines = front ++ first :: rest ∧ Unmarked inFiles front ∧
      inFilesAfter inFiles front = true ∧ isNvidiaBeginMarker first = true ∧
      rest.foldlM purgeStep (opened (offset + front.length) [] (offset + front.length + 1)) = .ok t

theorem Opens.cons {inFiles : Bool} {line : Text} {lines : List Text}
    (hplain : isSectionHeader line = false → inFiles = true →
      isNvidiaBeginMarker line = false ∧ isNvidiaEndMarker line = false)
    (h : Opens t (filesAfter inFiles line) (offset + 1) lines) : Opens t inFiles offset (line :: lines) := by
  rcases h with hrest | ⟨front, first, rest, rfl, hfront, hin, hfirst, hrun⟩
  · exact .inl ⟨hplain, hrest⟩
  · refine .inr ⟨line :: front, first, rest, rfl, ⟨hplain, hfront⟩, hin, hfirst, ?_⟩
    rw [List.length_cons, Nat.add_comm front.length, ← Nat.add_assoc]
    exact hrun

theorem run_fresh {inFiles : Bool} {lines : List Text} (h : lines.foldlM purgeStep (fresh inFiles offset) = .ok t) :
    Opens t inFiles offset lines := by
  induction lines generalizing inFiles offset with
  | nil => exact .inl trivial
  | cons line lines ih =>
    rw [List.foldlM_cons, purgeStep_fresh] at h
    split_ifs at h with hheader hbegin hend
    · refine .cons (fun hnot => absurd hheader (by rw [hnot]; exact Bool.false_ne_true)) ?_
      rw [filesAfter_of_header hheader]
      exact ih h
    · rw [Bool.and_eq_true] at hbegin
      exact .inr ⟨[], line, lines, rfl, trivial, hbegin.1, hbegin.2, h⟩
    · cases h
    · refine .cons (fun _ hfiles => ?_) ?_
      · rw [hfiles, Bool.true_and] at hbegin hend
        exact ⟨by simpa using hbegin, by simpa using hend⟩
      · rw [filesAfter_of_not_header (by simpa using hheader)]
        exact ih h

theorem Marked.run {lines front middle back : List Text} {first last : Text}
    (h : Marked lines front first middle last back) :
    lines.foldlM purgeStep .start = .ok (closed (inFilesAfter true back) front.length (front.length + middle.length + 2)
      (managedValues middle) lines.length) := by
  have hfront := run_unmarked 0 h.front_unmarked
  rw [h.in_files, Nat.zero_add] at hfront
  have hfirst : purgeStep (fresh true front.length) first = .ok (opened front.length [] (front.length + 1)) := by
    rw [purgeStep_fresh, not_header_of_begin h.begins, h.begins]
    rfl
  have hmiddle := run_inner front.length [] (front.length + 1) h.inner
  rw [List.nil_append] at hmiddle
  have hlast : purgeStep (opened front.length (managedValues middle) (front.length + 1 + middle.length)) last =
      .ok (closed true front.length (front.length + middle.length + 2) (managedValues middle)
        (front.length + middle.length + 2)) := by
    rw [purgeStep_opened, not_header_of_end h.ends, not_begin_of_end h.ends, h.ends]
    simp only [Bool.false_eq_true, if_false, if_true]
    congr 2 <;> omega
  have hback := (run_closed true front.length (front.length + middle.length + 2) (managedValues middle)
    (front.length + middle.length + 2) back).mpr ⟨h.back_unmarked, rfl⟩
  have hlength : lines.length = front.length + middle.length + 2 + back.length := by
    rw [h.split]
    simp only [List.length_append, List.length_cons]
    omega
  rw [hlength, h.split, List.foldlM_append, show PurgeState.start = fresh false 0 from rfl, hfront]
  simp only [bind, Except.bind, List.foldlM_cons, List.foldlM_append, hfirst, hmiddle, hlast, hback]

theorem purge_unmarked {content : Text} (h : Unmarked false (pieces '\n' content)) :
    purgeNvidiaBlock content = .ok (content, []) := by
  have hrun : (pieces '\n' content).foldlM purgeStep .start = _ := run_unmarked 0 h
  simp only [purgeNvidiaBlock, hrun, bind, Except.bind]
  rfl

theorem Marked.purge {content : Text} {front middle back : List Text} {first last : Text}
    (h : Marked (pieces '\n' content) front first middle last back) :
    purgeNvidiaBlock content = .ok ((front ++ back).flatten, managedValues middle) := by
  have hfront : (pieces '\n' content).take front.length = front := by
    rw [h.split, List.take_left]
  have hback : (pieces '\n' content).drop (front.length + middle.length + 2) = back := by
    have hshape : pieces '\n' content = (front ++ first :: (middle ++ [last])) ++ back := by
      rw [h.split]
      simp
    have hlength : front.length + middle.length + 2 = (front ++ first :: (middle ++ [last])).length := by
      simp only [List.length_append, List.length_cons, List.length_nil]
      omega
    rw [hshape, hlength, List.drop_left]
  simp only [purgeNvidiaBlock, h.run, bind, Except.bind, closed, hfront, hback]
  rfl

/-- The purge finds what stands outside the block, and fails if the markers are not in order. -/
theorem outside_of_purge {content clean : Text} {values : List Text} (h : purgeNvidiaBlock content = .ok (clean, values)) :
    ∃ outside, Outside (pieces '\n' content) outside ∧ clean = outside.flatten := by
  have hresult := h
  unfold purgeNvidiaBlock at h
  cases hrun : (pieces '\n' content).foldlM purgeStep .start with
  | error error =>
    simp only [hrun, bind, Except.bind] at h
    cases h
  | ok t =>
    simp only [hrun, bind, Except.bind] at h
    rcases run_fresh hrun with hplain | ⟨front, first, rest, hsplit, hfront, hin, hfirst, hrest⟩
    · rw [purge_unmarked hplain] at hresult
      cases hresult
      exact ⟨_, .inl ⟨hplain, rfl⟩, (flatten_pieces _).symm⟩
    · rcases run_opened hrest with ⟨hend, hstart⟩ | ⟨middle, last, back, rfl, hinner, hlast, hback, rfl⟩
      · rw [hend, hstart] at h
        cases h
      · have hmarked : Marked (pieces '\n' content) front first middle last back :=
          ⟨hsplit, hfront, hin, hfirst, hinner, hlast, hback⟩
        rw [hmarked.purge] at hresult
        cases hresult
        exact ⟨_, .inr ⟨front, first, middle, last, back, hmarked, rfl⟩, rfl⟩

theorem Outside.purge {content : Text} {outside : List Text} (h : Outside (pieces '\n' content) outside) :
    ∃ values, purgeNvidiaBlock content = .ok (outside.flatten, values) := by
  rcases h with ⟨hplain, rfl⟩ | ⟨front, first, middle, last, back, hmarked, rfl⟩
  · exact ⟨[], by rw [purge_unmarked hplain, flatten_pieces]⟩
  · exact ⟨_, hmarked.purge⟩

/-- The lines outside the block are the lines of the purged file. -/
theorem Outside.pieces_flatten {content : Text} {outside : List Text} (h : Outside (pieces '\n' content) outside) :
    pieces '\n' outside.flatten = outside := by
  rcases h with ⟨-, rfl⟩ | ⟨front, first, middle, last, back, hmarked, rfl⟩
  · rw [flatten_pieces]
  · have hsub : (front ++ back).Sublist (pieces '\n' content) := by
      rw [hmarked.split]
      have hback : back.Sublist (middle ++ last :: back) :=
        (List.sublist_cons_self last back).trans (List.sublist_append_right middle _)
      exact (List.Sublist.refl front).append (hback.cons first)
    exact pieces_flatten_sublist hsub

end Markers

end Lasper.Nvidia
