import Lasper.Lib.Checked
import Lasper.Nvidia.Matching

/-! Applying the surgery twice. A file that the surgery has left has its block at
the end of the first section of files, and nothing left to drop; doing it again
only writes the block anew, in the line ending of what stands around it. -/

namespace Lasper.Nvidia

open Lib Config

section Validated

theorem validateAbsoluteValue_ok {label : String} {value : Text} (h : validateAbsoluteValue label value = .ok ()) :
    value.head? = some '/' ∧ '\n' ∉ value := by
  unfold validateAbsoluteValue at h
  obtain ⟨_, htext, h⟩ := bind_ok h
  split_ifs at h with habsolute
  refine ⟨by simpa [Path.isAbsolute] using habsolute, fun hmem => ?_⟩
  have hcontrol : value.any isControl = true := List.any_eq_true.mpr ⟨'\n', hmem, by decide⟩
  rw [validateTextValue, if_pos (.inr (.inr hcontrol))] at htext
  cases htext

theorem validateState_binds {state : NvidiaState} (h : validateState state = .ok ()) :
    ∀ bind ∈ state.binds, (bind.hostPath.head? = some '/' ∧ bind.containerPath.head? = some '/') ∧ OneLine bind := by
  unfold validateState at h
  split_ifs at h
  obtain ⟨_, -, h⟩ := bind_ok h
  obtain ⟨_, hbinds, -⟩ := bind_ok h
  intro bind hbind
  obtain ⟨_, hhost, hcontainer⟩ := bind_ok (forM_ok hbinds bind hbind)
  have hhost := validateAbsoluteValue_ok hhost
  have hcontainer := validateAbsoluteValue_ok hcontainer
  exact ⟨⟨hhost.1, hcontainer.1⟩, hhost.2, hcontainer.2⟩

end Validated

section Endings

def crlf : Text := ['\r', '\n']

theorem Ended.crlf_infix {line rest : Text} (h : Ended '\n' line) :
    crlf <:+: line ++ rest ↔ crlf <:+: line ∨ crlf <:+: rest := by
  rw [List.infix_append_iff_ne_nil]
  constructor
  · rintro (hline | hrest | ⟨one, two, hone, htwo, hsplit, hsuffix, -⟩)
    · exact .inl hline
    · exact .inr hrest
    · -- The two characters cannot be parted by the end of a line.
      cases one with
      | nil => exact absurd rfl hone
      | cons c one =>
        cases one with
        | nil =>
          obtain ⟨hc, -⟩ := List.cons.inj hsplit
          obtain ⟨front, hfront⟩ := hsuffix
          have hlast := Ended.getLast? h
          rw [← hfront, List.getLast?_concat, ← hc] at hlast
          cases hlast
        | cons d one =>
          have hlength := congrArg List.length hsplit
          have htwo' := List.length_pos_iff.mpr htwo
          simp only [crlf, List.length_cons, List.length_append, List.length_nil] at hlength
          omega
  · rintro (hline | hrest)
    · exact .inl hline
    · exact .inr (.inl hrest)

/-- Where the two characters stand, one line has them. -/
theorem crlf_infix_flatten {lines : List Text} (h : Pieced '\n' lines) :
    crlf <:+: lines.flatten ↔ ∃ line ∈ lines, crlf <:+: line := by
  induction lines with
  | nil => simp [crlf]
  | cons line rest ih =>
    rw [List.flatten_cons, List.exists_mem_cons_iff]
    rcases h.1 with hended | ⟨rfl, -⟩
    · rw [Ended.crlf_infix hended, ih h.2]
    · simp

theorem lineEndingOf_eq (content : Text) : lineEndingOf content = if crlf <:+: content then crlf else ['\n'] := rfl

theorem getLast?_flatten_of_ended {lines : List Text} (h : ∀ line ∈ lines, Ended '\n' line) (hne : lines ≠ []) :
    lines.flatten.getLast? = some '\n' := by
  have hlast := h _ (List.getLast_mem hne)
  rw [← List.dropLast_append_getLast hne, List.flatten_append, List.flatten_singleton,
    List.getLast?_append_of_ne_nil _ hlast.ne_nil]
  exact Ended.getLast? hlast

theorem ended_of_getLast? {lines : List Text} (h : Pieced '\n' lines) (hlast : lines.flatten.getLast? = some '\n') :
    ∀ line ∈ lines, Ended '\n' line := by
  induction lines with
  | nil => exact nofun
  | cons line rest ih =>
    intro other hother
    rcases h.1 with hended | ⟨rfl, -, hplain⟩
    · rcases List.mem_cons.mp hother with rfl | hother
      · exact hended
      · have hrest := Pieced.flatten_ne_nil h.2 (List.ne_nil_of_mem hother)
        rw [List.flatten_cons, List.getLast?_append_of_ne_nil _ hrest] at hlast
        exact ih h.2 hlast other hother
    · rw [List.flatten_singleton] at hlast
      exact absurd (List.mem_of_getLast? hlast) hplain

end Endings

section Settled

variable {newBinds removedBinds : List NspawnBindSemantics}

theorem strip_strip (newBinds removedBinds : List NspawnBindSemantics) (inFiles : Bool) (lines : List Text) :
    strip newBinds removedBinds inFiles (strip newBinds removedBinds inFiles lines) =
      strip newBinds removedBinds inFiles lines := by
  induction lines generalizing inFiles with
  | nil => rfl
  | cons line lines ih =>
    rw [strip]
    split_ifs with hdrop
    · exact ih inFiles
    · rw [strip, if_neg hdrop, ih]

theorem Conflicting.of_strip {inFiles : Bool} {lines : List Text}
    (h : Conflicting newBinds removedBinds inFiles (strip newBinds removedBinds inFiles lines)) :
    Conflicting newBinds removedBinds inFiles lines := by
  induction lines generalizing inFiles with
  | nil => exact h
  | cons line lines ih =>
    rw [strip] at h
    split_ifs at h with hdrop
    · refine .inr ?_
      rw [filesAfter_of_not_header hdrop.1]
      exact ih h
    · exact h.imp id ih

theorem conflicting_append {inFiles : Bool} {front back : List Text} :
    Conflicting newBinds removedBinds inFiles (front ++ back) ↔
      Conflicting newBinds removedBinds inFiles front ∨
        Conflicting newBinds removedBinds (inFilesAfter inFiles front) back := by
  induction front generalizing inFiles with
  | nil => exact (false_or _).symm ▸ Iff.rfl
  | cons line front ih =>
    rw [List.cons_append, Conflicting, ih, Conflicting, or_assoc]
    rfl

/-- A section loses lines, but no header. -/
theorem strip_section (lines : List Text) :
    (strip newBinds removedBinds true lines).takeWhile (! isSectionHeader ·) =
        strip newBinds removedBinds true (lines.takeWhile (! isSectionHeader ·)) ∧
      (strip newBinds removedBinds true lines).dropWhile (! isSectionHeader ·) =
        strip newBinds removedBinds true (lines.dropWhile (! isSectionHeader ·)) := by
  induction lines with
  | nil => exact ⟨rfl, rfl⟩
  | cons line lines ih =>
    cases hheader : isSectionHeader line with
    | true =>
      have hkept : strip newBinds removedBinds true (line :: lines) =
          line :: strip newBinds removedBinds (filesAfter true line) lines := by
        rw [strip, if_neg (by rw [hheader]; exact fun hdrop => absurd hdrop.1.symm Bool.false_ne_true)]
      rw [List.takeWhile_cons_of_neg (by simp [hheader]), List.dropWhile_cons_of_neg (by simp [hheader]), hkept,
        List.takeWhile_cons_of_neg (by simp [hheader]), List.dropWhile_cons_of_neg (by simp [hheader])]
      exact ⟨rfl, rfl⟩
    | false =>
      rw [List.takeWhile_cons_of_pos (by simp [hheader]), List.dropWhile_cons_of_pos (by simp [hheader]), strip, strip,
        filesAfter_of_not_header hheader]
      split_ifs with hdrop
      · exact ih
      · rw [List.takeWhile_cons_of_pos (by simp [hheader]), List.dropWhile_cons_of_pos (by simp [hheader]), ih.1, ih.2]
        exact ⟨rfl, rfl⟩

theorem filesSpan_strip {lines front back : List Text} (h : filesSpan lines = some (front, back)) :
    filesSpan (strip newBinds removedBinds false lines) =
      some (strip newBinds removedBinds false front, strip newBinds removedBinds true back) := by
  induction lines generalizing front back with
  | nil => cases h
  | cons line lines ih =>
    have hkept : ∀ rest, strip newBinds removedBinds false (line :: rest) =
        line :: strip newBinds removedBinds (filesAfter false line) rest := by
      intro rest
      rw [strip, if_neg fun hdrop => Bool.false_ne_true hdrop.2.1]
    unfold filesSpan at h
    split_ifs at h with hfiles
    · cases h
      have hboth := Bool.and_eq_true _ _ ▸ hfiles
      rw [hkept, hkept, filesSpan, if_pos hfiles, filesAfter_of_header hboth.1, hboth.2, (strip_section lines).1,
        (strip_section lines).2]
    · obtain ⟨⟨front', back'⟩, hrest, hsplit⟩ := Option.map_eq_some_iff.mp h
      cases hsplit
      have hafter : filesAfter false line = false := by
        unfold filesAfter
        split_ifs with hheader
        · simpa [hheader] using hfiles
        · rfl
      rw [hkept, hkept, filesSpan, if_neg hfiles, hafter, ih hrest]
      rfl

theorem filesSpan_append_of_none {front : List Text} (h : filesSpan front = none) (back : List Text) :
    filesSpan (front ++ back) = (filesSpan back).map fun (first, rest) => (front ++ first, rest) := by
  induction front with
  | nil =>
    cases hback : filesSpan back with
    | none => rw [List.nil_append, hback]; rfl
    | some span => rw [List.nil_append, hback]; rfl
  | cons line front ih =>
    unfold filesSpan at h
    split_ifs at h with hfiles
    rw [List.cons_append, filesSpan, if_neg hfiles, ih (Option.map_eq_none_iff.mp h), Option.map_map]
    rfl

theorem complete_of_ended {lineEnding : Text} {lines : List Text} (h : ∀ line ∈ lines, Ended '\n' line) :
    complete lineEnding lines = lines := by
  induction lines with
  | nil => rfl
  | cons line rest ih =>
    have hrest := ih fun other hother => h other (List.mem_cons_of_mem _ hother)
    cases rest with
    | nil => rw [complete, if_pos (Ended.getLast? (h line List.mem_cons_self))]
    | cons next rest => rw [complete, hrest]

variable (newBinds removedBinds)

/-- Lines around a block that was put in its place: nothing to drop, nothing in the way. -/
structure Settled (front back : List Text) : Prop where
  ended : ∀ line ∈ front, Ended '\n' line
  back_pieced : Pieced '\n' back
  span : filesSpan (front ++ back) = some (front, back)
  kept_front : strip newBinds removedBinds false front = front
  kept_back : strip newBinds removedBinds true back = back
  clear : ¬ Conflicting newBinds removedBinds false (front ++ back)

variable {newBinds removedBinds} {front back : List Text} {lineEnding : Text} {binds : List PassthroughBind}

theorem Settled.nonempty (h : Settled newBinds removedBinds front back) : front ≠ [] :=
  (filesSpan_spec h.span false).1

/-- The block is written anew, and nothing else changes. -/
theorem Settled.placeBlock (h : Settled newBinds removedBinds front back) {content : Text}
    (houtside : Outside (pieces '\n' content) (front ++ back)) (binds : List PassthroughBind) :
    Nvidia.placeBlock (front ++ back).flatten (rewrite newBinds removedBinds (front ++ back).flatten) binds =
      front.flatten ++ (blockLines (lineEndingOf (front ++ back).flatten) true binds).flatten ++ back.flatten := by
  have hended : decide (back.flatten ≠ [] ∨ (front ++ back).flatten.getLast? = some '\n') = true := by
    rw [decide_eq_true_eq]
    by_cases hback : back = []
    · rw [hback, List.append_nil]
      exact .inr (getLast?_flatten_of_ended h.ended h.nonempty)
    · exact .inl (Pieced.flatten_ne_nil h.back_pieced hback)
  rw [placeBlock_within houtside binds h.span, h.kept_front, h.kept_back, complete_of_ended h.ended, hended]

end Settled

section Ending

/-- The end of the file is not the end of the block, or is the end of a line. -/
def KeepsEnding (outside : List Text) : Prop :=
  (∃ front back, filesSpan outside = some (front, back) ∧ back ≠ []) ∨ outside.flatten.getLast? = some '\n'

/-- If the line endings are those of some line, it is not only of lines that are dropped. -/
def KeepsStyle (newBinds removedBinds : List NspawnBindSemantics) (outside : List Text) : Prop :=
  crlf <:+: outside.flatten → crlf <:+: (strip newBinds removedBinds false outside).flatten

variable {newBinds removedBinds : List NspawnBindSemantics} {outside : List Text} {lineEnding : Text}
  {binds : List PassthroughBind} {content : Text}

theorem filesSpan_header (hle : IsLineEnding lineEnding) :
    isSectionHeader (filesHeader ++ lineEnding) = true ∧ isFilesSection (filesHeader ++ lineEnding) = true := by
  rw [isSectionHeader, isFilesSection, hle.trim_append]
  decide

theorem blank_plain (hle : IsLineEnding lineEnding) :
    isSectionHeader lineEnding = false ∧ parseNspawnBindLine lineEnding = none := by
  rcases hle.eq with rfl | rfl <;> decide

theorem setOff_of_ended (lineEnding : Text) {lines : List Text} (h : ∀ line ∈ lines, Ended '\n' line) (hpieced : Pieced '\n' lines)
    (hne : lines ≠ []) :
    ∃ blank, (blank = [] ∨ blank = [lineEnding]) ∧ setOff lineEnding lines.flatten = (lines ++ blank).flatten := by
  rw [setOff_complete hpieced hne, complete_of_ended h]
  split_ifs
  · exact ⟨[], .inl rfl, by rw [List.append_nil]⟩
  · exact ⟨[lineEnding], .inr rfl, by rw [List.flatten_append, List.flatten_singleton]⟩

theorem settled_within (h : Outside (pieces '\n' content) outside)
    (hclear : ¬ Conflicting newBinds removedBinds false outside) (hkeeps : KeepsEnding outside) {front back : List Text}
    (hspan : filesSpan outside = some (front, back)) :
    Settled newBinds removedBinds (strip newBinds removedBinds false front)
      (strip newBinds removedBinds true back) := by
  obtain ⟨-, hfiles, -⟩ := filesSpan_spec hspan false
  have hsplit := filesSpan_append hspan
  have hpieced := h.pieced
  have hkept : strip newBinds removedBinds false outside =
      strip newBinds removedBinds false front ++ strip newBinds removedBinds true back := by
    rw [hsplit, strip_append, hfiles]
  have hended : ∀ line ∈ front, Ended '\n' line := by
    rcases hkeeps with ⟨front', back', hspan', hback⟩ | hlast
    · cases hspan.symm.trans hspan'
      obtain ⟨line, rest, rfl⟩ := List.exists_cons_of_ne_nil hback
      rw [hsplit] at hpieced
      exact Pieced.ended hpieced
    · intro line hline
      exact ended_of_getLast? hpieced hlast line (by rw [hsplit]; exact List.mem_append_left _ hline)
  constructor
  · exact fun line hline => hended line ((strip_sublist _ _ _ _).subset hline)
  · rw [hsplit] at hpieced
    exact hpieced.sublist ((strip_sublist _ _ _ _).trans (List.sublist_append_right front back))
  · rw [← hkept, filesSpan_strip hspan]
  · exact strip_strip _ _ _ _
  · exact strip_strip _ _ _ _
  · rw [← hkept]
    exact fun hconflict => hclear hconflict.of_strip

theorem settled_appended (hle : IsLineEnding lineEnding) (h : ∀ line ∈ outside, Ended '\n' line)
    (hclear : ¬ Conflicting newBinds removedBinds false outside) (hspan : filesSpan outside = none)
    {blank : List Text} (hblank : blank = [] ∨ blank = [lineEnding]) :
    Settled newBinds removedBinds (outside ++ blank ++ [filesHeader ++ lineEnding]) [] := by
  obtain ⟨hheader, hsection⟩ := filesSpan_header hle
  have hblankSpan : filesSpan blank = none := by
    rcases hblank with rfl | rfl
    · rfl
    · rw [filesSpan, (blank_plain hle).1]
      rfl
  have hbefore : filesSpan (outside ++ blank) = none := by
    rw [filesSpan_append_of_none hspan, hblankSpan]
    rfl
  constructor
  · intro line hline
    rcases List.mem_append.mp hline with hline | hline
    · rcases List.mem_append.mp hline with hline | hline
      · exact h line hline
      · rcases hblank with rfl | rfl
        · cases hline
        · rw [List.mem_singleton.mp hline]
          exact hle.ended List.not_mem_nil
    · rw [List.mem_singleton.mp hline]
      exact hle.ended (by decide)
  · exact trivial
  · rw [List.append_nil, filesSpan_append_of_none hbefore, filesSpan, hheader, hsection]
    rfl
  · rw [strip_append, strip_of_no_files hbefore, strip, if_neg (by
      rw [hheader]
      intro hdrop
      cases hdrop.1)]
    rfl
  · rfl
  · rw [List.append_nil, conflicting_append, conflicting_append]
    rintro ((hconflict | hconflict) | hconflict)
    · exact hclear hconflict
    · rcases hblank with rfl | rfl
      · exact hconflict
      · rcases hconflict with ⟨-, -, bind, hbind, -⟩ | hconflict
        · rw [(blank_plain hle).2] at hbind
          cases hbind
        · exact hconflict
    · rcases hconflict with ⟨hnot, -⟩ | hconflict
      · rw [hheader] at hnot
        cases hnot
      · exact hconflict

theorem style_within (hpieced : Pieced '\n' outside) :
    lineEndingOf (strip newBinds removedBinds false outside).flatten = lineEndingOf outside.flatten ↔
      KeepsStyle newBinds removedBinds outside := by
  have hless : crlf <:+: (strip newBinds removedBinds false outside).flatten → crlf <:+: outside.flatten := by
    have hsub := strip_sublist newBinds removedBinds false outside
    rw [crlf_infix_flatten (hpieced.sublist hsub), crlf_infix_flatten hpieced]
    rintro ⟨line, hline, hcrlf⟩
    exact ⟨line, hsub.subset hline, hcrlf⟩
  rw [KeepsStyle, lineEndingOf_eq, lineEndingOf_eq]
  by_cases hall : crlf <:+: outside.flatten
  · by_cases hkept : crlf <:+: (strip newBinds removedBinds false outside).flatten
    · simp only [hall, hkept, if_true]
      exact ⟨fun _ _ => trivial, fun _ => trivial⟩
    · simp only [hall, hkept, if_true, if_false]
      exact ⟨fun hsame => absurd hsame (by decide), fun himp => (himp trivial).elim⟩
  · have hnone : ¬ crlf <:+: (strip newBinds removedBinds false outside).flatten := fun hkept => hall (hless hkept)
    simp only [hall, hnone, if_false]
    exact ⟨fun _ => id, fun _ => trivial⟩

theorem style_appended (h : ∀ line ∈ outside, Ended '\n' line) {blank : List Text}
    (hblank : blank = [] ∨ blank = [lineEndingOf outside.flatten]) :
    lineEndingOf (outside ++ blank ++ [filesHeader ++ lineEndingOf outside.flatten]).flatten =
      lineEndingOf outside.flatten := by
  have hpieced : Pieced '\n' outside := by
    have happend := Pieced.append h (show Pieced '\n' [] from trivial)
    rwa [List.append_nil] at happend
  have htext : (outside ++ blank ++ [filesHeader ++ lineEndingOf outside.flatten]).flatten =
      outside.flatten ++ (blank ++ [filesHeader ++ lineEndingOf outside.flatten]).flatten := by
    simp
  rw [htext]
  by_cases hall : crlf <:+: outside.flatten
  · rw [lineEndingOf_eq (outside.flatten ++ _), if_pos (List.infix_append_of_infix_left hall), lineEndingOf_eq, if_pos hall]
  · have hplain : lineEndingOf outside.flatten = ['\n'] := by
      rw [lineEndingOf_eq, if_neg hall]
    rw [hplain] at hblank ⊢
    have hnone : ∀ rest : Text, ¬ crlf <:+: rest → ¬ crlf <:+: outside.flatten ++ rest := by
      intro rest hrest
      clear hplain htext hblank
      induction outside with
      | nil => exact hrest
      | cons line lines ih =>
        rw [List.flatten_cons] at hall ⊢
        rw [List.append_assoc, Ended.crlf_infix (h line List.mem_cons_self)]
        rw [Ended.crlf_infix (h line List.mem_cons_self), not_or] at hall
        exact not_or.mpr ⟨hall.1,
          ih (fun other hother => h other (List.mem_cons_of_mem _ hother)) hpieced.2 hall.2⟩
    rw [lineEndingOf_eq, if_neg (hnone _ _)]
    rcases hblank with rfl | rfl <;> decide +kernel

/-- After one surgery the file is settled, if its ending is kept. -/
theorem settled_result (h : Outside (pieces '\n' content) outside)
    (hclear : ¬ Conflicting newBinds removedBinds false outside) (hkeeps : KeepsEnding outside)
    (binds : List PassthroughBind) :
    ∃ front back, Settled newBinds removedBinds front back ∧
      placeBlock outside.flatten (rewrite newBinds removedBinds outside.flatten) binds =
        front.flatten ++ (blockLines (lineEndingOf outside.flatten) true binds).flatten ++ back.flatten ∧
      (front ++ back).flatten =
        supplied (lineEndingOf outside.flatten) outside (strip newBinds removedBinds false outside).flatten ∧
      (lineEndingOf (front ++ back).flatten = lineEndingOf outside.flatten ↔
        KeepsStyle newBinds removedBinds outside) := by
  have hle := lineEndingOf_isLineEnding outside.flatten
  cases hspan : filesSpan outside with
  | none =>
    have hlast : outside.flatten.getLast? = some '\n' := by
      rcases hkeeps with ⟨front, back, hspan', -⟩ | hlast
      · cases hspan.symm.trans hspan'
      · exact hlast
    have hended := ended_of_getLast? h.pieced hlast
    have hne : outside ≠ [] := by
      rintro rfl
      cases hlast
    obtain ⟨blank, hblank, hsetOff⟩ := setOff_of_ended (lineEndingOf outside.flatten) hended h.pieced hne
    refine ⟨_, [], settled_appended hle hended hclear hspan hblank, ?_, ?_, ?_⟩
    · rw [placeBlock_appended h binds hspan, hsetOff, hlast]
      simp
    · rw [supplied, hspan, strip_of_no_files hspan]
      simp [hsetOff]
    · rw [List.append_nil, style_appended hended hblank, KeepsStyle, strip_of_no_files hspan]
      exact ⟨fun _ => id, fun _ => rfl⟩
  | some span =>
    obtain ⟨front, back⟩ := span
    have hsettled := settled_within h hclear hkeeps hspan
    obtain ⟨-, hfiles, hheader⟩ := filesSpan_spec hspan false
    have hkept : strip newBinds removedBinds false front ++ strip newBinds removedBinds true back =
        strip newBinds removedBinds false outside := by
      rw [filesSpan_append hspan, strip_append, hfiles]
    have hended : decide ((strip newBinds removedBinds true back).flatten ≠ [] ∨
        outside.flatten.getLast? = some '\n') = true := by
      rw [decide_eq_true_eq]
      rcases hkeeps with ⟨front', back', hspan', hback⟩ | hlast
      · cases hspan.symm.trans hspan'
        exact .inl (Pieced.flatten_ne_nil hsettled.back_pieced fun hnil => hback (strip_eq_nil hheader hnil))
      · exact .inr hlast
    refine ⟨_, _, hsettled, ?_, ?_, ?_⟩
    · rw [placeBlock_within h binds hspan, complete_of_ended hsettled.ended, hended]
    · rw [supplied, hspan, hkept]
      dsimp only
      rw [if_neg]
      rintro ⟨rfl, hlast⟩
      rw [← hkept, show strip newBinds removedBinds true [] = [] from rfl, List.append_nil] at hlast
      exact hlast (getLast?_flatten_of_ended hsettled.ended hsettled.nonempty)
    · rw [hkept]
      exact style_within h.pieced

theorem IsLineEnding.getLast? (h : IsLineEnding lineEnding) (text : Text) :
    (text ++ lineEnding).getLast? = some '\n' := by
  rcases h.eq with rfl | rfl
  · exact List.getLast?_concat
  · rw [List.getLast?_append_of_ne_nil _ (List.cons_ne_nil _ _)]
    rfl

theorem getLast?_blockLines (hle : IsLineEnding lineEnding) (text : Text) (ended : Bool) (binds : List PassthroughBind) :
    (text ++ (blockLines lineEnding ended binds).flatten).getLast? = if ended then some '\n' else some 'e' := by
  have hlast : (text ++ (blockLines lineEnding ended binds).flatten) =
      text ++ (nvidiaBlockBegin ++ lineEnding) ++ (binds.map (bindLine · ++ lineEnding)).flatten ++ nvidiaBlockEnd ++
        if ended then lineEnding else [] := by
    simp [blockLines]
  rw [hlast]
  cases ended with
  | true => exact hle.getLast? _
  | false =>
    rw [if_neg Bool.false_ne_true, List.append_nil, List.getLast?_append_of_ne_nil _ (by decide)]
    decide

/-- A file that ends in a line ending still does. -/
theorem placeBlock_ended (newBinds removedBinds : List NspawnBindSemantics)
    (h : Outside (pieces '\n' content) outside) (hlast : outside.flatten.getLast? = some '\n')
    (binds : List PassthroughBind) :
    (placeBlock outside.flatten (rewrite newBinds removedBinds outside.flatten) binds).getLast? = some '\n' := by
  have hle := lineEndingOf_isLineEnding outside.flatten
  have hended := ended_of_getLast? h.pieced hlast
  cases hspan : filesSpan outside with
  | none =>
    rw [placeBlock_appended h binds hspan, getLast?_blockLines hle, hlast]
    rfl
  | some span =>
    obtain ⟨front, back⟩ := span
    rw [placeBlock_within h binds hspan]
    by_cases hback : strip newBinds removedBinds true back = []
    · rw [hback, List.flatten_nil, List.append_nil, getLast?_blockLines hle, hlast]
      rfl
    · have hends : ∀ line ∈ strip newBinds removedBinds true back, Ended '\n' line := by
        intro line hline
        refine hended line ?_
        rw [filesSpan_append hspan]
        exact List.mem_append_right _ ((strip_sublist _ _ _ _).subset hline)
      have hend := getLast?_flatten_of_ended hends hback
      rw [List.getLast?_append_of_ne_nil _ fun hnil => by rw [hnil] at hend; cases hend]
      exact hend

/-- Otherwise the block ends the file, without a line ending but after one. -/
theorem placeBlock_unended (h : Outside (pieces '\n' content) outside) (hnot : ¬ KeepsEnding outside)
    (binds : List PassthroughBind) (kept : Text) :
    (placeBlock outside.flatten (rewrite newBinds removedBinds outside.flatten) binds).getLast? = some 'e' ∧
      (supplied (lineEndingOf outside.flatten) outside kept).getLast? = some '\n' := by
  have hle := lineEndingOf_isLineEnding outside.flatten
  rw [KeepsEnding, not_or] at hnot
  unfold supplied
  cases hspan : filesSpan outside with
  | none =>
    rw [placeBlock_appended h binds hspan, getLast?_blockLines hle, decide_eq_false hnot.2]
    exact ⟨rfl, hle.getLast? _⟩
  | some span =>
    obtain ⟨front, back⟩ := span
    have hback : back = [] := by
      by_contra hback
      exact hnot.1 ⟨front, back, hspan, hback⟩
    subst hback
    have hnone : strip newBinds removedBinds true [] = [] := rfl
    rw [placeBlock_within h binds hspan, hnone, List.flatten_nil, List.append_nil, getLast?_blockLines hle]
    refine ⟨by simp [hnot.2], ?_⟩
    dsimp only
    split_ifs with hlast
    · exact hle.getLast? kept
    · rw [not_and, not_not] at hlast
      exact hlast rfl

theorem blockLines_inj {other : Text} (hle : IsLineEnding lineEnding) (hother : IsLineEnding other)
    (h : (blockLines lineEnding true binds).flatten = (blockLines other true binds).flatten) : lineEnding = other := by
  simp only [blockLines, List.flatten_cons, List.append_assoc] at h
  have hrest := List.append_cancel_left h
  rcases hle.eq with rfl | rfl <;> rcases hother.eq with rfl | rfl
  · rfl
  · exact absurd (List.cons.inj hrest).1 (by decide)
  · exact absurd (List.cons.inj hrest).1 (by decide)
  · rfl

end Ending

section Convergence

variable {content result : Text} {state : NvidiaState} {removed : List PassthroughBind}

/-- What the second surgery finds is what the first left. -/
theorem apply_again {outside : List Text} (houtside : Outside (pieces '\n' content) outside)
    (hclear : ¬ Conflicting (state.binds.map .fromPassthrough) (removed.map .fromPassthrough) false outside)
    (hne : state.binds ≠ []) (hbinds : ∀ bind ∈ state.binds, OneLine bind)
    (hresult : result = placeBlock outside.flatten
      (rewrite (state.binds.map .fromPassthrough) (removed.map .fromPassthrough) outside.flatten) state.binds) :
    applyGpuPassthroughToContent result state removed = .ok result ↔
      KeepsEnding outside ∧
        KeepsStyle (state.binds.map .fromPassthrough) (removed.map .fromPassthrough) outside := by
  obtain ⟨front, last, back, hmarked, hsupplied⟩ :=
    placed_marked (state.binds.map .fromPassthrough) (removed.map .fromPassthrough) houtside hbinds
  rw [← hresult] at hmarked
  have hfound : Outside (pieces '\n' result) (front ++ back) := .inr ⟨_, _, _, _, _, hmarked, rfl⟩
  by_cases hkeeps : KeepsEnding outside
  · obtain ⟨front', back', hsettled, hplaced, hsame, hstyle⟩ := settled_result houtside hclear hkeeps state.binds
    have hlines : front ++ back = front' ++ back' := by
      have hpieced : Pieced '\n' (front' ++ back') := Pieced.append hsettled.ended hsettled.back_pieced
      rw [← hfound.pieces_flatten, hsupplied, ← hsame, hpieced.pieces_flatten]
    rw [hlines] at hfound
    obtain ⟨-, hconflicts, -⟩ := rewrite_eq (state.binds.map .fromPassthrough) (removed.map .fromPassthrough) hfound
    rw [apply_outside hfound]
    simp only [hconflicts.mpr hsettled.clear, hne, hsettled.placeBlock hfound]
    rw [← hstyle, and_iff_right hkeeps, hresult, hplaced]
    simp only [ne_eq, not_true_eq_false, if_false, Except.ok.injEq]
    constructor
    · intro heq
      have hblock := List.append_cancel_left (List.append_cancel_right heq)
      exact blockLines_inj (lineEndingOf_isLineEnding _) (lineEndingOf_isLineEnding _) hblock
    · intro heq
      rw [heq]
  · constructor
    · intro happly
      obtain ⟨outside', houtside', -, hresult'⟩ := apply_ok happly
      rw [if_neg hne] at hresult'
      obtain ⟨hend, hsupply⟩ := placeBlock_unended houtside hkeeps state.binds
        (strip (state.binds.map .fromPassthrough) (removed.map .fromPassthrough) false outside).flatten
      have hlast : outside'.flatten.getLast? = some '\n' := by
        obtain ⟨values, hpurge⟩ := houtside'.purge
        obtain ⟨values', hpurge'⟩ := hfound.purge
        have htext := (Prod.mk.inj (Except.ok.inj (hpurge.symm.trans hpurge'))).1
        rw [htext, hsupplied]
        exact hsupply
      have hagain := placeBlock_ended (state.binds.map .fromPassthrough) (removed.map .fromPassthrough) houtside' hlast state.binds
      rw [← hresult', hresult, hend] at hagain
      cases hagain
    · exact fun h => absurd h.1 hkeeps

theorem samePayload_marker (state : NvidiaState) (marker : Option Text) :
    NvidiaState.samePayload { state with ownershipMarker := marker } state = true := by
  simp [NvidiaState.samePayload]

/-- After a surgery the file agrees with the state, is left alone at the next
start, and would not be changed by another surgery: unless a path ends in space,
the driver's version is unknown, the block ends a file without a line ending, or
the only lines with carriage returns were dropped. -/
theorem surgery_converges_iff (happly : applyGpuPassthroughToContent content state removed = .ok result)
    (hne : state.binds ≠ []) (hvalid : validateState state = .ok ()) (hnodup : state.binds.Nodup) :
    (markerBindsMatchState result state = true ∧
      takesFastPath result { state with ownershipMarker := some nvidiaStateMarker } state = true ∧
      applyGpuPassthroughToContent result state removed = .ok result) ↔
    (∀ bind ∈ state.binds, Text.trim bind.hostPath = bind.hostPath ∧
      Text.trim bind.containerPath = bind.containerPath) ∧
    state.driverVersion ≠ [] ∧
    ∃ outside, Outside (pieces '\n' content) outside ∧ KeepsEnding outside ∧
      KeepsStyle (state.binds.map .fromPassthrough) (removed.map .fromPassthrough) outside := by
  have hbinds := validateState_binds hvalid
  obtain ⟨outside, houtside, hclear, hresult⟩ := apply_ok happly
  rw [if_neg hne] at hresult
  have honeLine := fun bind hbind => (hbinds bind hbind).2
  obtain ⟨front, last, back, hmarked, -⟩ :=
    placed_marked (state.binds.map .fromPassthrough) (removed.map .fromPassthrough) houtside honeLine
  rw [← hresult] at hmarked
  have hmatch := markerBindsMatchState_iff (lineEndingOf_isLineEnding outside.flatten)
    (fun bind hbind => (hbinds bind hbind).1) hnodup hmarked
  have hbegin : nvidiaBlockBegin <:+: result := by
    have hline : nvidiaBlockBegin ++ lineEndingOf outside.flatten ∈ pieces '\n' result := by
      rw [hmarked.split]
      exact List.mem_append_right _ List.mem_cons_self
    have hinfix := List.infix_of_mem_flatten hline
    rw [flatten_pieces] at hinfix
    exact List.infix_append_left.trans hinfix
  have hfast : takesFastPath result { state with ownershipMarker := some nvidiaStateMarker } state = true ↔
      state.driverVersion ≠ [] ∧ markerBindsMatchState result state = true := by
    simp only [takesFastPath, samePayload_marker, Bool.true_and, Bool.and_eq_true, decide_eq_true_eq, hbegin, and_true]
  have hsame : (∃ outside, Outside (pieces '\n' content) outside ∧ KeepsEnding outside ∧
      KeepsStyle (state.binds.map .fromPassthrough) (removed.map .fromPassthrough) outside) ↔
      KeepsEnding outside ∧ KeepsStyle (state.binds.map .fromPassthrough) (removed.map .fromPassthrough) outside := by
    constructor
    · rintro ⟨other, hother, hkeeps⟩
      obtain ⟨values, hpurge⟩ := houtside.purge
      obtain ⟨values', hpurge'⟩ := hother.purge
      have htext := (Prod.mk.inj (Except.ok.inj (hpurge.symm.trans hpurge'))).1
      rwa [← houtside.pieces_flatten, htext, hother.pieces_flatten]
    · exact fun hkeeps => ⟨outside, houtside, hkeeps⟩
  rw [hfast, hmatch, hsame, apply_again houtside hclear hne honeLine hresult]
  constructor
  · rintro ⟨htrim, ⟨hversion, -⟩, hkeeps⟩
    exact ⟨htrim, hversion, hkeeps⟩
  · rintro ⟨htrim, hversion, hkeeps⟩
    exact ⟨htrim, ⟨hversion, htrim⟩, hkeeps⟩

def dataFile : Text := "[Files]\nBind=/srv/data".toList

def dataFileBlock : Text :=
  "\n".toList ++ nvidiaBlockBegin ++ "\nBind=/dev/nvidia0\n".toList ++ nvidiaBlockEnd

/-- The state that a synchronization leaves for the next one: it has a profile. -/
def ensuredState : NvidiaState :=
  { bareState [deviceNode] with profile := some {
      gpuDevice := "all".toList
      mode := .mirror
      categoryDestinations := fun _ => none
      injectEnv := false
      manualClassifications := [] } }

theorem data_file_converges :
    markerBindsMatchState (dataFile ++ dataFileBlock ++ ['\n']) ensuredState = true ∧
      takesFastPath (dataFile ++ dataFileBlock ++ ['\n'])
        { ensuredState with ownershipMarker := some nvidiaStateMarker } ensuredState = true ∧
      applyGpuPassthroughToContent (dataFile ++ dataFileBlock ++ ['\n']) ensuredState [] =
        .ok (dataFile ++ dataFileBlock ++ ['\n']) := by
  have happly : applyGpuPassthroughToContent (dataFile ++ ['\n']) ensuredState [] =
      .ok (dataFile ++ dataFileBlock ++ ['\n']) := ok_of_toOption (by decide +kernel)
  have hpurge : purgeNvidiaBlock (dataFile ++ ['\n']) = .ok (dataFile ++ ['\n'], []) :=
    ok_of_toOption (by decide +kernel)
  have hvalid : validateState ensuredState = .ok () := ok_of_toOption (by decide +kernel)
  refine (surgery_converges_iff happly (by decide) hvalid (by decide +kernel)).mpr ⟨by decide +kernel, by decide, ?_⟩
  obtain ⟨outside, houtside, htext⟩ := outside_of_purge hpurge
  refine ⟨outside, houtside, .inr ?_, fun hcrlf => ?_⟩
  · rw [← htext]
    decide
  · rw [← htext] at hcrlf
    exact absurd hcrlf (by decide +kernel)

/-- The line ending that the first surgery needed before the block is taken by
the second for the end of the file. -/
theorem final_newline_appears :
    ¬ ∀ (content : Text) (state : NvidiaState) (removed : List PassthroughBind) (result : Text),
      applyGpuPassthroughToContent content state removed = .ok result → state.binds ≠ [] →
      validateState state = .ok () → state.binds.Nodup →
      markerBindsMatchState result state = true ∧
        takesFastPath result { state with ownershipMarker := some nvidiaStateMarker } state = true ∧
        applyGpuPassthroughToContent result state removed = .ok result := by
  intro hall
  have happly : (applyGpuPassthroughToContent dataFile ensuredState []).toOption =
      some (dataFile ++ dataFileBlock) := by decide +kernel
  have hagain : (applyGpuPassthroughToContent (dataFile ++ dataFileBlock) ensuredState []).toOption =
      some (dataFile ++ dataFileBlock ++ ['\n']) := by decide +kernel
  have hvalid : validateState ensuredState = .ok () := ok_of_toOption (by decide +kernel)
  have hsame := (hall dataFile ensuredState [] _ (ok_of_toOption happly) (by decide) hvalid
    (by decide +kernel)).2.2
  have htext := Except.ok.inj (hsame.symm.trans (ok_of_toOption hagain))
  exact absurd (congrArg List.length htext) (by decide +kernel)

end Convergence

end Lasper.Nvidia
