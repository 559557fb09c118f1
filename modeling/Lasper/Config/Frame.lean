import Lasper.Config.Plan

/-! What a ready patch leaves behind, line by line. The insertion is applied
before the line mutations whatever its place, so the patch is right when it
comes after every changed line; otherwise the ranges behind it have moved. -/

namespace Lasper.Config

open Lib

/-- The text of a line after the edit; nothing is left of a removed line. -/
def Inspected.rewritten (inspected : Inspected) (edit : ConfigurationEdit) (line : PhysicalLine) : Text :=
  (inspected.rewrite edit line).getD []

/-- The document with every line rewritten in its place and the added binds
together at the insertion point. -/
def Inspected.framedText (inspected : Inspected) (edit : ConfigurationEdit) (content : Text) : Text :=
  let lines := physicalLines content
  if edit.additions = [] then lines.flatMap (inspected.rewritten edit)
  else
    (lines.filter (·.stop ≤ (insertionPoint content).offset)).flatMap (inspected.rewritten edit) ++
      insertionText content (edit.additions.map inspected.encodeAddition) ++
      (lines.filter (¬ ·.stop ≤ (insertionPoint content).offset)).flatMap (inspected.rewritten edit)

/-- Nothing is added, or every line that changes ends at or before the insertion point. -/
def EditsPrecedeInsertion (inspected : Inspected) (edit : ConfigurationEdit) (content : Text) : Prop :=
  edit.additions = [] ∨ ∀ line ∈ physicalLines content,
    inspected.rewrite edit line ≠ some line.raw → line.stop ≤ (insertionPoint content).offset

section Frame

variable {inspected : Inspected} {edit : ConfigurationEdit} {content : Text}

theorem editedText_edits (line : PhysicalLine) :
    editedText (inspected.edits edit) line = inspected.rewritten edit line := by
  unfold editedText Inspected.edits Inspected.rewritten
  split_ifs with h
  · rw [h]
    rfl
  · rfl

/-- Lines that no request changes stay as they are. -/
theorem rewritten_of_unchanged {lines : List PhysicalLine}
    (h : ∀ line ∈ lines, inspected.rewrite edit line = some line.raw) :
    lines.flatMap (inspected.rewritten edit) = linesText lines := by
  refine List.flatMap_congr fun line hl => ?_
  rw [Inspected.rewritten, h line hl]
  rfl

theorem edits_of_unchanged {lines : List PhysicalLine}
    (h : ∀ line ∈ lines, inspected.rewrite edit line = some line.raw) :
    lines.filterMap (fun line => (inspected.edits edit line).map (lineMutation line)) = [] := by
  refine List.filterMap_eq_nil_iff.mpr fun line hl => ?_
  rw [Inspected.edits, if_pos (h line hl)]
  rfl

theorem applyMutations_edits {lines : List PhysicalLine} {number : ℕ} (hl : Laid number 0 lines)
    (after : Text) :
    applyMutations (linesText lines ++ after)
        (lines.filterMap fun line => (inspected.edits edit line).map (lineMutation line)) =
      some (lines.flatMap (inspected.rewritten edit) ++ after) := by
  have hempty : Text.byteLen [] = 0 := rfl
  have happly := applyMutations_lines hl (inspected.edits edit) hempty after
  rw [List.nil_append, List.nil_append] at happly
  rw [happly, List.flatMap_congr fun line _ => editedText_edits line]

theorem Laid.front {number offset : ℕ} {front back : List PhysicalLine}
    (h : Laid number offset (front ++ back)) : Laid number offset front := by
  induction front generalizing number offset with
  | nil => trivial
  | cons line front ih =>
    obtain ⟨hn, hs, hne, hrest⟩ := h
    exact ⟨hn, hs, hne, ih hrest⟩

theorem Plan.framed {mutations : List SourceMutation} {after : Text}
    (h : Plan inspected edit content mutations) (happly : applyMutations content mutations = some after)
    (hc : EditsPrecedeInsertion inspected edit content) : after = inspected.framedText edit content := by
  have hlaid := physicalLines_laid content
  rw [h.mutations_eq] at happly
  unfold Inspected.framedText
  dsimp only
  by_cases hadd : edit.additions = []
  · rw [if_pos hadd] at happly ⊢
    have hlines : applyMutations (linesText (physicalLines content) ++ [])
        ((physicalLines content).filterMap fun line =>
          (inspected.edits edit line).map (lineMutation line)) =
        some ((physicalLines content).flatMap (inspected.rewritten edit) ++ []) :=
      applyMutations_edits hlaid []
    rw [List.append_nil, List.append_nil, linesText_physicalLines] at hlines
    rw [List.append_nil, hlines] at happly
    exact (Option.some.inj happly).symm
  · rw [if_neg hadd] at happly ⊢
    obtain ⟨front, back, hsplit, hoffset⟩ := insertionPoint_boundary content
    rw [hsplit] at hlaid
    have hfilter := hlaid.filter_stop
    rw [Nat.zero_add, ← hoffset] at hfilter
    have hback : ∀ line ∈ back, inspected.rewrite edit line = some line.raw := by
      intro line hline
      by_contra hne
      have hstop := hc.resolve_left hadd line (by rw [hsplit]; exact List.mem_append_right _ hline) hne
      have hafter := hlaid.split.lt_stop hline
      omega
    have hcontent : content = linesText front ++ linesText back := by
      rw [← linesText_append, ← hsplit, linesText_physicalLines]
    have hinsert : Text.replaceRange content (insertionPoint content).offset (insertionPoint content).offset
        (insertionText content (edit.additions.map inspected.encodeAddition)) =
        some (linesText front ++ (insertionText content (edit.additions.map inspected.encodeAddition) ++
          linesText back)) := by
      have hrange := Text.replaceRange_append (a := linesText front) (b := []) (c := linesText back)
        (r := insertionText content (edit.additions.map inspected.encodeAddition))
      rw [List.append_nil, ← hcontent, Text.byteLen_nil, Nat.add_zero, ← hoffset, List.append_assoc] at hrange
      exact hrange
    rw [applyMutations_append] at happly
    rw [show (insertionMutation content (edit.additions.map inspected.encodeAddition)).start =
      (insertionPoint content).offset from rfl,
      show (insertionMutation content (edit.additions.map inspected.encodeAddition)).stop =
      (insertionPoint content).offset from rfl] at happly
    rw [show (insertionMutation content (edit.additions.map inspected.encodeAddition)).replacement.getD [] =
      insertionText content (edit.additions.map inspected.encodeAddition) from rfl, hinsert,
      Option.bind_some, hsplit, List.filterMap_append, edits_of_unchanged hback, List.append_nil,
      applyMutations_edits hlaid.front] at happly
    rw [hsplit, hfilter.1, hfilter.2, rewritten_of_unchanged hback]
    simpa [List.append_assoc] using (Option.some.inj happly).symm

end Frame

/-- A ready patch whose changed lines come before its insertion is the original
with these lines rewritten in place and the added binds at the insertion point. -/
theorem ready_patch_framed (target : ConfigurationTarget) (document : ConfigurationDocument)
    (revision : Option ConfigurationRevision) (writeTarget : Option ConfigurationWriteTarget)
    (edit : ConfigurationEdit) (change : PreparedChange)
    (h : prepare (project target document revision writeTarget) edit = some (.ready change))
    (hc : EditsPrecedeInsertion (project target document revision writeTarget).inspected edit
      document.content) :
    change.after =
      (project target document revision writeTarget).inspected.framedText edit document.content := by
  obtain ⟨document', mutations, hctx, hplan, happly, _⟩ := prepare_ready h
  have hdocument : document' = document := (Option.some.inj (writeContext_ok hctx).document_eq).symm
  subst hdocument
  exact hplan.framed happly hc

section NvidiaBlock

/-- A settings file with a managed NVIDIA block before an X11 bind. -/
def nvidiaDocument : ConfigurationDocument where
  path := "/etc/systemd/nspawn/arch.nspawn".toList
  origin := .administrator
  content := ("[Files]\nX-Lasper-Nvidia-Begin=managed-by-lasper\nBind=/dev/nvidia0\n" ++
    "X-Lasper-Nvidia-End=true\nBind=/tmp/.X11-unix/X0:/mnt/X0\n").toList

def testRevision : ConfigurationRevision := ⟨"discovery", some "source", some "target"⟩

/-- The snapshot that inspecting a document yields for its own path. -/
def inspectedAt (document : ConfigurationDocument) : ConfigurationSnapshot :=
  project (.machine "arch") document (some testRevision) (some ⟨document.path, true⟩)

/-- Swap the X11 bind behind the block for another one. -/
def swapEdit : ConfigurationEdit :=
  ⟨.machine "arch", testRevision, [.change 5 .remove, .add "/tmp/.X11-unix/X1".toList], []⟩

/-- Remove the bind only. -/
def removeEdit : ConfigurationEdit := ⟨.machine "arch", testRevision, [.change 5 .remove], []⟩

def readyText (preparation : Option Preparation) : Option Text :=
  match preparation with
  | some (.ready change) => some change.after
  | _ => none

theorem ready_of_readyText {preparation : Option Preparation} {text : Text}
    (h : readyText preparation = some text) :
    ∃ change, preparation = some (.ready change) ∧ change.after = text := by
  unfold readyText at h
  split at h
  · rename_i change
    exact ⟨change, rfl, Option.some.inj h⟩
  · cases h

/-- Both edits are prepared; only the swap does not come out as it should. -/
theorem nvidiaDocument_prepared :
    (readyText (prepare (inspectedAt nvidiaDocument) removeEdit)).isSome = true ∧
      (readyText (prepare (inspectedAt nvidiaDocument) swapEdit)).isSome = true ∧
      readyText (prepare (inspectedAt nvidiaDocument) swapEdit) ≠
        some ((inspectedAt nvidiaDocument).inspected.framedText swapEdit nvidiaDocument.content) := by
  decide +kernel

theorem ready_patch_framed_remove : ∃ change,
    prepare (inspectedAt nvidiaDocument) removeEdit = some (.ready change) ∧
      change.after = (inspectedAt nvidiaDocument).inspected.framedText removeEdit nvidiaDocument.content := by
  obtain ⟨text, htext⟩ := Option.isSome_iff_exists.mp nvidiaDocument_prepared.1
  obtain ⟨change, hchange, -⟩ := ready_of_readyText htext
  exact ⟨change, hchange, ready_patch_framed _ _ _ _ _ _ hchange (.inl rfl)⟩

/-- With the block before the bind, removing the bind cuts into the block. -/
theorem insertion_shifts_later_lines :
    ¬ ∀ (target : ConfigurationTarget) (document : ConfigurationDocument)
      (revision : Option ConfigurationRevision) (writeTarget : Option ConfigurationWriteTarget)
      (edit : ConfigurationEdit) (change : PreparedChange),
      prepare (project target document revision writeTarget) edit = some (.ready change) →
      change.after =
        (project target document revision writeTarget).inspected.framedText edit document.content := by
  intro h
  obtain ⟨-, hready, hwrong⟩ := nvidiaDocument_prepared
  obtain ⟨text, htext⟩ := Option.isSome_iff_exists.mp hready
  obtain ⟨change, hchange, rfl⟩ := ready_of_readyText htext
  have hframed := h _ _ _ _ _ _ hchange
  rw [hframed] at htext
  exact hwrong htext

end NvidiaBlock

end Lasper.Config
