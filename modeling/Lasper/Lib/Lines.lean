import Lasper.Lib.Pieces

/-! Lists of pieces, as splitting produces them: every piece ends in the
delimiter, except that the last may not. Such a list is recovered from its text. -/

namespace Lasper.Lib

variable {α : Type*} {d : α}

/-- A piece that the delimiter ends. -/
def Ended (d : α) (piece : List α) : Prop := ∃ body, piece = body ++ [d] ∧ d ∉ body

def Pieced (d : α) : List (List α) → Prop
  | [] => True
  | piece :: rest => (Ended d piece ∨ rest = [] ∧ piece ≠ [] ∧ d ∉ piece) ∧ Pieced d rest

variable {front back : List (List α)} {piece : List α}

theorem Pieced.sublist (h : Pieced d back) (hsub : front.Sublist back) : Pieced d front := by
  induction hsub with
  | slnil => exact h
  | cons piece hsub ih => exact ih h.2
  | cons_cons piece hsub ih =>
    refine ⟨h.1.imp id fun hlast => ?_, ih h.2⟩
    rw [hlast.1] at hsub
    exact ⟨List.sublist_nil.mp hsub, hlast.2⟩

theorem Pieced.append (hfront : ∀ piece ∈ front, Ended d piece) (hback : Pieced d back) :
    Pieced d (front ++ back) := by
  induction front with
  | nil => exact hback
  | cons piece front ih =>
    exact ⟨.inl (hfront piece List.mem_cons_self), ih fun other hother => hfront other (List.mem_cons_of_mem _ hother)⟩

/-- Only the last piece may lack its delimiter. -/
theorem Pieced.ended (h : Pieced d (front ++ piece :: back)) : ∀ other ∈ front, Ended d other := by
  induction front with
  | nil => exact nofun
  | cons first front ih =>
    intro other hother
    rcases List.mem_cons.mp hother with rfl | hother
    · exact h.1.resolve_right fun hlast => absurd hlast.1 (List.append_ne_nil_of_right_ne_nil _ (List.cons_ne_nil _ _))
    · exact ih h.2 other hother

theorem Ended.ne_nil (h : Ended d piece) : piece ≠ [] := by
  obtain ⟨body, rfl, -⟩ := h
  exact List.append_ne_nil_of_right_ne_nil _ (List.cons_ne_nil _ _)

variable [DecidableEq α]

theorem pieces_pieced (as : List α) : Pieced d (pieces d as) := by
  induction as with
  | nil => exact trivial
  | cons a as ih =>
    unfold pieces
    split_ifs with hd
    · exact ⟨.inl ⟨[], by rw [hd]; rfl, List.not_mem_nil⟩, ih⟩
    · have hne : d ≠ a := Ne.symm hd
      split
      · exact ⟨.inr ⟨rfl, List.cons_ne_nil _ _, by simpa using hne⟩, trivial⟩
      · rename_i piece rest hpieces
        rw [hpieces] at ih
        refine ⟨ih.1.imp ?_ ?_, ih.2⟩
        · rintro ⟨body, rfl, hbody⟩
          exact ⟨a :: body, rfl, List.not_mem_cons_of_ne_of_not_mem hne hbody⟩
        · rintro ⟨hrest, -, hpiece⟩
          exact ⟨hrest, List.cons_ne_nil _ _, List.not_mem_cons_of_ne_of_not_mem hne hpiece⟩

theorem Pieced.pieces_flatten (h : Pieced d front) : pieces d front.flatten = front := by
  induction front with
  | nil => rfl
  | cons piece front ih =>
    rw [List.flatten_cons]
    rcases h.1 with ⟨body, rfl, hbody⟩ | ⟨rfl, hne, hpiece⟩
    · rw [List.append_assoc, List.singleton_append, pieces_piece hbody, ih h.2]
    · rw [List.flatten_nil, List.append_nil, pieces_of_notMem hpiece hne]

/-- Some of the pieces, in their order, are the pieces of their own text. -/
theorem pieces_flatten_sublist {as : List α} (h : front.Sublist (pieces d as)) : pieces d front.flatten = front :=
  ((pieces_pieced as).sublist h).pieces_flatten

end Lasper.Lib
