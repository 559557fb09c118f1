import Mathlib.Data.List.Basic

/-! Splitting a list after every occurrence of a delimiter. Each piece keeps the
delimiter that ends it; only the last piece may lack one. -/

namespace Lasper.Lib

variable {α : Type*} [DecidableEq α] {d : α}

/-- The pieces of a list, each ended by the delimiter, the last possibly not. -/
def pieces (d : α) : List α → List (List α)
  | [] => []
  | a :: as =>
    if a = d then [a] :: pieces d as
    else match pieces d as with
      | [] => [[a]]
      | piece :: rest => (a :: piece) :: rest

@[simp] theorem pieces_nil : pieces d [] = [] := rfl

theorem pieces_cons_delim (as : List α) : pieces d (d :: as) = [d] :: pieces d as := by
  simp [pieces]

theorem pieces_cons_of_nil {a : α} {as : List α} (h : a ≠ d) (hnil : pieces d as = []) : pieces d (a :: as) = [[a]] := by
  rw [pieces, if_neg h, hnil]

theorem pieces_cons_of_cons {a : α} {as piece : List α} {rest : List (List α)} (h : a ≠ d)
    (hcons : pieces d as = piece :: rest) : pieces d (a :: as) = (a :: piece) :: rest := by
  rw [pieces, if_neg h, hcons]

/-- The first piece of a list is what stands up to its first delimiter. -/
theorem pieces_piece {as : List α} (h : d ∉ as) (rest : List α) :
    pieces d (as ++ d :: rest) = (as ++ [d]) :: pieces d rest := by
  induction as with
  | nil => exact pieces_cons_delim rest
  | cons a as ih =>
    simp only [List.mem_cons, not_or] at h
    exact pieces_cons_of_cons (Ne.symm h.1) (ih h.2)

theorem pieces_of_notMem {as : List α} (h : d ∉ as) (hne : as ≠ []) : pieces d as = [as] := by
  induction as with
  | nil => exact absurd rfl hne
  | cons a as ih =>
    simp only [List.mem_cons, not_or] at h
    rcases eq_or_ne as [] with rfl | has
    · exact pieces_cons_of_nil (Ne.symm h.1) rfl
    · exact pieces_cons_of_cons (Ne.symm h.1) (ih h.2 has)

theorem pieces_ne_nil {as piece : List α} (h : piece ∈ pieces d as) : piece ≠ [] := by
  induction as generalizing piece with
  | nil => cases h
  | cons a as ih =>
    rcases eq_or_ne a d with rfl | hne
    · rw [pieces_cons_delim] at h
      rcases List.mem_cons.mp h with rfl | h
      · simp
      · exact ih h
    · cases he : pieces d as with
      | nil =>
        rw [pieces_cons_of_nil hne he] at h
        rw [List.mem_singleton.mp h]
        simp
      | cons first rest =>
        rw [pieces_cons_of_cons hne he] at h
        rcases List.mem_cons.mp h with rfl | h
        · simp
        · exact ih (by rw [he]; exact List.mem_cons_of_mem _ h)

@[simp] theorem flatten_pieces (as : List α) : (pieces d as).flatten = as := by
  induction as with
  | nil => rfl
  | cons a as ih =>
    rcases eq_or_ne a d with rfl | hne
    · simp [pieces_cons_delim, ih]
    · cases he : pieces d as with
      | nil =>
        rw [he] at ih
        rw [pieces_cons_of_nil hne he, ← ih]
        rfl
      | cons first rest =>
        rw [he] at ih
        rw [pieces_cons_of_cons hne he, ← ih]
        rfl

end Lasper.Lib
