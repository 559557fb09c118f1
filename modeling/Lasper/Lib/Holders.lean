import Lasper.Lib.Table

/-! A table that lists, for each key, who holds it. A holder is added at the end
of its key's list; holders that pass a test are dismissed from a key, and a key
whose list becomes empty leaves the table. -/

namespace Lasper.Lib

abbrev Holders (κ α : Type*) := Table κ (List α)

namespace Holders

variable {κ α : Type*} [DecidableEq κ]

/-- The holders of a key, in the order they were added. -/
def of (m : Holders κ α) (k : κ) : List α := (m.lookup k).getD []

def add (m : Holders κ α) (k : κ) (a : α) : Holders κ α := m.insert k (m.of k ++ [a])

/-- Dismiss the holders of one key that pass a test. -/
def dismiss (p : α → Bool) (m : Holders κ α) (k : κ) : Holders κ α :=
  match m.lookup k with
  | none => m
  | some holders =>
    let rest := holders.filter fun a => !p a
    if rest.isEmpty then m.erase k else m.insert k rest

@[simp] theorem of_empty (k : κ) : of (∅ : Holders κ α) k = [] := rfl

theorem of_add (m : Holders κ α) (k k' : κ) (a : α) :
    (m.add k a).of k' = if k' = k then m.of k ++ [a] else m.of k' := by
  simp only [add, of, Table.lookup_insert_ite]
  by_cases h : k' = k
  · simp [h]
  · simp [h]

/-- Adding one holder for each of some distinct keys. -/
theorem of_foldl_add {β : Type*} (key : β → κ) (holder : β → α) (bs : List β) (m : Holders κ α) (k : κ) :
    (bs.foldl (fun m b => m.add (key b) (holder b)) m).of k =
      m.of k ++ (bs.filter fun b => key b = k).map holder := by
  induction bs generalizing m with
  | nil => simp
  | cons b bs ih =>
    rw [List.foldl_cons, ih, of_add]
    by_cases h : key b = k
    · simp [h]
    · have hne : k ≠ key b := fun he => h he.symm
      simp [h, hne]

theorem of_dismiss (p : α → Bool) (m : Holders κ α) (k k' : κ) :
    (m.dismiss p k).of k' = if k' = k then (m.of k).filter fun a => !p a else m.of k' := by
  unfold dismiss
  cases hl : m.lookup k with
  | none =>
    by_cases h : k' = k
    · subst h
      simp [of, hl]
    · simp [h]
  | some holders =>
    have hof : m.of k = holders := by simp [of, hl]
    dsimp only
    by_cases h : k' = k
    · subst h
      rw [if_pos rfl, hof]
      split
      · rename_i hempty
        simp [of, List.isEmpty_iff.mp hempty]
      · simp [of]
    · rw [if_neg h]
      split
      · simp [of, AList.lookup_erase_ne h]
      · simp [of, AList.lookup_insert_ne h]

theorem of_foldl_dismiss (p : α → Bool) (ks : List κ) (m : Holders κ α) (k : κ) :
    (ks.foldl (dismiss p) m).of k = if k ∈ ks then (m.of k).filter (fun a => !p a) else m.of k := by
  induction ks generalizing m with
  | nil => simp
  | cons k' ks ih =>
    rw [List.foldl_cons, ih, of_dismiss]
    by_cases h : k = k'
    · subst h
      by_cases hm : k ∈ ks
      · simp [hm]
      · simp [hm]
    · by_cases hm : k ∈ ks
      · simp [hm, h]
      · simp [hm, h]

end Holders

end Lasper.Lib
