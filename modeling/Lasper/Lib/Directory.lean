import Mathlib.Data.List.Sort

/-! The files of one directory, each stored under a name that its content
carries. Writing a file replaces the one of the same name; listing the
directory gives the files in the order of their names. -/

namespace Lasper.Lib.Directory

variable {α : Type} (name : α → String)

/-- Replace the file of the same name, or add one. -/
def put (a : α) : List α → List α
  | [] => [a]
  | b :: bs => if name b = name a then a :: bs else b :: put a bs

def list (files : List α) : List α := files.insertionSort fun a b => name a ≤ name b

/-- Several files written one after the other. -/
def putAll (new files : List α) : List α := new.foldl (fun files a => put name a files) files

variable {name} {a b : α} {files : List α}

theorem put_nil : put name a [] = [a] := rfl

theorem put_cons : put name a (b :: files) = if name b = name a then a :: files else b :: put name a files := rfl

theorem mem_list : b ∈ list name files ↔ b ∈ files :=
  List.mem_insertionSort _

theorem nodup_list (h : (files.map name).Nodup) : ((list name files).map name).Nodup :=
  ((List.perm_insertionSort _ files).map name).nodup_iff.mpr h

theorem name_mem_put {n : String} (h : n ∈ (put name a files).map name) :
    n = name a ∨ n ∈ files.map name := by
  induction files with
  | nil => exact .inl (by simpa [put_nil] using h)
  | cons c cs ih =>
    simp only [put_cons] at h
    split_ifs at h with hc
    · simp only [List.map_cons, List.mem_cons] at h ⊢
      rcases h with rfl | h
      · exact .inl rfl
      · exact .inr (.inr h)
    · simp only [List.map_cons, List.mem_cons] at h ⊢
      rcases h with rfl | h
      · exact .inr (.inl rfl)
      · rcases ih h with h | h
        · exact .inl h
        · exact .inr (.inr h)

theorem nodup_put (h : (files.map name).Nodup) : ((put name a files).map name).Nodup := by
  induction files with
  | nil => simp [put_nil]
  | cons c cs ih =>
    obtain ⟨hc, hcs⟩ := List.nodup_cons.mp h
    simp only [put_cons]
    split_ifs with he
    · exact List.nodup_cons.mpr ⟨he ▸ hc, hcs⟩
    · refine List.nodup_cons.mpr ⟨?_, ih hcs⟩
      intro hm
      rcases name_mem_put hm with hm | hm
      · exact he hm
      · exact hc hm

/-- A file of the directory after a write is the new one or an old one of another name. -/
theorem mem_put (h : (files.map name).Nodup) (hb : b ∈ put name a files) :
    b = a ∨ b ∈ files ∧ name b ≠ name a := by
  induction files with
  | nil => exact .inl (by simpa [put_nil] using hb)
  | cons c cs ih =>
    obtain ⟨hc, hcs⟩ := List.nodup_cons.mp h
    simp only [put_cons] at hb
    split_ifs at hb with he
    · rcases List.mem_cons.mp hb with hb | hb
      · exact .inl hb
      · refine .inr ⟨List.mem_cons_of_mem _ hb, ?_⟩
        intro hn
        exact hc (he ▸ hn ▸ List.mem_map_of_mem hb)
    · rcases List.mem_cons.mp hb with rfl | hb
      · exact .inr ⟨List.mem_cons_self, he⟩
      · rcases ih hcs hb with hb | ⟨hb, hn⟩
        · exact .inl hb
        · exact .inr ⟨List.mem_cons_of_mem _ hb, hn⟩

theorem mem_put_of_ne (hb : b ∈ files) (hn : name b ≠ name a) : b ∈ put name a files := by
  induction files with
  | nil => cases hb
  | cons c cs ih =>
    simp only [put_cons]
    split_ifs with he
    · rcases List.mem_cons.mp hb with rfl | hb
      · exact absurd he hn
      · exact List.mem_cons_of_mem _ hb
    · rcases List.mem_cons.mp hb with rfl | hb
      · exact List.mem_cons_self
      · exact List.mem_cons_of_mem _ (ih hb)

theorem eq_or_mem_of_mem_put (hb : b ∈ put name a files) : b = a ∨ b ∈ files := by
  induction files with
  | nil => exact .inl (by simpa [put_nil] using hb)
  | cons c cs ih =>
    simp only [put_cons] at hb
    split_ifs at hb with he
    · rcases List.mem_cons.mp hb with hb | hb
      · exact .inl hb
      · exact .inr (List.mem_cons_of_mem _ hb)
    · rcases List.mem_cons.mp hb with rfl | hb
      · exact .inr List.mem_cons_self
      · exact (ih hb).imp id (List.mem_cons_of_mem _)

theorem mem_put_self : a ∈ put name a files := by
  induction files with
  | nil => exact List.mem_singleton.mpr rfl
  | cons c cs ih =>
    simp only [put_cons]
    split_ifs
    · exact List.mem_cons_self
    · exact List.mem_cons_of_mem _ ih

/-- What was written is found under its name. -/
theorem find?_put : (put name a files).find? (fun b => name b = name a) = some a := by
  induction files with
  | nil => simp [put_nil]
  | cons c cs ih =>
    simp only [put_cons]
    split_ifs with he
    · simp
    · rw [List.find?_cons_of_neg (by simpa using he)]
      exact ih

/-- A write keeps every name. -/
theorem name_mem_put_of_mem {n : String} (h : n ∈ files.map name) : n ∈ (put name a files).map name := by
  obtain ⟨c, hc, rfl⟩ := List.mem_map.mp h
  by_cases hn : name c = name a
  · rw [hn]
    exact List.mem_map_of_mem mem_put_self
  · exact List.mem_map_of_mem (mem_put_of_ne hc hn)

theorem length_put_le : (put name a files).length ≤ files.length + 1 := by
  induction files with
  | nil => exact Nat.le_refl 1
  | cons c cs ih =>
    simp only [put_cons]
    split_ifs
    · exact Nat.le_succ _
    · exact Nat.succ_le_succ ih

theorem length_put_of_mem (h : name a ∈ files.map name) : (put name a files).length = files.length := by
  induction files with
  | nil => cases h
  | cons c cs ih =>
    simp only [put_cons]
    split_ifs with he
    · rfl
    · rcases List.mem_cons.mp h with h | h
      · exact absurd h.symm he
      · exact congrArg Nat.succ (ih h)

/-- Names tell files apart. -/
theorem eq_of_name_eq (h : (files.map name).Nodup) (ha : a ∈ files) (hb : b ∈ files)
    (hn : name a = name b) : a = b :=
  List.inj_on_of_nodup_map h ha hb hn

/-- Different files of a directory have different names. -/
theorem nodup_names {some : List α} (h : (files.map name).Nodup) (hn : some.Nodup) (hs : ∀ a ∈ some, a ∈ files) :
    (some.map name).Nodup :=
  hn.map_on fun a ha b hb he => eq_of_name_eq h (hs a ha) (hs b hb) he

section Several

variable {new : List α}

theorem nodup_putAll (new : List α) (h : (files.map name).Nodup) : ((putAll name new files).map name).Nodup := by
  induction new generalizing files with
  | nil => exact h
  | cons a new ih => exact ih (nodup_put h)

theorem mem_putAll_of_not_mem (new : List α) (hb : b ∈ files) (hn : name b ∉ new.map name) : b ∈ putAll name new files := by
  induction new generalizing files with
  | nil => exact hb
  | cons a new ih =>
    simp only [List.map_cons, List.mem_cons, not_or] at hn
    exact ih (mem_put_of_ne hb hn.1) hn.2

theorem mem_putAll_of_mem (hn : (new.map name).Nodup) (ha : a ∈ new) : a ∈ putAll name new files := by
  induction new generalizing files with
  | nil => cases ha
  | cons c new ih =>
    obtain ⟨hc, hn'⟩ := List.nodup_cons.mp hn
    rcases List.mem_cons.mp ha with rfl | ha
    · have hput : a ∈ put name a files := mem_put_self
      exact mem_putAll_of_not_mem new hput hc
    · exact ih hn' ha

/-- A file of the directory afterwards is one of the new ones, or an old one of
another name. -/
theorem of_mem_putAll (h : (files.map name).Nodup) (hb : b ∈ putAll name new files) :
    b ∈ new ∨ b ∈ files ∧ name b ∉ new.map name := by
  induction new generalizing files with
  | nil => exact .inr ⟨hb, List.not_mem_nil⟩
  | cons a new ih =>
    rcases ih (nodup_put h) hb with hb | ⟨hb, hn⟩
    · exact .inl (List.mem_cons_of_mem _ hb)
    · rcases mem_put h hb with rfl | ⟨hb, hne⟩
      · exact .inl List.mem_cons_self
      · refine .inr ⟨hb, fun hm => ?_⟩
        rcases List.mem_cons.mp hm with hm | hm
        · exact hne hm
        · exact hn hm

end Several

end Lasper.Lib.Directory
