import Mathlib.Data.List.AList
import Mathlib.Data.List.Perm.Subperm

/-! Finite key-value tables over association lists, with the operations a hash
map offers: lookup, insertion, removal, size, and iteration in an order the
caller cannot predict. -/

namespace Lasper.Lib

abbrev Table (κ ν : Type*) := AList (fun _ : κ => ν)

namespace Table

variable {κ ν : Type*}

def len (m : Table κ ν) : ℕ := m.keys.length

@[simp] theorem len_empty : len (∅ : Table κ ν) = 0 := rfl

variable [DecidableEq κ]

theorem lookup_insert_ite (m : Table κ ν) (a k : κ) (b : ν) :
    (m.insert a b).lookup k = if k = a then some b else m.lookup k := by
  split_ifs with h
  · subst h; exact AList.lookup_insert m
  · exact AList.lookup_insert_ne h

theorem lookup_erase_ite (m : Table κ ν) (a k : κ) :
    (m.erase a).lookup k = if k = a then none else m.lookup k := by
  split_ifs with h
  · subst h; exact AList.lookup_erase k m
  · exact AList.lookup_erase_ne h

theorem mem_of_lookup {m : Table κ ν} {a : κ} {b : ν} (h : m.lookup a = some b) : a ∈ m :=
  AList.lookup_isSome.mp (by rw [h]; rfl)

theorem lookup_of_mem {m : Table κ ν} {a : κ} (h : a ∈ m) : ∃ b, m.lookup a = some b :=
  Option.isSome_iff_exists.mp (AList.lookup_isSome.mpr h)

theorem len_insert_of_mem {m : Table κ ν} {a : κ} (h : a ∈ m) (b : ν) :
    len (m.insert a b) = len m := by
  have hpos : 0 < m.keys.length := List.length_pos_of_mem (AList.mem_keys.mp h)
  simp only [len, AList.keys_insert, List.length_cons, List.length_erase_of_mem (AList.mem_keys.mp h)]
  omega

theorem len_insert_of_notMem {m : Table κ ν} {a : κ} (h : a ∉ m) (b : ν) :
    len (m.insert a b) = len m + 1 := by
  simp only [len, AList.keys_insert, List.length_cons]
  rw [List.erase_of_not_mem (fun hk => h (AList.mem_keys.mpr hk))]

theorem len_erase_of_mem {m : Table κ ν} {a : κ} (h : a ∈ m) : len (m.erase a) + 1 = len m := by
  have hpos : 0 < m.keys.length := List.length_pos_of_mem (AList.mem_keys.mp h)
  simp only [len, AList.keys_erase, List.length_erase_of_mem (AList.mem_keys.mp h)]
  omega

omit [DecidableEq κ] in
/-- A table whose keys inject into another table is no larger. -/
theorem len_le_of_injOn {κ' ν' : Type*} {m : Table κ ν} {m' : Table κ' ν'} (f : κ → κ')
    (hf : ∀ a ∈ m, f a ∈ m') (hi : ∀ a ∈ m, ∀ b ∈ m, f a = f b → a = b) : len m ≤ len m' := by
  have hn : (m.keys.map f).Nodup :=
    m.keys_nodup.map_on fun a ha b hb h => hi a (AList.mem_keys.mpr ha) b (AList.mem_keys.mpr hb) h
  have hs : m.keys.map f ⊆ m'.keys := by
    intro x hx
    obtain ⟨a, ha, rfl⟩ := List.mem_map.mp hx
    exact AList.mem_keys.mp (hf a (AList.mem_keys.mpr ha))
  simpa [len] using (List.subperm_of_subset hn hs).length_le

omit [DecidableEq κ] in
/-- The same with a key of the larger table that is not hit. -/
theorem len_lt_of_injOn {κ' ν' : Type*} [DecidableEq κ'] {m : Table κ ν} {m' : Table κ' ν'}
    (f : κ → κ') (hf : ∀ a ∈ m, f a ∈ m') (hi : ∀ a ∈ m, ∀ b ∈ m, f a = f b → a = b) {c : κ'}
    (hc : c ∈ m') (hmiss : ∀ a ∈ m, f a ≠ c) : len m < len m' := by
  have h : len m ≤ len (m'.erase c) := len_le_of_injOn f
    (fun a ha => AList.mem_erase.mpr ⟨hmiss a ha, hf a ha⟩) hi
  have := len_erase_of_mem hc
  omega

/-- `retain`: the entries whose value passes a test. -/
def retain (p : ν → Bool) (m : Table κ ν) : Table κ ν :=
  ⟨m.entries.filter fun entry => p entry.2, m.nodupKeys.sublist (List.filter_sublist)⟩

theorem lookup_retain (p : ν → Bool) (m : Table κ ν) (k : κ) :
    (m.retain p).lookup k = (m.lookup k).filter p := by
  ext b
  rw [Option.filter_eq_some_iff]
  refine (AList.mem_lookup_iff (s := m.retain p)).trans ?_
  exact List.mem_filter.trans (and_congr_left' AList.mem_lookup_iff.symm)

/-- The entry with what `retainMut` makes of its value. -/
def keepEntry (f : κ → ν → Option ν) (entry : Σ _ : κ, ν) : Option (Σ _ : κ, ν) :=
  (f entry.1 entry.2).map fun b => ⟨entry.1, b⟩

omit [DecidableEq κ] in
theorem keys_keepEntry_sublist (f : κ → ν → Option ν) (l : List (Σ _ : κ, ν)) :
    List.Sublist (l.filterMap (keepEntry f)).keys l.keys := by
  induction l with
  | nil => exact .slnil
  | cons entry l ih =>
    rw [List.filterMap_cons, keepEntry]
    cases f entry.1 entry.2 with
    | none => exact ih.cons _
    | some b => exact ih.cons_cons _

/-- `retain` with access to the values: each entry is dropped or changed. -/
def retainMut (f : κ → ν → Option ν) (m : Table κ ν) : Table κ ν :=
  ⟨m.entries.filterMap (keepEntry f), List.Nodup.sublist (keys_keepEntry_sublist f m.entries) m.nodupKeys⟩

theorem lookup_retainMut (f : κ → ν → Option ν) (m : Table κ ν) (k : κ) :
    (m.retainMut f).lookup k = (m.lookup k).bind (f k) := by
  ext b
  rw [Option.bind_eq_some_iff]
  apply (AList.mem_lookup_iff (s := m.retainMut f)).trans
  constructor
  · intro h
    obtain ⟨⟨k', c⟩, hentry, hkept⟩ := List.mem_filterMap.mp h
    obtain ⟨d, hd, heq⟩ := Option.map_eq_some_iff.mp hkept
    cases heq
    exact ⟨c, AList.mem_lookup_iff.mpr hentry, hd⟩
  · intro h
    obtain ⟨c, hc, hb⟩ := h
    exact List.mem_filterMap.mpr ⟨⟨k, c⟩, AList.mem_lookup_iff.mp hc, by simp [keepEntry, hb]⟩

omit [DecidableEq κ] in
/-- The values, in the order they are stored. -/
def values (m : Table κ ν) : List ν := m.entries.map (·.2)

theorem erase_of_notMem {m : Table κ ν} {a : κ} (h : a ∉ m) : m.erase a = m :=
  AList.ext (List.kerase_of_notMem_keys h)

theorem values_perm_of_lookup {m : Table κ ν} {a : κ} {b : ν} (h : m.lookup a = some b) :
    (values m).Perm (b :: values (m.erase a)) := by
  have hsame : m.entries.Perm (m.insert a b).entries := by
    apply List.lookup_ext m.nodupKeys (m.insert a b).nodupKeys
    intro k c
    show c ∈ m.lookup k ↔ c ∈ (m.insert a b).lookup k
    rw [lookup_insert_ite]
    split_ifs with hk
    · rw [hk, h]
    · rfl
  exact hsame.map _

/-- `extend` with a list of entries. -/
def extend (m : Table κ ν) (entries : List (Σ _ : κ, ν)) : Table κ ν :=
  entries.foldl (fun m entry => m.insert entry.1 entry.2) m

section Extend

variable {m : Table κ ν} {entries : List (Σ _ : κ, ν)}

theorem fresh_insert {entry : Σ _ : κ, ν} (hn : (entry :: entries).NodupKeys) (hf : ∀ e ∈ entry :: entries, e.1 ∉ m) :
    ∀ e ∈ entries, e.1 ∉ m.insert entry.1 entry.2 := by
  intro e he hmem
  rcases AList.mem_insert m |>.mp hmem with heq | hold
  · exact (List.nodupKeys_cons.mp hn).1 (heq ▸ List.mem_map_of_mem he)
  · exact hf e (List.mem_cons_of_mem _ he) hold

/-- Entries with new and distinct keys are all found. -/
theorem lookup_extend (hn : entries.NodupKeys) (hf : ∀ entry ∈ entries, entry.1 ∉ m) (k : κ) (b : ν) :
    (m.extend entries).lookup k = some b ↔ m.lookup k = some b ∨ (⟨k, b⟩ : Σ _ : κ, ν) ∈ entries := by
  induction entries generalizing m with
  | nil => simp [extend]
  | cons entry entries ih =>
    have hrest := ih (List.nodupKeys_cons.mp hn).2 (fresh_insert hn hf)
    show (extend (m.insert entry.1 entry.2) entries).lookup k = some b ↔ _
    rw [hrest, lookup_insert_ite, List.mem_cons]
    obtain ⟨a, c⟩ := entry
    by_cases hk : k = a
    · subst hk
      have hnone : m.lookup k = none := AList.lookup_eq_none.mpr (hf _ List.mem_cons_self)
      have hmiss : (⟨k, b⟩ : Σ _ : κ, ν) ∉ entries := by
        intro hmem
        have hkey : k ∈ entries.keys := List.mem_keys_of_mem hmem
        exact (List.nodupKeys_cons.mp hn).1 hkey
      simp [hnone, hmiss, eq_comm]
    · simp [hk]

end Extend

section Gather

variable {α : Type*} (f : ν → List α)

omit [DecidableEq κ] in
/-- Everything that the values of a table hold. -/
def gather (m : Table κ ν) : List α := (values m).flatMap f

variable [DecidableEq α] {m : Table κ ν} {a : κ} {b : ν}

theorem count_gather_erase (h : m.lookup a = some b) (x : α) :
    (gather f (m.erase a)).count x + (f b).count x = (gather f m).count x := by
  have hperm : (gather f m).Perm (f b ++ gather f (m.erase a)) := (values_perm_of_lookup h).flatMap_right f
  rw [hperm.count_eq, List.count_append]
  omega

theorem count_gather_insert (m : Table κ ν) (a : κ) (b : ν) (x : α) :
    (gather f (m.insert a b)).count x = (f b).count x + (gather f (m.erase a)).count x := by
  show (List.flatMap f (b :: values (m.erase a))).count x = _
  rw [List.flatMap_cons, List.count_append]
  rfl

theorem count_gather_extend {entries : List (Σ _ : κ, ν)} (hn : entries.NodupKeys)
    (hf : ∀ entry ∈ entries, entry.1 ∉ m) (x : α) :
    (gather f (m.extend entries)).count x =
      (gather f m).count x + (entries.flatMap fun entry => f entry.2).count x := by
  induction entries generalizing m with
  | nil => simp [extend]
  | cons entry entries ih =>
    show (gather f (extend (m.insert entry.1 entry.2) entries)).count x = _
    rw [ih (List.nodupKeys_cons.mp hn).2 (fresh_insert hn hf), count_gather_insert,
      erase_of_notMem (hf entry List.mem_cons_self), List.flatMap_cons, List.count_append]
    omega

end Gather

end Table

/-- The order in which a hash map visits its entries: some permutation of them. -/
structure Iteration (κ ν : Type*) where
  order : List (Σ _ : κ, ν) → List (Σ _ : κ, ν)
  perm : ∀ l, (order l).Perm l

/-- Entries visited in the order they are stored. -/
def Iteration.stored (κ ν : Type*) : Iteration κ ν := ⟨id, fun _ => .refl _⟩

section MinByKey
variable {α : Type*} (key : α → ℕ)

/-- The first element with the least key. -/
def minByKey : List α → Option α
  | [] => none
  | x :: xs => match minByKey xs with
    | none => some x
    | some y => if key x ≤ key y then some x else some y

theorem minByKey_mem {l : List α} {x : α} (h : minByKey key l = some x) : x ∈ l := by
  induction l generalizing x with
  | nil => simp [minByKey] at h
  | cons y ys ih =>
    simp only [minByKey] at h
    split at h
    · cases h; exact List.mem_cons_self
    · rename_i z hz
      split_ifs at h
      · cases h; exact List.mem_cons_self
      · cases h; exact List.mem_cons_of_mem _ (ih hz)

theorem minByKey_eq_none {l : List α} (h : minByKey key l = none) : l = [] := by
  cases l with
  | nil => rfl
  | cons y ys =>
    simp only [minByKey] at h
    split at h
    · cases h
    · split_ifs at h

theorem minByKey_le {l : List α} {x : α} (h : minByKey key l = some x) : ∀ y ∈ l, key x ≤ key y := by
  induction l generalizing x with
  | nil => simp [minByKey] at h
  | cons y ys ih =>
    intro z hz
    simp only [minByKey] at h
    split at h
    · rename_i hn
      cases h
      rw [minByKey_eq_none key hn, List.mem_singleton] at hz
      rw [hz]
    · rename_i w hw
      have hleast := ih hw
      split_ifs at h with hle
      · cases h
        rcases List.mem_cons.mp hz with rfl | hz
        · exact le_refl _
        · exact le_trans hle (hleast z hz)
      · cases h
        rcases List.mem_cons.mp hz with rfl | hz
        · omega
        · exact hleast z hz

end MinByKey
end Lasper.Lib
