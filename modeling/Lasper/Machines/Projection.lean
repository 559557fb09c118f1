import Lasper.Machines.Lifecycle

/-! The display list, independently of the order in which the transitions are
visited: the observed entries with the first one of each name in the state of its
transition, and an entry for each starting machine that is not among them. -/

namespace Lasper.Machines

open Lib

/-- An entry in the state of its transition. -/
def showEntry (shown : String → Option MachineState) (entry : MachineEntry) : MachineEntry :=
  match shown entry.name with
  | some state => { entry with state }
  | none => entry

/-- Only the first entry of each name is shown in the state of its transition. -/
def showFirsts (shown : String → Option MachineState) : List String → List MachineEntry → List MachineEntry
  | _, [] => []
  | seen, entry :: entries =>
    (if entry.name ∈ seen then entry else showEntry shown entry) ::
      showFirsts shown (entry.name :: seen) entries

abbrev Visited := List (Σ _ : String, MachineTransition)

def shownIn (visited : Visited) (name : String) : Option MachineState :=
  (visited.dlookup name).map (·.kind.shown)

/-- The entries of the starting machines that are not observed. -/
def optimistic (visited : Visited) (observed : List MachineEntry) : List MachineEntry :=
  (visited.filter fun transition =>
    transition.2.kind = .starting && !observed.any (·.name = transition.1)).map
      fun transition => .optimisticNspawn transition.1 .starting

variable {shown shown' : String → Option MachineState} {seen : List String} {entries : List MachineEntry}
  {observed : List MachineEntry} {visited : Visited} {name : String} {state : MachineState}

@[simp] theorem showEntry_name (entry : MachineEntry) : (showEntry shown entry).name = entry.name := by
  unfold showEntry
  split <;> rfl

@[simp] theorem showFirsts_any (p : String → Bool) :
    (showFirsts shown seen entries).any (fun entry => p entry.name) = entries.any fun entry => p entry.name := by
  induction entries generalizing seen with
  | nil => rfl
  | cons entry entries ih =>
    simp only [showFirsts, List.any_cons, ih]
    split <;> simp

theorem showFirsts_congr (h : ∀ entry ∈ entries, entry.name ∉ seen → shown entry.name = shown' entry.name) :
    showFirsts shown seen entries = showFirsts shown' seen entries := by
  induction entries generalizing seen with
  | nil => rfl
  | cons entry entries ih =>
    have hrest : showFirsts shown (entry.name :: seen) entries = showFirsts shown' (entry.name :: seen) entries := by
      apply ih
      intro other hother hseen
      exact h other (List.mem_cons_of_mem _ hother) fun hmem => hseen (List.mem_cons_of_mem _ hmem)
    by_cases hseen : entry.name ∈ seen
    · simp [showFirsts, hseen, hrest]
    · simp [showFirsts, hseen, hrest, showEntry, h entry List.mem_cons_self hseen]

theorem showFirsts_none : showFirsts (fun _ => none) seen entries = entries := by
  induction entries generalizing seen with
  | nil => rfl
  | cons entry entries ih => simp [showFirsts, showEntry, ih]

/-- Where the names are distinct, every entry is the first of its name. -/
theorem showFirsts_eq_map (h : (entries.map (·.name)).Nodup) (hseen : ∀ entry ∈ entries, entry.name ∉ seen) :
    showFirsts shown seen entries = entries.map (showEntry shown) := by
  induction entries generalizing seen with
  | nil => rfl
  | cons entry entries ih =>
    simp only [List.map_cons, List.nodup_cons, List.mem_map] at h
    have hrest : ∀ other ∈ entries, other.name ∉ entry.name :: seen := by
      intro other hother hmem
      rcases List.mem_cons.mp hmem with heq | hold
      · exact h.1 ⟨other, hother, heq⟩
      · exact hseen other (List.mem_cons_of_mem _ hother) hold
    simp [showFirsts, hseen entry List.mem_cons_self, ih h.2 hrest]

theorem replaceFirst_append {rest : List MachineEntry} (h : entries.any (·.name = name) = true) :
    replaceFirst name state (entries ++ rest) = replaceFirst name state entries ++ rest := by
  induction entries with
  | nil => simp at h
  | cons entry entries ih =>
    simp only [List.cons_append, replaceFirst]
    by_cases hname : entry.name = name
    · simp [hname]
    · have hrest : entries.any (·.name = name) = true := by simpa [hname] using h
      simp [hname, ih hrest]

/-- Changing the first entry of a name that was not shown in transition so far. -/
theorem replaceFirst_showFirsts (hname : name ∉ seen) (hshown : shown name = none) (hnew : shown' name = some state)
    (hold : ∀ other, other ≠ name → shown' other = shown other) (hany : entries.any (·.name = name) = true) :
    replaceFirst name state (showFirsts shown seen entries) = showFirsts shown' seen entries := by
  induction entries generalizing seen with
  | nil => simp at hany
  | cons entry entries ih =>
    by_cases hentry : entry.name = name
    · subst hentry
      have hrest : showFirsts shown (entry.name :: seen) entries = showFirsts shown' (entry.name :: seen) entries := by
        apply showFirsts_congr
        intro other _ hseen
        exact (hold _ fun heq => hseen (heq ▸ List.mem_cons_self)).symm
      simp [showFirsts, replaceFirst, hname, showEntry, hshown, hnew, hrest]
    · have hany' : entries.any (·.name = name) = true := by simpa [hentry] using hany
      have hseen : name ∉ entry.name :: seen := by
        simp only [List.mem_cons, not_or]
        exact ⟨fun heq => hentry heq.symm, hname⟩
      have hhead : showEntry shown entry = showEntry shown' entry := by simp [showEntry, hold _ hentry]
      have hne : (if entry.name ∈ seen then entry else showEntry shown entry).name ≠ name := by
        split <;> simp [hentry]
      simp only [showFirsts, replaceFirst, if_neg hne, ih hseen hany']
      rw [hhead]

theorem shownIn_append (transition : Σ _ : String, MachineTransition) (h : transition.1 ∉ visited.keys) :
    shownIn (visited ++ [transition]) name =
      if name = transition.1 then some transition.2.kind.shown else shownIn visited name := by
  unfold shownIn
  rw [List.dlookup_append]
  by_cases hname : name = transition.1
  · subst hname
    rw [List.dlookup_eq_none.mpr h]
    have hfound : List.dlookup transition.1 [transition] = some transition.2 := List.dlookup_cons_eq _ _ _
    simp [hfound]
  · have hnone : List.dlookup name [transition] = none := by
      rw [List.dlookup_eq_none]
      simpa using hname
    simp [hnone, hname]

theorem optimistic_any (h : name ∉ visited.keys) : (optimistic visited observed).any (·.name = name) = false := by
  rw [List.any_eq_false]
  intro entry hentry
  obtain ⟨transition, hmem, rfl⟩ := List.mem_map.mp hentry
  have hne : transition.1 ≠ name := by
    intro heq
    exact h (List.mem_map.mpr ⟨transition, (List.mem_filter.mp hmem).1, heq⟩)
  rw [decide_eq_true_eq]
  exact hne

/-- What the loop has built after the transitions that it visited. -/
def built (visited : Visited) (observed : List MachineEntry) : List MachineEntry :=
  showFirsts (shownIn visited) [] observed ++ optimistic visited observed

theorem projectTransition_built (transition : Σ _ : String, MachineTransition) (h : transition.1 ∉ visited.keys) :
    projectTransition (built visited observed) transition = built (visited ++ [transition]) observed := by
  have hbuilt : (built visited observed).any (·.name = transition.1) = observed.any (·.name = transition.1) := by
    rw [built, List.any_append, optimistic_any h, Bool.or_false]
    exact showFirsts_any fun name => name = transition.1
  have hnone : shownIn visited transition.1 = none := by simp [shownIn, List.dlookup_eq_none.mpr h]
  by_cases hobserved : observed.any (·.name = transition.1) = true
  · have hsame : optimistic (visited ++ [transition]) observed = optimistic visited observed := by
      simp [optimistic, hobserved]
    have hreplaced : replaceFirst transition.1 transition.2.kind.shown (showFirsts (shownIn visited) [] observed) =
        showFirsts (shownIn (visited ++ [transition])) [] observed := by
      apply replaceFirst_showFirsts (by simp) hnone _ _ hobserved
      · simp [shownIn_append _ h]
      · intro other hother
        simp [shownIn_append _ h, hother]
    have hany : (showFirsts (shownIn visited) [] observed).any (·.name = transition.1) = true :=
      (showFirsts_any fun name => name = transition.1).trans hobserved
    rw [projectTransition, hbuilt, if_pos hobserved, built, replaceFirst_append hany, hreplaced, built, hsame]
  · have hshow : showFirsts (shownIn (visited ++ [transition])) [] observed =
        showFirsts (shownIn visited) [] observed := by
      apply showFirsts_congr
      intro entry hentry _
      have hne : entry.name ≠ transition.1 := by
        intro heq
        exact hobserved (List.any_eq_true.mpr ⟨entry, hentry, by simpa using heq⟩)
      simp [shownIn_append _ h, hne]
    rw [projectTransition, hbuilt, if_neg hobserved]
    by_cases hstarting : transition.2.kind = .starting
    · simp [hstarting, built, hshow, optimistic, hobserved]
    · simp [hstarting, built, hshow, optimistic]

theorem foldl_projectTransition (rest : Visited) (h : (visited ++ rest).NodupKeys) :
    rest.foldl projectTransition (built visited observed) = built (visited ++ rest) observed := by
  induction rest generalizing visited with
  | nil => simp
  | cons transition rest ih =>
    have hkey : transition.1 ∉ visited.keys := by
      rw [List.NodupKeys, List.keys, List.map_append, List.nodup_append] at h
      intro hmem
      exact h.2.2 _ hmem _ (by simp) rfl
    rw [List.foldl_cons, projectTransition_built transition hkey]
    have happend : visited ++ transition :: rest = (visited ++ [transition]) ++ rest := by simp
    rw [happend] at h ⊢
    exact ih h

variable (iter : Iteration String MachineTransition) (transitions : Transitions) (observed)

theorem projectMachines_sorted :
    (projectMachines iter transitions observed).Pairwise fun left right => left.le right = true := by
  apply List.pairwise_mergeSort
  · intro a b c hab hbc
    exact MachineEntry.le_of_le_of_le hab hbc
  · exact MachineEntry.le_or_le

/-- The display list holds the same entries for every order of the transitions. -/
theorem projectMachines_perm :
    (projectMachines iter transitions observed).Perm (built transitions.entries observed) := by
  apply (List.mergeSort_perm _ _).trans
  have hperm := iter.perm transitions.entries
  have hkeys : (iter.order transitions.entries).NodupKeys := (List.perm_nodupKeys hperm).mpr transitions.nodupKeys
  have hstart : built [] observed = observed := by
    rw [built, show shownIn [] = fun _ => none from rfl, showFirsts_none]
    simp [optimistic]
  have hloop : (iter.order transitions.entries).foldl projectTransition (built [] observed) =
      built ([] ++ iter.order transitions.entries) observed := foldl_projectTransition _ hkeys
  rw [hstart, List.nil_append] at hloop
  rw [hloop]
  have hshown : shownIn (iter.order transitions.entries) = shownIn transitions.entries := by
    funext name
    rw [shownIn, shownIn, List.perm_dlookup name hkeys hperm]
  rw [built, built, hshown]
  exact ((hperm.filter _).map _).append_left _

end Lasper.Machines
