import Mathlib.Data.List.Induction

/-! Runs of a labelled step relation. A run records the actions it took, in
order; invariants and history properties are proved once per step and carried
along every run by the rules below. -/

namespace Lasper.Lib

variable {S A : Type*} {step : S → A → S → Prop}

/-- The states reached from `s` by a list of actions. -/
inductive Run (step : S → A → S → Prop) (s : S) : List A → S → Prop
  | nil : Run step s [] s
  | snoc {as : List A} {a : A} {t u : S} : Run step s as t → step t a u → Run step s (as ++ [a]) u

theorem Run.invariant {I : S → Prop} {s t : S} {as : List A} (h : Run step s as t) (h0 : I s)
    (hs : ∀ t a u, I t → step t a u → I u) : I t := by
  induction h with
  | nil => exact h0
  | snoc _ ha ih => exact hs _ _ _ ih ha

/-- A fact about the actions so far and the state they led to, kept by every step. -/
theorem Run.history {I : List A → S → Prop} {s t : S} {as : List A} (h : Run step s as t)
    (h0 : I [] s) (hs : ∀ as t a u, I as t → step t a u → I (as ++ [a]) u) : I as t := by
  induction h with
  | nil => exact h0
  | snoc _ ha ih => exact hs _ _ _ _ ih ha

/-- A run of a stronger step relation is a run of the weaker one. -/
theorem Run.mono {step' : S → A → S → Prop} (hm : ∀ t a u, step t a u → step' t a u) {s t : S}
    {as : List A} (h : Run step s as t) : Run step' s as t := by
  induction h with
  | nil => exact .nil
  | snoc _ ha ih => exact .snoc ih (hm _ _ _ ha)

/-- Running a step function along a list of actions. -/
theorem Run.of_foldlM {f : S → A → Option S} (hf : ∀ s a t, f s a = some t → step s a t) {s t : S}
    {as : List A} (h : as.foldlM f s = some t) : Run step s as t := by
  induction as using List.reverseRecOn generalizing t with
  | nil => cases h; exact .nil
  | append_singleton as a ih =>
    rw [List.foldlM_append] at h
    obtain ⟨u, hu, ha⟩ := Option.bind_eq_some_iff.mp h
    exact .snoc (ih hu) (hf u a t (by simpa using ha))

/-- Where a function computes every step, the actions determine where a run leads. -/
theorem Run.unique {f : S → A → Option S} (hf : ∀ s a t, step s a t → f s a = some t) {s t t' : S}
    {as : List A} (h : Run step s as t) (h' : Run step s as t') : t' = t := by
  induction h generalizing t' with
  | nil =>
    generalize hnil : ([] : List A) = as at h'
    cases h' with
    | nil => rfl
    | snoc _ _ => simp at hnil
  | @snoc as a t u hrun ha ih =>
    generalize hlist : as ++ [a] = as' at h'
    cases h' with
    | nil => simp at hlist
    | snoc hrun' ha' =>
      obtain ⟨rfl, hlast⟩ := List.append_inj' hlist rfl
      cases hlast
      rw [ih hrun'] at ha'
      exact Option.some.inj ((hf _ _ _ ha').symm.trans (hf _ _ _ ha))

theorem Run.append {s t u : S} {as bs : List A} (h : Run step s as t) (h' : Run step t bs u) :
    Run step s (as ++ bs) u := by
  induction h' with
  | nil => simpa using h
  | snoc _ hb ih =>
    rw [← List.append_assoc]
    exact .snoc ih hb

/-- A run passes through the state that its first actions lead to. -/
theorem Run.split {s u : S} {as bs : List A} (h : Run step s (as ++ bs) u) :
    ∃ t, Run step s as t ∧ Run step t bs u := by
  induction bs using List.reverseRecOn generalizing u with
  | nil => exact ⟨u, by simpa using h, .nil⟩
  | append_singleton bs b ih =>
    rw [← List.append_assoc] at h
    generalize hlist : (as ++ bs) ++ [b] = cs at h
    cases h with
    | nil => simp at hlist
    | snoc hrun hb =>
      obtain ⟨rfl, hlast⟩ := List.append_inj' hlist rfl
      cases hlast
      obtain ⟨t, hfirst, hrest⟩ := ih hrun
      exact ⟨t, hfirst, .snoc hrest hb⟩

/-- Some action of the run was taken where `P` held of the actions before it and of the state. -/
def Occurred (step : S → A → S → Prop) (s : S) (as : List A) (P : List A → S → A → Prop) : Prop :=
  ∃ before a after t, as = before ++ a :: after ∧ Run step s before t ∧ P before t a

variable {P : List A → S → A → Prop} {s t : S} {as : List A}

theorem Occurred.snoc (h : Occurred step s as P) (a : A) : Occurred step s (as ++ [a]) P := by
  obtain ⟨before, b, after, t, rfl, hrun, hP⟩ := h
  exact ⟨before, b, after ++ [a], t, by simp, hrun, hP⟩

theorem Run.occurs (h : Run step s as t) {a : A} (hP : P as t a) : Occurred step s (as ++ [a]) P :=
  ⟨as, a, [], t, rfl, h, hP⟩

/-- What occurred in a run with one more action occurred before, or with that action. -/
theorem Occurred.of_snoc {a : A} (h : Occurred step s (as ++ [a]) P) :
    Occurred step s as P ∨ ∃ t, Run step s as t ∧ P as t a := by
  obtain ⟨before, b, after, t, hsplit, hrun, hP⟩ := h
  rcases List.eq_nil_or_concat after with rfl | ⟨rest, c, rfl⟩
  · obtain ⟨rfl, hb⟩ := List.append_inj' hsplit rfl
    cases hb
    exact .inr ⟨t, hrun, hP⟩
  · have hsplit' : as ++ [a] = (before ++ b :: rest) ++ [c] := by simp [hsplit]
    obtain ⟨rfl, -⟩ := List.append_inj' hsplit' rfl
    exact .inl ⟨before, b, rest, t, rfl, hrun, hP⟩

section Precedes

variable {x y a : A}

/-- One action of a list stands somewhere before another. -/
def Precedes (x y : A) (as : List A) : Prop := [x, y].Sublist as

theorem precedes_nil : ¬ Precedes x y [] := fun h => by cases h

theorem precedes_snoc : Precedes x y (as ++ [a]) ↔ Precedes x y as ∨ y = a ∧ x ∈ as := by
  unfold Precedes
  constructor
  · intro h
    obtain ⟨front, back, hsplit, hfront, hback⟩ := List.sublist_append_iff.mp h
    match front, back, hsplit with
    | [], _, rfl => exact absurd hback.length_le (by simp)
    | [_], _, rfl =>
      cases hback with
      | cons _ h => cases h
      | cons_cons _ _ => exact .inr ⟨rfl, List.singleton_sublist.mp hfront⟩
    | [_, _], _, rfl => exact .inl hfront
  · rintro (h | ⟨rfl, hx⟩)
    · exact h.trans (List.sublist_append_left _ _)
    · exact (List.singleton_sublist.mpr hx).append (List.Sublist.refl [y])

theorem Precedes.left (h : Precedes x y as) : x ∈ as := h.subset (by simp)

theorem Precedes.right (h : Precedes x y as) : y ∈ as := h.subset (by simp)

end Precedes

end Lasper.Lib
