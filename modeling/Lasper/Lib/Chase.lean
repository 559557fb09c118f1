import Mathlib.Data.List.Basic
import Mathlib.Data.List.Perm.Subperm

/-! Following a partial function from point to point until a point answers, comes
up for the second time, or leads nowhere. The points already visited are kept in
a list; where only finitely many points lead on, that makes the search end. -/

namespace Lasper.Lib

variable {α β : Type} (answer : α → Option β) (next : α → Option α)

/-- The point that so many steps lead to. -/
def reached (start : α) : ℕ → Option α
  | 0 => some start
  | steps + 1 => (reached start steps).bind next

/-- Nothing is returned when the rounds do not suffice. -/
def chase [DecidableEq α] : ℕ → List α → α → Option (Option β)
  | 0, _, _ => none
  | rounds + 1, visited, point =>
    match answer point with
    | some found => some (some found)
    | none =>
      if point ∈ visited then some none
      else match next point with
        | none => some none
        | some point' => chase rounds (point :: visited) point'

/-- The first point that answers is reached in so many steps. -/
structure Reaches (start : α) (steps : ℕ) (point : α) (found : β) : Prop where
  last : reached next start steps = some point
  answers : answer point = some found
  first : ∀ i < steps, ∀ earlier, reached next start i = some earlier → answer earlier = none

variable {answer next}

theorem reached_succ (start : α) (steps : ℕ) :
    reached next start (steps + 1) = (next start).bind fun point => reached next point steps := by
  induction steps with
  | zero => cases h : next start <;> simp [reached, h]
  | succ steps ih =>
    rw [reached, ih]
    cases next start <;> rfl

theorem reached_add {start point : α} {steps : ℕ} (h : reached next start steps = some point) (more : ℕ) :
    reached next start (steps + more) = reached next point more := by
  induction more with
  | zero => exact h
  | succ more ih => rw [← Nat.add_assoc, reached, ih, reached]

theorem Reaches.here {start : α} {found : β} (h : answer start = some found) :
    Reaches answer next start 0 start found := ⟨rfl, h, fun _ hi => absurd hi (Nat.not_lt_zero _)⟩

theorem Reaches.step {start point last : α} {steps : ℕ} {found : β} (hnext : next start = some point)
    (hsilent : answer start = none) (h : Reaches answer next point steps last found) :
    Reaches answer next start (steps + 1) last found := by
  refine ⟨?_, h.answers, ?_⟩
  · rw [reached_succ, hnext]
    exact h.last
  · intro i hi earlier hearlier
    cases i with
    | zero =>
      cases hearlier
      exact hsilent
    | succ i =>
      rw [reached_succ, hnext] at hearlier
      exact h.first i (by omega) earlier hearlier

/-- The way from the next point on. -/
theorem Reaches.tail {start last : α} {steps : ℕ} {found : β}
    (h : Reaches answer next start (steps + 1) last found) :
    ∃ point, next start = some point ∧ Reaches answer next point steps last found := by
  have hlast := h.last
  rw [reached_succ] at hlast
  cases hnext : next start with
  | none =>
    rw [hnext] at hlast
    cases hlast
  | some point =>
    rw [hnext] at hlast
    refine ⟨point, rfl, hlast, h.answers, ?_⟩
    intro i hi earlier hearlier
    apply h.first (i + 1) (by omega) earlier
    rw [reached_succ, hnext]
    exact hearlier

/-- No point comes up twice on the way: from the second time on the way would go
on as it did from the first, and the answer would have come earlier. -/
theorem Reaches.injective {start last : α} {steps : ℕ} {found : β} (h : Reaches answer next start steps last found)
    {i j : ℕ} (hij : i < j) (hj : j ≤ steps) : reached next start i ≠ reached next start j := by
  intro hsame
  cases hi : reached next start i with
  | none =>
    have hnone : ∀ more, reached next start (i + more) = none := by
      intro more
      induction more with
      | zero => exact hi
      | succ more ih =>
        rw [← Nat.add_assoc, reached, ih]
        rfl
    have hlast := hnone (steps - i)
    rw [show i + (steps - i) = steps by omega, h.last] at hlast
    cases hlast
  | some point =>
    have hearlier : reached next start (i + (steps - j)) = some last := by
      rw [reached_add hi, ← reached_add (hsame ▸ hi), show j + (steps - j) = steps by omega]
      exact h.last
    have hsilent := h.first (i + (steps - j)) (by omega) last hearlier
    rw [h.answers] at hsilent
    cases hsilent

section Search

variable [DecidableEq α]

theorem chase_sound {rounds : ℕ} {visited : List α} {start : α} {found : β}
    (h : chase answer next rounds visited start = some (some found)) :
    ∃ steps last, Reaches answer next start steps last found := by
  induction rounds generalizing visited start with
  | zero => cases h
  | succ rounds ih =>
    unfold chase at h
    cases hanswer : answer start with
    | some value =>
      rw [hanswer] at h
      cases h
      exact ⟨0, start, .here hanswer⟩
    | none =>
      simp only [hanswer] at h
      by_cases hvisited : start ∈ visited
      · simp [hvisited] at h
      rw [if_neg hvisited] at h
      cases hnext : next start with
      | none =>
        rw [hnext] at h
        cases h
      | some point =>
        rw [hnext] at h
        obtain ⟨steps, last, hreaches⟩ := ih h
        exact ⟨steps + 1, last, hreaches.step hnext hanswer⟩

/-- A way that avoids what was visited before is found by any number of rounds
that returns. -/
theorem chase_complete {start last : α} {steps : ℕ} {found : β} (h : Reaches answer next start steps last found)
    {visited : List α} (hvisited : ∀ i < steps, ∀ point ∈ visited, reached next start i ≠ some point)
    {rounds : ℕ} {result : Option β} (hresult : chase answer next rounds visited start = some result) :
    result = some found := by
  induction steps generalizing start visited rounds with
  | zero =>
    cases rounds with
    | zero => cases hresult
    | succ rounds =>
      have hlast : start = last := Option.some_inj.mp h.last
      unfold chase at hresult
      rw [hlast, h.answers] at hresult
      exact (Option.some_inj.mp hresult).symm
  | succ steps ih =>
    cases rounds with
    | zero => cases hresult
    | succ rounds =>
      obtain ⟨point, hnext, htail⟩ := h.tail
      have hsilent : answer start = none := h.first 0 (Nat.zero_lt_succ _) start rfl
      have hfresh : start ∉ visited := fun hmem => hvisited 0 (Nat.zero_lt_succ _) start hmem rfl
      simp only [chase, hsilent, hfresh, if_false, hnext] at hresult
      apply ih htail _ hresult
      intro i hi other hother
      have hreached : reached next start (i + 1) = reached next point i := by
        rw [reached_succ, hnext]
        rfl
      rw [← hreached]
      obtain rfl | hother := List.mem_cons.mp hother
      · exact (h.injective (Nat.zero_lt_succ i) (by omega)).symm
      · exact hvisited (i + 1) (by omega) other hother

/-- Points that lead on are visited once each, so that many rounds suffice. -/
theorem chase_returns {points : List α} (hpoints : ∀ point, next point ≠ none → point ∈ points)
    {visited : List α} (hnodup : visited.Nodup) (hsub : visited ⊆ points) {rounds : ℕ}
    (hrounds : points.length < rounds + visited.length) (start : α) :
    ∃ result, chase answer next rounds visited start = some result := by
  induction rounds generalizing visited start with
  | zero =>
    have hlength := (List.subperm_of_subset hnodup hsub).length_le
    omega
  | succ rounds ih =>
    unfold chase
    cases answer start with
    | some found => exact ⟨some found, rfl⟩
    | none =>
      by_cases hvisited : start ∈ visited
      · exact ⟨none, by simp [hvisited]⟩
      · cases hnext : next start with
        | none => exact ⟨none, by simp [hvisited]⟩
        | some point =>
          have hstart : start ∈ points := hpoints start (by simp [hnext])
          obtain ⟨result, hresult⟩ := ih (List.nodup_cons.mpr ⟨hvisited, hnodup⟩)
            (List.cons_subset.mpr ⟨hstart, hsub⟩) (by rw [List.length_cons]; omega) point
          exact ⟨result, by simp [hvisited, hresult]⟩

/-- With enough rounds a search ends, and it finds the first point that answers
if there is one on the way. -/
theorem chase_spec {points : List α} (hpoints : ∀ point, next point ≠ none → point ∈ points) (start : α) :
    ∃ result, (∀ rounds, points.length < rounds → chase answer next rounds [] start = some result) ∧
      ∀ found, result = some found ↔ ∃ steps last, Reaches answer next start steps last found := by
  have hreturns : ∀ rounds, points.length < rounds → ∃ result, chase answer next rounds [] start = some result :=
    fun rounds hrounds => chase_returns hpoints List.nodup_nil (List.nil_subset _) (by simpa using hrounds) start
  have hiff : ∀ {rounds result}, chase answer next rounds [] start = some result →
      ∀ found, result = some found ↔ ∃ steps last, Reaches answer next start steps last found := by
    intro rounds result hresult found
    constructor
    · intro hfound
      rw [hfound] at hresult
      exact chase_sound hresult
    · intro ⟨steps, last, hreaches⟩
      exact chase_complete hreaches (by simp) hresult
  obtain ⟨result, hresult⟩ := hreturns (points.length + 1) (Nat.lt_succ_self _)
  refine ⟨result, ?_, hiff hresult⟩
  intro rounds hrounds
  obtain ⟨other, hother⟩ := hreturns rounds hrounds
  rw [hother]
  congr 1
  apply Option.ext
  intro found
  exact (hiff hother found).trans (hiff hresult found).symm

end Search

end Lasper.Lib
