import Lasper.Nvidia.Discovery

/-! The symbolic links that a CDI document makes in a container, followed to the
files it mounts there. The document may make links that lead around in a circle. -/

namespace Lasper.Nvidia

open Lib Config

variable {sources links : List (Text × Text)}

/-- The path reached from a link, after so many others. -/
def pathAfter (target linkPath : Text) (links : List (Text × Text)) (steps : ℕ) : Option Text := do
  let start ← resolveContainerSymlinkTarget target linkPath
  reached (nextPath links) start steps

theorem mem_of_mapGet {pairs : List (Text × Text)} {key value : Text} (h : mapGet pairs key = some value) :
    (key, value) ∈ pairs := by
  obtain ⟨front, back, hsplit, -⟩ := List.lookup_eq_some_iff.mp h
  rw [← List.mem_reverse, hsplit]
  exact List.mem_append_right _ List.mem_cons_self

/-- Only the path of a link leads on. -/
theorem mem_links_of_nextPath {path : Text} (h : nextPath links path ≠ none) : path ∈ links.map (·.1) := by
  cases hget : mapGet links path with
  | none =>
    apply absurd _ h
    simp [nextPath, hget]
  | some target => exact List.mem_map_of_mem (mem_of_mapGet hget)

theorem sourceAt_eq_some {path hostPath key : Text} :
    sourceAt sources path = some (hostPath, key) ↔ mapGet sources path = some hostPath ∧ path = key := by
  simp [sourceAt]

theorem sourceAt_eq_none {path : Text} : sourceAt sources path = none ↔ mapGet sources path = none := by
  simp [sourceAt]

/-- The paths come to the file at `key`, to no other file before it, and to no path twice. -/
def LeadsTo (sources : List (Text × Text)) (path : ℕ → Option Text) (hostPath key : Text) : Prop :=
  ∃ steps, path steps = some key ∧ mapGet sources key = some hostPath ∧
    (∀ i < steps, ∀ earlier, path i = some earlier → mapGet sources earlier = none) ∧
    ∀ i j, i < j → j ≤ steps → path i ≠ path j

theorem reaches_iff_leadsTo {start hostPath key : Text} :
    (∃ steps last, Reaches (sourceAt sources) (nextPath links) start steps last (hostPath, key)) ↔
      LeadsTo sources (reached (nextPath links) start) hostPath key := by
  constructor
  · intro ⟨steps, last, h⟩
    obtain ⟨hsource, rfl⟩ := sourceAt_eq_some.mp h.answers
    refine ⟨steps, h.last, hsource, ?_, fun i j => h.injective⟩
    intro i hi earlier hearlier
    exact sourceAt_eq_none.mp (h.first i hi earlier hearlier)
  · intro ⟨steps, hlast, hsource, hfirst, _⟩
    refine ⟨steps, key, hlast, sourceAt_eq_some.mpr ⟨hsource, rfl⟩, ?_⟩
    intro i hi earlier hearlier
    exact sourceAt_eq_none.mpr (hfirst i hi earlier hearlier)

theorem resolveSymlinkSource_follows (target linkPath : Text) (sources links : List (Text × Text)) :
    (∀ start, resolveContainerSymlinkTarget target linkPath = some start → ∀ rounds, links.length < rounds →
      followLinks sources links rounds [] start = some (resolveSymlinkSource target linkPath sources links)) ∧
    ∀ hostPath key, resolveSymlinkSource target linkPath sources links = some (hostPath, key) ↔
      LeadsTo sources (pathAfter target linkPath links) hostPath key := by
  unfold resolveSymlinkSource pathAfter followLinks
  cases hstart : resolveContainerSymlinkTarget target linkPath with
  | none => simp [LeadsTo]
  | some start =>
    obtain ⟨result, hrounds, hresult⟩ := @chase_spec _ _ (sourceAt sources) (nextPath links) _ (links.map (·.1))
      (fun point => mem_links_of_nextPath) start
    rw [List.length_map] at hrounds
    have hjoin : (chase (sourceAt sources) (nextPath links) (links.length + 1) [] start).join = result := by
      rw [hrounds _ (Nat.lt_succ_self _)]
      rfl
    simp only [Option.bind_eq_bind, Option.bind_some, hjoin]
    constructor
    · intro other hother rounds hmany
      cases hother
      exact hrounds rounds hmany
    · intro hostPath key
      exact (hresult (hostPath, key)).trans reaches_iff_leadsTo

/-- A chain of two links to a mounted file. -/
example : resolveSymlinkSource "libcuda.so.1".toList "/usr/lib/libcuda.so".toList
    [("/usr/lib/libcuda.so.595".toList, "/host/libcuda.so.595".toList)]
    [("/usr/lib/libcuda.so.1".toList, "libcuda.so.595".toList)] =
      some ("/host/libcuda.so.595".toList, "/usr/lib/libcuda.so.595".toList) := by decide +kernel

end Lasper.Nvidia
