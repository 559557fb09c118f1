import Lasper.Config.Conditional

/-! What an inspection reports of the files it looked for: those that were not
there, then the one that decided the search, then those it did not look at. -/

namespace Lasper.Config

open Lib Traced

variable {ε : Type} (sha256 : List UInt8 → String) (begun : Scene)

def NspawnConfigSource.candidate (source : NspawnConfigSource) (state : ConfigurationCandidateState) :
    ConfigurationCandidate :=
  ⟨source.path, source.kind.origin, state⟩

/-- What reading a file gave, at some moment since the start. -/
def Answered (path : Path) (answer : Except IoError (Option FileSnapshot)) : Prop :=
  ∃ s, Undisturbed begun s ∧ (readFile sha256 path s).result = answer

section Search

/-- What a search may have found in the sources it has seen. -/
inductive Searched : List NspawnConfigSource → Discovery → Prop
  | absent (seen : List NspawnConfigSource) (writeRevision : Option String)
      (writeTarget : Option ConfigurationWriteTarget)
      (missing : ∀ source ∈ seen, Answered sha256 begun source.path (.ok none)) :
      Searched seen ⟨seen.map (·.candidate .absent), none, writeRevision, writeTarget, none, none⟩
  | selected (before : List NspawnConfigSource) (source : NspawnConfigSource)
      (skipped : List NspawnConfigSource) (file : FileSnapshot) (writeRevision : Option String)
      (writeTarget : Option ConfigurationWriteTarget)
      (missing : ∀ source ∈ before, Answered sha256 begun source.path (.ok none))
      (found : Answered sha256 begun source.path (.ok (some file))) :
      Searched (before ++ source :: skipped)
        ⟨before.map (·.candidate .absent) ++ source.candidate .selected :: skipped.map (·.candidate .notConsulted),
          some file.revision, writeRevision, writeTarget,
          some ⟨source.path, source.kind.origin, file.content⟩, none⟩
  | unavailable (before : List NspawnConfigSource) (source : NspawnConfigSource)
      (skipped : List NspawnConfigSource) (error : IoError) (failure : String)
      (writeRevision : Option String) (writeTarget : Option ConfigurationWriteTarget)
      (missing : ∀ source ∈ before, Answered sha256 begun source.path (.ok none))
      (failed : Answered sha256 begun source.path (.error error)) :
      Searched (before ++ source :: skipped)
        ⟨before.map (·.candidate .absent) ++
            source.candidate (.unavailable error.text) :: skipped.map (·.candidate .notConsulted),
          none, writeRevision, writeTarget, none, some failure⟩

variable {sha256} {begun s : Scene} {seen : List NspawnConfigSource} {found : Discovery}

theorem Searched.start : Searched sha256 begun [] .start := .absent [] none none nofun

/-- Once the search has stopped, a source is only passed over. -/
theorem Searched.skip (h : Searched sha256 begun seen found) (stopped : (found.selected.isSome || found.failure.isSome) = true)
    (source : NspawnConfigSource) : Searched sha256 begun (seen ++ [source]) (found.record source .notConsulted) := by
  cases h with
  | absent => cases stopped
  | selected before decisive skipped file writeRevision writeTarget missing hfound =>
    have h := Searched.selected before decisive (skipped ++ [source]) file writeRevision writeTarget missing hfound
    simp only [Discovery.record, List.append_assoc, List.cons_append, List.map_append, List.map_cons,
      List.map_nil] at h ⊢
    exact h
  | unavailable before decisive skipped error failure writeRevision writeTarget missing failed =>
    have h := Searched.unavailable before decisive (skipped ++ [source]) error failure writeRevision writeTarget
      missing failed
    simp only [Discovery.record, List.append_assoc, List.cons_append, List.map_append, List.map_cons,
      List.map_nil] at h ⊢
    exact h

theorem Discovery.offer_eq (found : Discovery) (writableName : Bool) (source : NspawnConfigSource)
    (revision : String) (fileExists : Bool) :
    ∃ writeRevision writeTarget, found.offer writableName source revision fileExists =
      { found with writeTargetRevision := writeRevision, writeTarget := writeTarget } := by
  unfold Discovery.offer
  split_ifs
  · exact ⟨_, _, rfl⟩
  · exact ⟨found.writeTargetRevision, found.writeTarget, rfl⟩

/-- Until then, the source is read and its answer is recorded. -/
theorem Searched.take (h : Searched sha256 begun seen found)
    (searching : (found.selected.isSome || found.failure.isSome) = false) (writableName : Bool)
    (source : NspawnConfigSource) {answer : Except IoError (Option FileSnapshot)}
    (hanswer : Answered sha256 begun source.path answer) :
    Searched sha256 begun (seen ++ [source]) (found.take sha256 writableName source answer) := by
  cases h with
  | selected => cases searching
  | unavailable => cases searching
  | absent seen writeRevision writeTarget missing =>
    match answer with
    | .ok (some file) =>
      unfold Discovery.take
      obtain ⟨writeRevision, writeTarget, hoffer⟩ := Discovery.offer_eq
        ⟨seen.map (·.candidate .absent), none, writeRevision, writeTarget, none, none⟩ writableName source
        file.revision true
      simp only [hoffer]
      exact Searched.selected seen source [] file writeRevision writeTarget missing hanswer
    | .ok none =>
      unfold Discovery.take
      obtain ⟨writeRevision, writeTarget, hoffer⟩ := Discovery.offer_eq
        ⟨seen.map (·.candidate .absent), none, writeRevision, writeTarget, none, none⟩ writableName source
        (absenceRevision sha256 source.path) false
      simp only [hoffer]
      have hmissing : ∀ other ∈ seen ++ [source], Answered sha256 begun other.path (.ok none) := by
        intro other hother
        obtain hother | hother := List.mem_append.mp hother
        · exact missing other hother
        · rw [List.mem_singleton.mp hother]
          exact hanswer
      have h := Searched.absent (seen ++ [source]) writeRevision writeTarget hmissing
      rw [List.map_append] at h
      exact h
    | .error error =>
      exact Searched.unavailable seen source [] error _ writeRevision writeTarget missing hanswer

theorem consult_searched (h : Searched sha256 begun seen found) (writableName : Bool) (source : NspawnConfigSource)
    (hs : Undisturbed begun s) :
    Ensures (fun _ => True) (consult sha256 writableName found source : Traced Scene ε Discovery)
      (fun found t => Searched sha256 begun (seen ++ [source]) found ∧ Undisturbed begun t) (fun _ _ => False) s := by
  unfold consult
  cases hstopped : found.selected.isSome || found.failure.isSome with
  | true => exact ensures_pure ⟨h.skip hstopped source, hs⟩
  | false =>
    have hread := readFile_undisturbed sha256 source.path s hs
    apply ensures_bind (Q := fun answer t => Answered sha256 begun source.path answer ∧ Undisturbed begun t)
    · refine ensures_caught (ensures_run.mono ?_ ?_)
      · rintro found t ⟨hanswer, rfl⟩
        exact ⟨⟨s, hs, hanswer⟩, hread.returned found hanswer⟩
      · rintro error t ⟨hanswer, rfl⟩
        exact ⟨⟨s, hs, hanswer⟩, hread.failed error hanswer⟩
    · rintro answer t ⟨hanswer, ht⟩
      exact ensures_pure ⟨h.take hstopped writableName source hanswer, ht⟩

theorem search_searched (writableName : Bool) (sources : List NspawnConfigSource)
    (h : Searched sha256 begun seen found) (hs : Undisturbed begun s) :
    Ensures (fun _ => True) (search sha256 writableName found sources : Traced Scene ε Discovery)
      (fun found _ => Searched sha256 begun (seen ++ sources) found) (fun _ _ => False) s := by
  induction sources generalizing seen found s with
  | nil =>
    rw [List.append_nil]
    exact ensures_pure h
  | cons source sources ih =>
    apply ensures_bind (consult_searched h writableName source hs)
    rintro found t ⟨hfound, ht⟩
    have hnext := ih hfound ht
    rw [List.append_assoc, List.singleton_append] at hnext
    exact hnext

end Search

section Report

def ConfigurationCandidateState.isUnavailable : ConfigurationCandidateState → Bool
  | .unavailable _ => true
  | _ => false

/-- The states that end a search. -/
def ConfigurationCandidateState.isDecisive : ConfigurationCandidateState → Bool
  | .selected | .unavailable _ => true
  | _ => false

/-- What the state of a candidate says about its file. -/
def ConfigurationCandidate.Observed (candidate : ConfigurationCandidate) : Prop :=
  match candidate.state with
  | .absent => Answered sha256 begun candidate.path (.ok none)
  | .selected => ∃ file, Answered sha256 begun candidate.path (.ok (some file))
  | .notConsulted => True
  | .unavailable reason => ∃ error : IoError, error.text = reason ∧ Answered sha256 begun candidate.path (.error error)

/-- The candidates that were absent, the one that decided, and the rest. -/
def Ordered (states : List ConfigurationCandidateState) : Prop :=
  ∃ absent decisive skipped, states = absent ++ decisive ++ skipped ∧ (∀ state ∈ absent, state = .absent) ∧
    decisive.length ≤ 1 ∧ (∀ state ∈ decisive, state.isDecisive) ∧ ∀ state ∈ skipped, state = .notConsulted

structure Reports (sources : List NspawnConfigSource) (snapshot : ConfigurationSnapshot) : Prop where
  listed : snapshot.candidates.map (fun candidate => (candidate.path, candidate.origin)) =
    sources.map fun source => (source.path, source.kind.origin)
  ordered : Ordered (snapshot.candidates.map (·.state))
  observed : ∀ candidate ∈ snapshot.candidates, candidate.Observed sha256 begun
  complete : snapshot.revision.isSome ↔ ∀ candidate ∈ snapshot.candidates, candidate.state.isUnavailable = false
  selected : ∀ path origin, ⟨path, origin, .selected⟩ ∈ snapshot.candidates ↔
    ∃ content, snapshot.document = some ⟨path, origin, content⟩
  readSource : ∀ revision, snapshot.revision = some revision →
    (snapshot.document = none ∧ revision.readSource = none) ∨
    ∃ document file, snapshot.document = some document ∧ Answered sha256 begun document.path (.ok (some file)) ∧
      document.content = file.content ∧ revision.readSource = some file.revision

variable {sha256} {begun : Scene} {seen sources : List NspawnConfigSource} {found : Discovery} (target : ConfigurationTarget)

@[simp] theorem Discovery.snapshot_candidates :
    (found.snapshot sha256 target).candidates = found.candidates := by
  unfold Discovery.snapshot
  cases found.selected <;> rfl

@[simp] theorem Discovery.snapshot_document :
    (found.snapshot sha256 target).document = found.selected := by
  unfold Discovery.snapshot
  cases found.selected <;> rfl

@[simp] theorem Discovery.snapshot_revision :
    (found.snapshot sha256 target).revision = match found.failure with
      | some _ => none
      | none => some ⟨discoveryRevision sha256 target found.candidates, found.readSource, found.writeTargetRevision⟩ := by
  unfold Discovery.snapshot
  cases found.selected <;> rfl

theorem map_state (state : ConfigurationCandidateState) :
    (sources.map (·.candidate state)).map (·.state) = List.replicate sources.length state := by
  rw [List.map_map]
  exact List.map_const'

theorem map_listed (state : ConfigurationCandidateState) :
    (sources.map (·.candidate state)).map (fun candidate => (candidate.path, candidate.origin)) =
      sources.map fun source => (source.path, source.kind.origin) := by
  rw [List.map_map]
  rfl

/-- The order of the states when one candidate decided. -/
theorem ordered_decided {before skipped : List NspawnConfigSource} {source : NspawnConfigSource}
    {state : ConfigurationCandidateState} (hstate : state.isDecisive = true) :
    Ordered ((before.map (·.candidate .absent) ++
      source.candidate state :: skipped.map (·.candidate .notConsulted)).map (·.state)) := by
  refine ⟨List.replicate before.length .absent, [state], List.replicate skipped.length .notConsulted,
    ?_, fun _ => List.eq_of_mem_replicate, le_rfl, ?_, fun _ => List.eq_of_mem_replicate⟩
  · rw [List.map_append, List.map_cons, map_state, map_state, List.append_assoc]
    rfl
  · intro other hother
    rw [List.mem_singleton.mp hother]
    exact hstate

theorem Searched.reports (h : Searched sha256 begun sources found) :
    Reports sha256 begun sources (found.snapshot sha256 target) := by
  cases h with
  | absent seen writeRevision writeTarget missing =>
    constructor
    · rw [Discovery.snapshot_candidates, map_listed]
    · rw [Discovery.snapshot_candidates, map_state]
      exact ⟨List.replicate sources.length .absent, [], [], by simp, fun _ => List.eq_of_mem_replicate,
        by simp, by simp, by simp⟩
    · simpa [ConfigurationCandidate.Observed, NspawnConfigSource.candidate] using missing
    · simp [NspawnConfigSource.candidate, ConfigurationCandidateState.isUnavailable]
    · simp [NspawnConfigSource.candidate]
    · simp
  | selected before source skipped file writeRevision writeTarget missing hfound =>
    constructor
    · simp only [Discovery.snapshot_candidates, List.map_append, List.map_cons, map_listed]
      rfl
    · rw [Discovery.snapshot_candidates]
      exact ordered_decided rfl
    · rw [Discovery.snapshot_candidates, List.forall_mem_append, List.forall_mem_cons]
      refine ⟨?_, ⟨file, hfound⟩, ?_⟩
      · simpa [ConfigurationCandidate.Observed, NspawnConfigSource.candidate] using missing
      · simp [ConfigurationCandidate.Observed, NspawnConfigSource.candidate]
    · simp [NspawnConfigSource.candidate, ConfigurationCandidateState.isUnavailable, or_imp, forall_and]
    · simp [NspawnConfigSource.candidate, eq_comm]
    · simp
      exact ⟨file, hfound, rfl, rfl⟩
  | unavailable before source skipped error failure writeRevision writeTarget missing failed =>
    constructor
    · simp only [Discovery.snapshot_candidates, List.map_append, List.map_cons, map_listed]
      rfl
    · rw [Discovery.snapshot_candidates]
      exact ordered_decided rfl
    · rw [Discovery.snapshot_candidates, List.forall_mem_append, List.forall_mem_cons]
      refine ⟨?_, ⟨error, rfl, failed⟩, ?_⟩
      · simpa [ConfigurationCandidate.Observed, NspawnConfigSource.candidate] using missing
      · simp [ConfigurationCandidate.Observed, NspawnConfigSource.candidate]
    · simp [NspawnConfigSource.candidate, ConfigurationCandidateState.isUnavailable, or_imp, forall_and]
    · simp [NspawnConfigSource.candidate]
    · simp

/-- An inspection never fails, and this is what it reports. -/
theorem inspectAt_reports (sha256 : List UInt8 → String) (sources : List NspawnConfigSource) (s : Scene) :
    ∃ snapshot, (inspectAt sha256 target sources s : Outcome Scene ε _).result = .ok snapshot ∧
      Reports sha256 s sources snapshot := by
  have hensures : Ensures (fun _ => True) (inspectAt sha256 target sources : Traced Scene ε ConfigurationSnapshot)
      (fun snapshot _ => Reports sha256 s sources snapshot) (fun _ _ => False) s := by
    apply ensures_bind (search_searched _ sources .start (.refl s))
    intro found t hfound
    exact ensures_pure (hfound.reports target)
  exact hensures.succeeds

end Report

end Lasper.Config
