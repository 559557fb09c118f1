import Mathlib.Data.List.Nodup
import Lasper.Config.Layout
import Lasper.Lib.Checked

/-! What a successful plan consists of: for every requested line the mutation
that the request calls for, then the insertion of the encoded additions. -/

namespace Lasper.Config

open Lib

theorem mapError_ok {ε ε' α : Type} {x : Except ε α} {f : ε → ε'} {a : α}
    (h : x.mapError f = .ok a) : x = .ok a := by
  cases x with
  | error e => cases h
  | ok b => cases h; rfl

def Inspected.declarations (inspected : Inspected) : DisplayKind → List BindingDeclaration
  | .x11 => inspected.x11Declarations.map (·.toBindingDeclaration)
  | .wayland => inspected.waylandDeclarations.map (·.toBindingDeclaration)

def Inspected.declarationAt (inspected : Inspected) (kind : DisplayKind) (line : ℕ) :
    Option BindingDeclaration :=
  (inspected.declarations kind).find? (·.line = line)

def ConfigurationEdit.requestAt (edit : ConfigurationEdit) (line : ℕ) : Option Requested :=
  requestedAt edit.requests line

/-- What a draft makes of a line: its new text, or `none` if it is removed. -/
def Inspected.rewrite (inspected : Inspected) (edit : ConfigurationEdit) (line : PhysicalLine) :
    Option Text :=
  match edit.requestAt line.number with
  | none => some line.raw
  | some request =>
    match inspected.declarationAt request.kind line.number with
    | none => some line.raw
    | some declaration => replacementText line declaration request.change

/-- The lines that a draft changes, with their new text. -/
def Inspected.edits (inspected : Inspected) (edit : ConfigurationEdit) (line : PhysicalLine) :
    Option (Option Text) :=
  if inspected.rewrite edit line = some line.raw then none else some (inspected.rewrite edit line)

def Inspected.idmapped (inspected : Inspected) : DisplayKind → Bool
  | .x11 => recommends inspected.x11Recommendation
  | .wayland => recommends inspected.waylandRecommendation
where
  recommends : DisplayBindRecommendation → Bool
    | .ready _ idmapped => idmapped
    | .unsupported _ _ => false

def Inspected.encodeAddition (inspected : Inspected) : Addition → Text
  | .x11 source => encodeNewX11Directive source (inspected.idmapped .x11)
  | .wayland source guestTarget =>
    encodeNewWaylandDirective source guestTarget (inspected.idmapped .wayland)

section Requests

variable {requested requested' requests : List Requested} {request : Requested}

theorem insertRequest_mem (h : insertRequest request requested = some requested') {r : Requested} :
    r ∈ requested' ↔ r = request ∨ r ∈ requested := by
  induction requested generalizing requested' with
  | nil => cases h; simp
  | cons other rest ih =>
    simp only [insertRequest] at h
    split_ifs at h
    · cases h; simp
    · obtain ⟨inserted, hi, rfl⟩ := Option.map_eq_some_iff.mp h
      rw [List.mem_cons, ih hi, List.mem_cons]
      tauto

theorem insertRequest_sorted (h : insertRequest request requested = some requested')
    (hs : requested.Pairwise (·.line < ·.line)) : requested'.Pairwise (·.line < ·.line) := by
  induction requested generalizing requested' with
  | nil => cases h; simp
  | cons other rest ih =>
    obtain ⟨hother, hrest⟩ := List.pairwise_cons.mp hs
    simp only [insertRequest] at h
    split_ifs at h with hlt heq
    · cases h
      refine List.pairwise_cons.mpr ⟨?_, hs⟩
      intro r hr
      rcases List.mem_cons.mp hr with rfl | hr
      · exact hlt
      · exact hlt.trans (hother r hr)
    · obtain ⟨inserted, hi, rfl⟩ := Option.map_eq_some_iff.mp h
      refine List.pairwise_cons.mpr ⟨?_, ih hi hrest⟩
      intro r hr
      rcases (insertRequest_mem hi).mp hr with rfl | hr
      · omega
      · exact hother r hr

/-- Requests in the order of their lines, numbered from one. -/
structure Collected (requests requested : List Requested) : Prop where
  mem : ∀ r, r ∈ requested ↔ r ∈ requests
  sorted : requested.Pairwise (·.line < ·.line)
  positive : ∀ r ∈ requested, 0 < r.line

theorem collect_from {done : List Requested} (hd : Collected done requested)
    (h : requests.foldlM (fun requested request => addRequest request requested) requested =
      Except.ok requested') : Collected (done ++ requests) requested' := by
  induction requests generalizing done requested with
  | nil => cases h; rw [List.append_nil]; exact hd
  | cons request rest ih =>
    rw [List.foldlM_cons] at h
    obtain ⟨next, hnext, h⟩ := bind_ok h
    unfold addRequest at hnext
    split_ifs at hnext with hzero
    cases hi : insertRequest request requested with
    | none => rw [hi] at hnext; cases hnext
    | some inserted =>
      rw [hi] at hnext
      have hinserted : inserted = next := Except.ok.inj hnext
      subst hinserted
      have hnew : Collected (done ++ [request]) inserted := by
        refine ⟨fun r => ?_, insertRequest_sorted hi hd.sorted, ?_⟩
        · rw [insertRequest_mem hi, hd.mem, List.mem_append, List.mem_singleton]
          tauto
        · intro r hr
          rcases (insertRequest_mem hi).mp hr with rfl | hr
          · omega
          · exact hd.positive r hr
      have := ih hnew h
      rwa [List.append_assoc, List.singleton_append] at this

theorem collectRequests_collected (h : collectRequests requests = .ok requested) :
    Collected requests requested := by
  have hnil : Collected [] [] := ⟨by simp, List.Pairwise.nil, by simp⟩
  exact collect_from hnil h

theorem Collected.unique (h : Collected requests requested) {r r' : Requested} (hr : r ∈ requested)
    (hr' : r' ∈ requested) (hline : r.line = r'.line) : r = r' := by
  have hnodup : (requested.map (·.line)).Nodup := List.pairwise_map.mpr (h.sorted.imp ne_of_lt)
  exact List.inj_on_of_nodup_map hnodup hr hr' hline

/-- Looking a line up in the draft or in the collected requests is the same. -/
theorem Collected.requestedAt_eq (h : Collected requests requested) (line : ℕ) :
    requestedAt requested line = requestedAt requests line := by
  cases hr : requestedAt requested line with
  | none =>
    have hnone := List.find?_eq_none.mp hr
    exact (List.find?_eq_none.mpr fun r hm => hnone r ((h.mem r).mpr hm)).symm
  | some r =>
    have hline : r.line = line := by simpa using List.find?_some hr
    have hmem : r ∈ requested := List.mem_of_find?_eq_some hr
    cases hr' : requestedAt requests line with
    | none => exact absurd hline (by simpa using List.find?_eq_none.mp hr' r ((h.mem r).mp hmem))
    | some r' =>
      have hline' : r'.line = line := by simpa using List.find?_some hr'
      have hmem' : r' ∈ requested := (h.mem r').mpr (List.mem_of_find?_eq_some hr')
      rw [h.unique hmem hmem' (hline.trans hline'.symm)]

end Requests

section Lines

variable {inspected : Inspected} {lines : List PhysicalLine} {planned occupied : List (ℕ × Path)}
  {request : Requested} {mutation : Option SourceMutation}

def validateSource : DisplayKind → Path → Except String Unit
  | .x11 => validateX11Source
  | .wayland => validateWaylandSource

/-- The checks that a requested update has passed. -/
def Validated (kind : DisplayKind) : LineChange → Prop
  | .remove => True
  | .update source guestTarget _ =>
    validateSource kind source = .ok () ∧ validateGuestTarget guestTarget = .ok ()

/-- What stands behind a planned line. -/
structure Planned (inspected : Inspected) (lines : List PhysicalLine) (request : Requested)
    (line : PhysicalLine) (declaration : BindingDeclaration) : Prop where
  mem : line ∈ lines
  number : line.number = request.line
  whole : hasContinuation line.body = false
  declared : inspected.declarationAt request.kind line.number = some declaration
  validated : Validated request.kind request.change

theorem calculateReplacement_ok {label : String} {check : Path → Except String Unit}
    {line : PhysicalLine} {declarations : List BindingDeclaration} {change : LineChange}
    {new : Option Text} (h : calculateReplacement label check line declarations occupied change = .ok new) :
    ∃ declaration, declarations.find? (·.line = line.number) = some declaration ∧
      new = replacementText line declaration change ∧
      ∀ source guestTarget readonly, change = .update source guestTarget readonly →
        check source = .ok () ∧ validateGuestTarget guestTarget = .ok () := by
  unfold calculateReplacement at h
  cases hd : declarations.find? (·.line = line.number) with
  | none => rw [hd] at h; cases h
  | some declaration =>
    rw [hd] at h
    refine ⟨declaration, rfl, ?_⟩
    cases change with
    | remove =>
      cases h
      exact ⟨rfl, fun _ _ _ hu => by cases hu⟩
    | update source guestTarget readonly =>
      obtain ⟨_, hsource, h⟩ := bind_ok h
      obtain ⟨_, htarget, h⟩ := bind_ok h
      obtain ⟨_, -, h⟩ := bind_ok h
      cases h
      refine ⟨rfl, ?_⟩
      intro _ _ _ hu
      cases hu
      exact ⟨mapError_ok hsource, mapError_ok htarget⟩

theorem requestedText_ok {line : PhysicalLine} {new : Option Text}
    (h : requestedText inspected line planned occupied request = .ok new) :
    ∃ declaration, inspected.declarationAt request.kind line.number = some declaration ∧
      new = replacementText line declaration request.change ∧ Validated request.kind request.change := by
  have hvalid : ∀ check, (∀ source guestTarget readonly, request.change = .update source guestTarget readonly →
      check source = .ok () ∧ validateGuestTarget guestTarget = .ok ()) →
      validateSource request.kind = check → Validated request.kind request.change := by
    rintro check hv rfl
    cases hchange : request.change with
    | remove => trivial
    | update source guestTarget readonly => exact hv _ _ _ hchange
  unfold requestedText at h
  cases hk : request.kind with
  | x11 =>
    rw [hk] at h
    obtain ⟨_, -, h⟩ := bind_ok h
    obtain ⟨declaration, hd, hn, hv⟩ := calculateReplacement_ok h
    exact ⟨declaration, hd, hn, hk ▸ hvalid _ hv (by rw [hk]; rfl)⟩
  | wayland =>
    rw [hk] at h
    obtain ⟨declaration, hd, hn, hv⟩ := calculateReplacement_ok h
    exact ⟨declaration, hd, hn, hk ▸ hvalid _ hv (by rw [hk]; rfl)⟩

theorem planRequest_ok (hl : Laid 1 0 lines) (hpos : 0 < request.line)
    (h : planRequest inspected lines planned occupied request = .ok mutation) :
    ∃ line declaration, Planned inspected lines request line declaration ∧
      mutation = if replacementText line declaration request.change = some line.raw then none
        else some (lineMutation line (replacementText line declaration request.change)) := by
  unfold planRequest at h
  cases hline : lines[request.line - 1]? with
  | none => rw [hline] at h; cases h
  | some line =>
    rw [hline] at h
    dsimp only at h
    split_ifs at h with hcont
    obtain ⟨hmem, hnum⟩ := (hl.getElem?_eq_some hpos).mp hline
    obtain ⟨new, hnew, h⟩ := bind_ok h
    obtain ⟨declaration, hd, rfl, hv⟩ := requestedText_ok hnew
    cases h
    exact ⟨line, declaration, ⟨hmem, hnum, by simpa using hcont, hd, hv⟩, rfl⟩

/-- The mutation that a request calls for on its line. -/
def Inspected.mutationFor (inspected : Inspected) (line : PhysicalLine) (request : Requested) :
    Option SourceMutation :=
  match inspected.declarationAt request.kind line.number with
  | none => none
  | some declaration =>
    if replacementText line declaration request.change = some line.raw then none
    else some (lineMutation line (replacementText line declaration request.change))

theorem Laid.number_inj {number offset : ℕ} (hl : Laid number offset lines) {line line' : PhysicalLine}
    (h : line ∈ lines) (h' : line' ∈ lines) (hn : line.number = line'.number) : line = line' := by
  have hle := hl.le_number h
  have hline := (hl.getElem?_eq_some hle).mpr ⟨h, rfl⟩
  have hline' := (hl.getElem?_eq_some hle).mpr ⟨h', hn.symm⟩
  rw [hline] at hline'
  exact Option.some.inj hline'

/-- Requests in ascending order plan the mutations of ascending lines. The
induction is on the lines still to come; the requests left are at or after them. -/
theorem planRequests_from (hl : Laid 1 0 lines) (rest : List PhysicalLine) :
    ∀ (done : List PhysicalLine) (requested : List Requested) (mutations : List SourceMutation),
      lines = done ++ rest → requested.Pairwise (·.line < ·.line) →
      (∀ request ∈ requested, done.length < request.line) →
      planRequests inspected lines planned occupied requested = .ok mutations →
      mutations = rest.filterMap fun line =>
        (requestedAt requested line.number).bind (inspected.mutationFor line) := by
  induction rest with
  | nil =>
    intro done requested mutations hsplit _ hlow h
    cases requested with
    | nil => cases h; rfl
    | cons request requested =>
      obtain ⟨mutation, hm, -⟩ := bind_ok h
      have hpos := hlow request List.mem_cons_self
      obtain ⟨line, declaration, hp, -⟩ := planRequest_ok hl (by omega) hm
      rw [List.append_nil] at hsplit
      have hone : 1 ≤ request.line := by omega
      have hnum := (hl.getElem?_eq_some hone).mpr ⟨hp.mem, hp.number⟩
      have hlt := (List.getElem?_eq_some_iff.mp hnum).1
      rw [hsplit] at hlt
      omega
  | cons first rest ih =>
    intro done requested mutations hsplit hsorted hlow h
    have hsplit' : lines = (done ++ [first]) ++ rest := by rw [hsplit]; simp
    have hlen : (done ++ [first]).length = done.length + 1 := by simp
    have hlaid := hl
    rw [hsplit] at hlaid
    obtain ⟨hfirst, -, -, hrest⟩ := hlaid.split
    have hlater : ∀ line ∈ rest, first.number < line.number := by
      intro line hline
      have := hrest.le_number hline
      omega
    have hmem : first ∈ lines := by rw [hsplit]; simp
    rw [List.filterMap_cons]
    cases requested with
    | nil =>
      cases h
      have hnone : ∀ line : PhysicalLine,
          (requestedAt [] line.number).bind (inspected.mutationFor line) = none := fun _ => rfl
      simp [hnone]
    | cons request requested =>
      obtain ⟨hafter, hsorted'⟩ := List.pairwise_cons.mp hsorted
      have hlow' := hlow request List.mem_cons_self
      by_cases heq : request.line = first.number
      · obtain ⟨mutation, hm, h⟩ := bind_ok h
        obtain ⟨mutations', hms, h⟩ := bind_ok h
        cases h
        obtain ⟨line, declaration, hp, rfl⟩ := planRequest_ok hl (by omega) hm
        have hline : line = first := hl.number_inj hp.mem hmem (hp.number.trans heq)
        subst hline
        have hhere : (requestedAt (request :: requested) line.number).bind (inspected.mutationFor line) =
            if replacementText line declaration request.change = some line.raw then none
            else some (lineMutation line (replacementText line declaration request.change)) := by
          rw [requestedAt, List.find?_cons_of_pos (by simpa using heq)]
          simp only [Option.bind_some, Inspected.mutationFor, hp.declared]
        have hrec := ih (done ++ [line]) requested mutations' hsplit' hsorted'
          (fun r hr => by have := hafter r hr; rw [hlen]; omega) hms
        have hskip : rest.filterMap (fun l =>
            (requestedAt (request :: requested) l.number).bind (inspected.mutationFor l)) = mutations' := by
          rw [hrec]
          refine List.filterMap_congr fun l hl' => ?_
          have := hlater l hl'
          rw [requestedAt, List.find?_cons_of_neg (by simp; omega)]
          rfl
        rw [hhere, hskip]
        split_ifs
        · rfl
        · rfl
      · have hnone : requestedAt (request :: requested) first.number = none := by
          refine List.find?_eq_none.mpr fun r hr => ?_
          have hgt : first.number < r.line := by
            rcases List.mem_cons.mp hr with rfl | hr
            · omega
            · have := hafter r hr
              omega
          simp only [decide_eq_true_eq]
          omega
        rw [hnone]
        exact ih (done ++ [first]) _ mutations hsplit' hsorted (fun r hr => by
          rw [hlen]
          rcases List.mem_cons.mp hr with rfl | hr
          · omega
          · have := hafter r hr
            omega) h

/-- Every request that was planned names a line of its declaration. -/
theorem planRequests_planned (hl : Laid 1 0 lines) {requested : List Requested}
    {mutations : List SourceMutation} (hpos : ∀ request ∈ requested, 0 < request.line)
    (h : planRequests inspected lines planned occupied requested = .ok mutations) :
    ∀ request ∈ requested, ∃ line declaration, Planned inspected lines request line declaration := by
  induction requested generalizing mutations with
  | nil => intro request hr; cases hr
  | cons first requested ih =>
    obtain ⟨mutation, hm, h⟩ := bind_ok h
    obtain ⟨mutations', hms, -⟩ := bind_ok h
    intro request hr
    rcases List.mem_cons.mp hr with rfl | hr
    · obtain ⟨line, declaration, hp, -⟩ := planRequest_ok hl (hpos request List.mem_cons_self) hm
      exact ⟨line, declaration, hp⟩
    · exact ih (fun r hr => hpos r (List.mem_cons_of_mem _ hr)) hms request hr

end Lines

section Whole

variable {inspected : Inspected} {edit : ConfigurationEdit} {content : Text}

theorem recommendationIdmap_ok {label : String} {recommendation : DisplayBindRecommendation} {idmapped : Bool}
    (h : recommendationIdmap label recommendation = .ok idmapped) :
    Inspected.idmapped.recommends recommendation = idmapped := by
  cases recommendation with
  | ready _ i => cases h; rfl
  | unsupported _ _ => cases h

/-- The checks that an addition has passed. -/
def Addition.Validated : Addition → Prop
  | .x11 source => validateX11Source source = .ok ()
  | .wayland source guestTarget =>
    validateWaylandSource source = .ok () ∧ validateGuestTarget guestTarget = .ok ()

theorem planAddition_ok {planned : List (ℕ × Path)} {addition : Addition} {target : Path} {binding : Text}
    (h : planAddition inspected planned addition = .ok (target, binding)) :
    binding = inspected.encodeAddition addition ∧ addition.Validated := by
  cases addition with
  | x11 source =>
    obtain ⟨idmapped, hi, h⟩ := bind_ok h
    obtain ⟨_, hv, h⟩ := bind_ok h
    obtain ⟨_, -, h⟩ := bind_ok h
    cases h
    have hi' : inspected.idmapped .x11 = idmapped := recommendationIdmap_ok hi
    exact ⟨by rw [Inspected.encodeAddition, hi'], mapError_ok hv⟩
  | wayland source guestTarget =>
    obtain ⟨idmapped, hi, h⟩ := bind_ok h
    obtain ⟨_, hv, h⟩ := bind_ok h
    obtain ⟨_, ht, h⟩ := bind_ok h
    cases h
    have hi' : inspected.idmapped .wayland = idmapped := recommendationIdmap_ok hi
    exact ⟨by rw [Inspected.encodeAddition, hi'], mapError_ok hv, mapError_ok ht⟩

theorem planAdditions_ok {additions : List Addition} {planned occupied : List (ℕ × Path)}
    {bindings : List Text} (h : planAdditions inspected planned occupied additions = .ok bindings) :
    bindings = additions.map inspected.encodeAddition ∧ ∀ addition ∈ additions, addition.Validated := by
  induction additions generalizing planned occupied bindings with
  | nil => cases h; exact ⟨rfl, by simp⟩
  | cons addition additions ih =>
    obtain ⟨⟨target, binding⟩, ha, h⟩ := bind_ok h
    obtain ⟨rfl, hv⟩ := planAddition_ok ha
    dsimp only at h
    split_ifs at h
    · cases h
    · obtain ⟨bindings', hb, h⟩ := bind_ok h
      cases h
      obtain ⟨rfl, hvs⟩ := ih hb
      refine ⟨rfl, ?_⟩
      intro a ha
      rcases List.mem_cons.mp ha with rfl | ha
      · exact hv
      · exact hvs a ha

/-- The parts of a successful plan. -/
structure Plan (inspected : Inspected) (edit : ConfigurationEdit) (content : Text)
    (mutations : List SourceMutation) : Prop where
  mutations_eq : mutations =
    ((physicalLines content).filterMap fun line => (inspected.edits edit line).map (lineMutation line)) ++
      if edit.additions = [] then []
      else [insertionMutation content (edit.additions.map inspected.encodeAddition)]
  planned : ∀ request ∈ edit.requests, ∃ line declaration,
    Planned inspected (physicalLines content) request line declaration
  unique : ∀ request ∈ edit.requests, edit.requestAt request.line = some request
  validated : ∀ addition ∈ edit.additions, addition.Validated

theorem mutationFor_eq (line : PhysicalLine) :
    (edit.requestAt line.number).bind (inspected.mutationFor line) =
      (inspected.edits edit line).map (lineMutation line) := by
  unfold Inspected.edits Inspected.rewrite
  cases edit.requestAt line.number with
  | none => simp
  | some request =>
    simp only [Option.bind_some, Inspected.mutationFor]
    cases inspected.declarationAt request.kind line.number with
    | none => simp
    | some declaration =>
      dsimp only
      split_ifs
      · rfl
      · rfl

theorem planDisplayMutations_ok {mutations : List SourceMutation}
    (h : planDisplayMutations inspected edit content = .ok mutations) :
    Plan inspected edit content mutations := by
  obtain ⟨requested, hcollect, h⟩ := bind_ok h
  obtain ⟨lineMutations, hplan, h⟩ := bind_ok h
  obtain ⟨bindings, hadd, h⟩ := bind_ok h
  cases h
  have hcol := collectRequests_collected hcollect
  have hlaid := physicalLines_laid content
  obtain ⟨rfl, hvalid⟩ := planAdditions_ok hadd
  refine ⟨?_, ?_, ?_, hvalid⟩
  · have hlines := planRequests_from hlaid (physicalLines content) [] requested lineMutations rfl
      hcol.sorted (fun r hr => hcol.positive r hr) hplan
    have hedits : lineMutations = (physicalLines content).filterMap fun line =>
        (inspected.edits edit line).map (lineMutation line) := by
      rw [hlines]
      refine List.filterMap_congr fun line _ => ?_
      rw [hcol.requestedAt_eq, ← mutationFor_eq]
      rfl
    rw [hedits]
    simp only [List.isEmpty_iff, List.map_eq_nil_iff]
    split_ifs
    · rw [List.append_nil]
    · rfl
  · intro request hr
    exact planRequests_planned hlaid hcol.positive hplan request ((hcol.mem request).mpr hr)
  · intro request hr
    have hmem := (hcol.mem request).mpr hr
    rw [ConfigurationEdit.requestAt, ← hcol.requestedAt_eq]
    cases hfind : requestedAt requested request.line with
    | none =>
      have hnot := List.find?_eq_none.mp hfind request hmem
      simp at hnot
    | some found =>
      have hline : found.line = request.line := by simpa using List.find?_some hfind
      rw [hcol.unique (List.mem_of_find?_eq_some hfind) hmem hline]

/-- A ready preparation is the application of a plan for the inspected document. -/
theorem prepare_ready {snapshot : ConfigurationSnapshot} {change : PreparedChange}
    (h : prepare snapshot edit = some (.ready change)) :
    ∃ document mutations, snapshot.writeContext edit.target edit.baseRevision = .ok document ∧
      Plan snapshot.inspected edit document.content mutations ∧
      applyMutations document.content mutations = some change.after ∧ change.path = document.path := by
  unfold prepare at h
  split_ifs at h
  · cases h
  · cases h
  unfold preparePatch at h
  cases hctx : snapshot.writeContext edit.target edit.baseRevision with
  | error error =>
    rw [hctx] at h
    cases error <;> cases h
  | ok document =>
    rw [hctx] at h
    dsimp only at h
    cases hplan : planDisplayMutations snapshot.inspected edit document.content with
    | error reason => rw [hplan] at h; cases h
    | ok mutations =>
      rw [hplan] at h
      dsimp only at h
      split_ifs at h
      · cases h
      · cases h
      · obtain ⟨after, happly, hready⟩ := Option.map_eq_some_iff.mp h
        cases hready
        exact ⟨document, mutations, rfl, planDisplayMutations_ok hplan, happly, rfl⟩

/-- A document may be written only if it was inspected at the base revision, by
the administrator's own path. -/
structure Writable (snapshot : ConfigurationSnapshot) (target : ConfigurationTarget)
    (revision : ConfigurationRevision) (document : ConfigurationDocument) : Prop where
  target_eq : snapshot.target = target
  revision_eq : snapshot.revision = some revision
  document_eq : snapshot.document = some document
  administrator : document.origin = .administrator
  writeTarget : ∃ writeTarget, snapshot.writeTarget = some writeTarget ∧ writeTarget.fileExists = true ∧
    Path.same writeTarget.path document.path = true

theorem writeContext_ok {snapshot : ConfigurationSnapshot} {target : ConfigurationTarget}
    {revision : ConfigurationRevision} {document : ConfigurationDocument}
    (h : snapshot.writeContext target revision = .ok document) :
    Writable snapshot target revision document := by
  unfold ConfigurationSnapshot.writeContext at h
  split_ifs at h with htarget
  split at h
  · cases h
  · rename_i revision' hrevision
    split_ifs at h with hrev
    split at h
    · cases h
    · rename_i document' hdocument
      split_ifs at h with horigin
      split at h
      · cases h
      · rename_i writeTarget hwrite
        split_ifs at h with hmismatch
        cases h
        simp only [Bool.or_eq_true, Bool.not_eq_true', not_or, Bool.not_eq_false] at hmismatch
        exact ⟨not_not.mp htarget, by rw [hrevision, not_not.mp hrev], hdocument, not_not.mp horigin,
          writeTarget, hwrite, hmismatch.1, hmismatch.2⟩

end Whole

end Lasper.Config
