import Lasper.Nvidia.Discovery

/-! Where the files of a category end up. The document's paths are distinct, but
they are rewritten by their text: a root is taken off as a string, and a file from
elsewhere keeps only its name. -/

namespace Lasper.Nvidia

open Lib Config

section Mirror

def Distinct (binds : List PassthroughBind) : Prop := (binds.map (·.containerPath)).Nodup

theorem distinct_push {binds : List PassthroughBind} (h : Distinct binds) (bind : PassthroughBind) : Distinct (push binds bind) := by
  unfold push
  split_ifs with hconflict hmem
  · exact h
  · exact h
  · rw [Distinct, List.map_append]
    exact h.append (List.nodup_singleton _) (by simpa using hmem)

theorem distinct_pushAlias {binds : List PassthroughBind} (h : Distinct binds) (path : Text) :
    Distinct (pushAlias binds path) := by
  unfold pushAlias
  split_ifs with hmem
  · exact h
  · rw [Distinct, List.map_append]
    exact h.append (List.nodup_singleton _) (by simpa [mirrorBind] using hmem)

/-- What every step keeps, the whole fold keeps. -/
theorem foldl_keeps {α β : Type*} {P : α → Prop} {step : α → β → α} (hstep : ∀ a, P a → ∀ b, P (step a b))
    (list : List β) {start : α} (hstart : P start) : P (list.foldl step start) := by
  induction list generalizing start with
  | nil => exact hstart
  | cons b list ih => exact ih (hstep start hstart b)

/-- Before a profile applies, no two binds share a container path. -/
theorem distinct_addAliases (spec : CdiSpec) (host : HostLibraries) :
    Distinct (addAliases host (cdiToRawBinds spec)) := by
  have hraw : Distinct (cdiToRawBinds spec) :=
    foldl_keeps (P := Distinct) (fun _ h bind => distinct_push h bind) _ List.nodup_nil
  unfold addAliases
  cases host.ldconfigCache with
  | none => exact hraw
  | some cache => exact foldl_keeps (P := Distinct) (fun _ h path => distinct_pushAlias h path) _ hraw

end Mirror

section Components

/-- The components of a path behind its start. -/
def names (path : Text) : List Component := (path.splitOn '/').filterMap componentOf

/-- Where a path starts: at the root, at the current directory or at its first name. -/
def lead (path : Text) : List Component :=
  if Path.isAbsolute path then [.rootDir]
  else if (path.splitOn '/').head? = some ['.'] then [.curDir]
  else []

theorem components_eq (path : Text) : Path.components path = lead path ++ names path := by
  simp only [Path.components, lead, names]
  split_ifs <;> rfl

theorem names_slash (first second : Text) : names (first ++ '/' :: second) = names first ++ names second := by
  rw [names, List.splitOn_append_cons_self, List.filterMap_append]
  rfl

theorem names_of_plain {name : Text} (h : '/' ∉ name) : names name = (componentOf name).toList := by
  rw [names, List.splitOn_eq_singleton h]
  cases hname : componentOf name with
  | none => rw [List.filterMap_cons_none hname]; rfl
  | some component => rw [List.filterMap_cons_some hname]; rfl

theorem names_nil : names [] = [] := rfl

theorem names_cons_slash (path : Text) : names ('/' :: path) = names path :=
  names_slash [] path

theorem lead_slash {first : Text} (h : first ≠ []) (second : Text) : lead (first ++ '/' :: second) = lead first := by
  have habsolute : Path.isAbsolute (first ++ '/' :: second) = Path.isAbsolute first := by
    rw [Path.isAbsolute, Path.isAbsolute, List.head?_append_of_ne_nil _ h]
  have hhead : ((first ++ '/' :: second).splitOn '/').head? = (first.splitOn '/').head? := by
    rw [List.splitOn_append_cons_self, List.head?_append_of_ne_nil _ (List.splitOn_ne_nil _ _)]
  rw [lead, lead, habsolute, hhead]

theorem components_slash {first : Text} (h : first ≠ []) (second : Text) :
    Path.components (first ++ '/' :: second) = Path.components first ++ names second := by
  rw [components_eq, components_eq, lead_slash h, names_slash, List.append_assoc]

theorem components_root (second : Text) : Path.components ('/' :: second) = .rootDir :: names second := by
  rw [components_eq, names_cons_slash]
  rfl

theorem names_slashes {path : Text} (h : ∀ c ∈ path, c = '/') : names path = [] := by
  induction path with
  | nil => rfl
  | cons c path ih =>
    rw [h c List.mem_cons_self, names_cons_slash]
    exact ih fun other hother => h other (List.mem_cons_of_mem _ hother)

/-- Trailing separators do not count. -/
theorem components_trimEndSlashes {destination : Text} (h : trimEndSlashes destination ≠ []) :
    Path.components destination = Path.components (trimEndSlashes destination) := by
  induction destination using List.reverseRecOn with
  | nil => exact absurd rfl h
  | append_singleton rest c ih =>
    by_cases hc : c = '/'
    · have htrim : trimEndSlashes (rest ++ [c]) = trimEndSlashes rest :=
        List.rdropWhile_concat_pos _ _ _ (decide_eq_true hc)
      rw [htrim] at h ⊢
      have hrest : rest ≠ [] := fun hnil => h (by rw [hnil]; rfl)
      rw [hc, components_slash hrest, names_nil, List.append_nil]
      exact ih h
    · have htrim : trimEndSlashes (rest ++ [c]) = rest ++ [c] :=
        List.rdropWhile_concat_neg _ _ _ (by simpa using hc)
      rw [htrim]

theorem components_of_trimEndSlashes_nil {destination : Text} (h : trimEndSlashes destination = []) :
    Path.components destination = if destination = [] then [] else [.rootDir] := by
  have hall : ∀ c ∈ destination, c = '/' := by
    have hslashes := List.rdropWhile_eq_nil_iff.mp h
    exact fun c hc => of_decide_eq_true (hslashes c hc)
  cases destination with
  | nil => rfl
  | cons c rest =>
    rw [hall c List.mem_cons_self, components_root,
      names_slashes fun other hother => hall other (List.mem_cons_of_mem _ hother), if_neg (List.cons_ne_nil _ _)]

/-- A text is cut at its last separator. -/
theorem split_last_slash {text : Text} (h : '/' ∈ text) : ∃ before last, text = before ++ '/' :: last ∧ '/' ∉ last := by
  obtain ⟨last, before, hsplit, hlast⟩ := List.eq_append_cons_of_mem (List.mem_reverse.mpr h)
  refine ⟨before.reverse, last.reverse, ?_, by rwa [List.mem_reverse]⟩
  rw [← List.reverse_reverse text, hsplit]
  simp

theorem lastSegment_slash (before : Text) {last : Text} (h : '/' ∉ last) :
    lastSegment (before ++ '/' :: last) = last := by
  rw [lastSegment, List.splitOn_append_cons_self, List.splitOn_eq_singleton h, List.getLastD_concat]

theorem lastSegment_of_plain {path : Text} (h : '/' ∉ path) : lastSegment path = path := by
  rw [lastSegment, List.splitOn_eq_singleton h]
  rfl

/-- The file name is read off the last component. -/
def nameOf : Option Component → Option Text
  | some (.normal name) => some name
  | _ => none

theorem fileName_eq (path : Text) : Path.fileName path = nameOf (Path.components path).getLast? := by
  unfold Path.fileName nameOf
  rfl

theorem fileName_of_names {path : Text} {first last : List Component} (h : Path.components path = first ++ last)
    (hlast : last ≠ []) : Path.fileName path = nameOf last.getLast? := by
  rw [fileName_eq, h, List.getLast?_append_of_ne_nil _ hlast]

end Components

section Moves

/-- What a moved path keeps: what stands behind its root, or else its name. -/
def keptTail (category : NvidiaFileCategory) (path : Text) : Text :=
  if category.defaultContainerRoot <+: path then path.drop category.defaultContainerRoot.length
  else '/' :: lastSegment path

/-- Where a path of the category goes. -/
def relocate (category : NvidiaFileCategory) (destination path : Text) : Text :=
  trimEndSlashes destination ++ keptTail category path

theorem keptTail_below (category : NvidiaFileCategory) (rest : Text) :
    keptTail category (category.defaultContainerRoot ++ rest) = rest := by
  rw [keptTail, if_pos (List.prefix_append _ _), List.drop_left]

theorem keptTail_outside {category : NvidiaFileCategory} {path : Text} (h : ¬ category.defaultContainerRoot <+: path) :
    keptTail category path = '/' :: lastSegment path :=
  if_neg h

/-- The category whose destination a bind goes to, and the destination. -/
def movedTo (profile : Option NvidiaPassthroughProfile) (bind : PassthroughBind) :
    Option (NvidiaFileCategory × Text) := do
  let profile ← profile
  let category ← classifyPath bind.containerPath
  let destination ← profile.categoryDestinations category
  if profile.mode = .categorized ∧ bind.readonly ∧ category.defaultContainerRoot ≠ [] then
    return (category, destination)
  else none

def place (profile : Option NvidiaPassthroughProfile) (bind : PassthroughBind) : Text :=
  match movedTo profile bind with
  | some (category, destination) => relocate category destination bind.containerPath
  | none => bind.containerPath

theorem remapBind_eq {profile : NvidiaPassthroughProfile} (hmode : profile.mode = .categorized)
    (bind : PassthroughBind) : remapBind profile bind = { bind with containerPath := place (some profile) bind } := by
  obtain ⟨hostPath, path, readonly⟩ := bind
  cases readonly with
  | false =>
    have hstay : movedTo (some profile) ⟨hostPath, path, false⟩ = none := by simp [movedTo]
    simp [remapBind, place, hstay]
  | true =>
    simp only [remapBind, place, movedTo, relocate, keptTail]
    cases hcategory : classifyPath path with
    | none => rfl
    | some category =>
      cases hdestination : profile.categoryDestinations category with
      | none => simp [hdestination]
      | some destination =>
        by_cases hroot : category.defaultContainerRoot = []
        · simp [hdestination, hroot]
        · simp only [hdestination, hmode, hroot, ne_eq, not_false_eq_true, true_and, not_true_eq_false, if_false,
            Option.bind_eq_bind, Option.bind_some, and_self, if_true, Option.pure_def]
          split_ifs <;> rfl

theorem binds_build (spec : CdiSpec) (driverVersion : Text) (profile : Option NvidiaPassthroughProfile)
    (host : HostLibraries) :
    (buildNvidiaState spec driverVersion profile host).binds =
      (classifiedBinds spec profile host).map fun bind => { bind with containerPath := place profile bind } := by
  change remapBinds profile (classifiedBinds spec profile host) = _
  cases profile with
  | none =>
    simp [remapBinds, place, movedTo]
  | some profile =>
    simp only [remapBinds]
    split_ifs with hmode
    · exact List.map_congr_left fun bind _ => remapBind_eq hmode bind
    · have hstay : ∀ bind, movedTo (some profile) bind = none := by
        intro bind
        simp [movedTo, hmode]
      simp [place, hstay]

end Moves

section Confinement

/-- Where a name stands: at the root, or in a directory. -/
def base (before : Text) : List Component := if before = [] then [.rootDir] else Path.components before

theorem components_last (before last : Text) : Path.components (before ++ '/' :: last) = base before ++ names last := by
  unfold base
  split_ifs with h
  · rw [h]
    exact components_root last
  · exact components_slash h last

theorem startsWith_slash (destination rest : Text) :
    Path.startsWith (trimEndSlashes destination ++ '/' :: rest) destination = true := by
  rw [Path.startsWith, List.isPrefixOf_iff_prefix]
  by_cases h : trimEndSlashes destination = []
  · rw [components_of_trimEndSlashes_nil h, h, List.nil_append, components_root]
    split_ifs
    · exact List.nil_prefix
    · exact List.prefix_append [Component.rootDir] _
  · rw [components_trimEndSlashes h, components_slash h]
    exact List.prefix_append _ _

theorem fileName_slash (before : Text) {rest : Text} (h : names rest ≠ []) :
    Path.fileName (before ++ '/' :: rest) = nameOf (names rest).getLast? :=
  fileName_of_names (components_last before rest) h

/-- With nothing behind it, a directory's name is the destination's. -/
theorem fileName_slash_nil {destination rest : Text} (h : names rest = []) :
    Path.fileName (trimEndSlashes destination ++ '/' :: rest) = Path.fileName destination := by
  rw [fileName_eq, fileName_eq, components_last, h, List.append_nil, base]
  by_cases hnil : trimEndSlashes destination = []
  · rw [if_pos hnil, components_of_trimEndSlashes_nil hnil]
    split_ifs <;> rfl
  · rw [if_neg hnil, components_trimEndSlashes hnil]

theorem fileName_lastSegment {path : Text} (h : componentOf (lastSegment path) ≠ none) :
    Path.fileName path = nameOf (componentOf (lastSegment path)) := by
  obtain ⟨component, hcomponent⟩ := Option.ne_none_iff_exists'.mp h
  by_cases hslash : '/' ∈ path
  · obtain ⟨before, last, rfl, hlast⟩ := split_last_slash hslash
    rw [lastSegment_slash before hlast] at hcomponent ⊢
    have hnames : names last = [component] := by rw [names_of_plain hlast, hcomponent]; rfl
    rw [fileName_slash before (by rw [hnames]; exact List.cons_ne_nil _ _), hnames, hcomponent]
    rfl
  · rw [lastSegment_of_plain hslash] at hcomponent ⊢
    have hnames : names path = [component] := by rw [names_of_plain hslash, hcomponent]; rfl
    rw [fileName_of_names (components_eq path) (by rw [hnames]; exact List.cons_ne_nil _ _), hnames, hcomponent]
    rfl

theorem lastSegment_plain (path : Text) : '/' ∉ lastSegment path := by
  by_cases hslash : '/' ∈ path
  · obtain ⟨before, last, rfl, hlast⟩ := split_last_slash hslash
    rwa [lastSegment_slash before hlast]
  · rwa [lastSegment_of_plain hslash]

/-- A file that is moved by its name keeps the name, if it is one. -/
theorem confined_byName (destination path : Text) :
    Path.fileName (trimEndSlashes destination ++ '/' :: lastSegment path) = Path.fileName path ↔
      componentOf (lastSegment path) ≠ none ∨ Path.fileName destination = Path.fileName path := by
  have hnames := names_of_plain (lastSegment_plain path)
  cases hcomponent : componentOf (lastSegment path) with
  | none =>
    rw [hcomponent] at hnames
    rw [fileName_slash_nil hnames]
    exact ⟨.inr, fun h => h.resolve_left fun h => h rfl⟩
  | some component =>
    rw [hcomponent] at hnames
    have hkept : Path.fileName (trimEndSlashes destination ++ '/' :: lastSegment path) = Path.fileName path := by
      rw [fileName_slash _ (by rw [hnames]; exact List.cons_ne_nil _ _), hnames,
        fileName_lastSegment (by rw [hcomponent]; exact Option.some_ne_none _), hcomponent]
      rfl
    exact ⟨fun _ => .inl (Option.some_ne_none _), fun _ => hkept⟩

/-- A root is a directory of the root directory or below, with a name. -/
theorem root_shape {category : NvidiaFileCategory} (h : category.defaultContainerRoot ≠ []) :
    ∃ before last, category.defaultContainerRoot = before ++ '/' :: last ∧ '/' ∉ last ∧ 2 < last.length := by
  cases category with
  | lib64 => exact ⟨"/usr".toList, "lib".toList, by decide⟩
  | lib32 => exact ⟨"/usr".toList, "lib32".toList, by decide⟩
  | bin => exact ⟨"/usr".toList, "bin".toList, by decide⟩
  | firmware => exact ⟨"/lib/firmware".toList, "nvidia".toList, by decide⟩
  | config => exact absurd rfl h
  | xorg => exact ⟨"/usr/lib/xorg".toList, "modules".toList, by decide⟩
  | vdpau => exact ⟨"/usr/lib".toList, "vdpau".toList, by decide⟩
  | gbm => exact ⟨"/usr/lib".toList, "gbm".toList, by decide⟩
  | other => exact absurd rfl h

theorem componentOf_long {name : Text} (h : 2 < name.length) : componentOf name = some (.normal name) := by
  rw [componentOf, if_neg, if_neg]
  · rintro rfl
    exact absurd h (by decide)
  · rintro (rfl | rfl) <;> exact absurd h (by decide)

theorem fileName_long (before : Text) {last : Text} (hlast : '/' ∉ last) (hlong : 2 < last.length) :
    Path.fileName (before ++ '/' :: last) = some last := by
  have hnames : names last = [.normal last] := by rw [names_of_plain hlast, componentOf_long hlong]; rfl
  rw [fileName_slash before (by rw [hnames]; exact List.cons_ne_nil _ _), hnames]
  rfl

/-- A path below the root that names something goes below the destination under its own name. -/
theorem confined_relative (root destination rest : Text) :
    Path.fileName (trimEndSlashes destination ++ '/' :: rest) = Path.fileName (root ++ '/' :: rest) ↔
      names rest ≠ [] ∨ Path.fileName destination = Path.fileName (root ++ '/' :: rest) := by
  by_cases hnames : names rest = []
  · rw [fileName_slash_nil hnames]
    exact ⟨.inr, fun h => h.resolve_left fun h => h hnames⟩
  · rw [fileName_slash _ hnames, fileName_slash _ hnames]
    exact ⟨fun _ => .inl hnames, fun _ => rfl⟩

theorem fileName_trimEndSlashes (destination : Text) :
    Path.fileName (trimEndSlashes destination) = Path.fileName destination := by
  rw [fileName_eq, fileName_eq]
  by_cases h : trimEndSlashes destination = []
  · rw [components_of_trimEndSlashes_nil h, h]
    split_ifs <;> rfl
  · rw [components_trimEndSlashes h]

/-- A longer name is another component. -/
theorem componentOf_append {name more : Text} (hname : name ≠ []) (hmore : more ≠ []) :
    ∃ component, componentOf (name ++ more) = some component ∧ componentOf name ≠ some component ∧
      component ≠ .curDir := by
  have hlength : 2 ≤ (name ++ more).length := by
    rw [List.length_append]
    have := List.length_pos_iff.mpr hname
    have := List.length_pos_iff.mpr hmore
    omega
  have hshort : ¬ (name ++ more = [] ∨ name ++ more = ['.']) := by
    rintro (h | h) <;> rw [h] at hlength <;> exact absurd hlength (by decide)
  by_cases hparent : name ++ more = ['.', '.']
  · refine ⟨.parentDir, by rw [componentOf, if_neg hshort, if_pos hparent], ?_, nofun⟩
    intro h
    have hname : name = ['.', '.'] := by
      unfold componentOf at h
      split_ifs at h with _ hdots
      · exact hdots
      · cases h
    rw [hname] at hparent
    exact hmore (List.append_cancel_left (hparent.trans (List.append_nil _).symm))
  · refine ⟨.normal (name ++ more), by rw [componentOf, if_neg hshort, if_neg hparent], ?_, nofun⟩
    intro h
    unfold componentOf at h
    split_ifs at h
    · cases h
    · have hsame : name = name ++ more := Component.normal.inj (Option.some.inj h)
      exact hmore (List.append_cancel_left ((List.append_nil _).trans hsame).symm)

theorem rootDir_not_mem_names (path : Text) : Component.rootDir ∉ names path := by
  intro h
  obtain ⟨name, -, hname⟩ := List.mem_filterMap.mp h
  unfold componentOf at hname
  split_ifs at hname <;> cases hname

theorem components_plain {name : Text} (hplain : '/' ∉ name) {component : Component}
    (h : componentOf name = some component) : Path.components name = [component] := by
  have habsolute : ¬ Path.isAbsolute name = true := by
    cases name with
    | nil => exact Bool.false_ne_true
    | cons c name =>
      intro hslash
      have hc : c = '/' := Option.some.inj (of_decide_eq_true hslash)
      exact hplain (hc ▸ List.mem_cons_self)
  have hlead : lead name = [] := by
    rw [lead, if_neg habsolute, List.splitOn_eq_singleton hplain, if_neg]
    intro hdot
    have hname : name = ['.'] := Option.some.inj hdot
    rw [hname] at h
    cases h
  rw [components_eq, hlead, names_of_plain hplain, h]
  rfl

theorem components_tail {first tail : Text} (hfirst : first ≠ []) (htail : tail = [] ∨ tail.head? = some '/') :
    Path.components (first ++ tail) = Path.components first ++ names tail := by
  cases tail with
  | nil => rw [List.append_nil, names_nil, List.append_nil]
  | cons c tail =>
    have hc : c = '/' := by simpa using htail
    rw [hc, components_slash hfirst, names_cons_slash]

theorem suffix_dot (before : Text) {last : Text} (hlast : '/' ∉ last) :
    "/.".toList <:+ before ++ '/' :: last ↔ last = ['.'] := by
  constructor
  · rintro ⟨front, hfront⟩
    have hdot : lastSegment (front ++ '/' :: ['.']) = ['.'] := lastSegment_slash front (by decide)
    have hsame : front ++ '/' :: ['.'] = before ++ '/' :: last := hfront
    rw [hsame, lastSegment_slash before hlast] at hdot
    exact hdot
  · rintro rfl
    exact List.suffix_append before _

theorem not_slash_of_trimEndSlashes {destination before : Text} (h : trimEndSlashes destination = before ++ ['/']) :
    False := by
  have hne : trimEndSlashes destination ≠ [] := by
    rw [h]
    exact List.append_ne_nil_of_right_ne_nil _ (List.cons_ne_nil _ _)
  have hlast := List.rdropWhile_last_not (· = '/') destination hne
  refine hlast (decide_eq_true ?_)
  have hget : (trimEndSlashes destination).getLast hne = '/' := by
    simp only [h, List.getLast_append_singleton]
  exact hget

theorem componentOf_eq_none {name : Text} (hname : name ≠ []) (h : componentOf name = none) : name = ['.'] := by
  unfold componentOf at h
  split_ifs at h with hshort
  exact hshort.resolve_left hname

/-- Nothing of a destination of slashes is left to glue to. -/
theorem glued_to_slashes {destination more tail : Text} (hnil : trimEndSlashes destination = []) (hmore : more ≠ [])
    (hplain : '/' ∉ more) (htail : tail = [] ∨ tail.head? = some '/') :
    Path.components destination <+: Path.components (more ++ tail) ↔ destination = [] := by
  rw [components_of_trimEndSlashes_nil hnil]
  split_ifs with hempty
  · exact ⟨fun _ => hempty, fun _ => List.nil_prefix⟩
  · refine ⟨?_, fun h => absurd h hempty⟩
    rintro ⟨others, hothers⟩
    exfalso
    have hmem : Component.rootDir ∈ Path.components (more ++ tail) := hothers ▸ List.mem_cons_self
    rw [components_tail hmore htail, components_eq, lead, if_neg, List.append_assoc, List.mem_append,
      List.mem_append] at hmem
    · rcases hmem with hmem | hmem | hmem
      · split_ifs at hmem <;> simp at hmem
      · exact absurd hmem (rootDir_not_mem_names _)
      · exact absurd hmem (rootDir_not_mem_names _)
    · intro habsolute
      obtain ⟨rest, hrest⟩ := List.head?_eq_some_iff.mp (of_decide_eq_true habsolute)
      exact hplain (hrest ▸ List.mem_cons_self)

/-- The name behind the last slash becomes another one, if it is a name. -/
theorem glued_behind_slash (before : Text) {last more tail : Text} (hlast : '/' ∉ last) (hname : last ≠ [])
    (hmore : more ≠ []) (hplain : '/' ∉ more) :
    Path.components (before ++ '/' :: last) <+: Path.components (before ++ '/' :: last ++ more) ++ names tail ↔
      last = ['.'] := by
  have hplainName : '/' ∉ last ++ more := by rw [List.mem_append]; exact not_or.mpr ⟨hlast, hplain⟩
  obtain ⟨component, hcomponent, hother, -⟩ := componentOf_append hname hmore
  rw [List.append_assoc, List.cons_append, components_last, components_last, names_of_plain hlast,
    names_of_plain hplainName, hcomponent, List.append_assoc, List.prefix_append_right_inj]
  cases hlastName : componentOf last with
  | none => exact ⟨fun _ => componentOf_eq_none hname hlastName, fun _ => List.nil_prefix⟩
  | some name =>
    constructor
    · rintro ⟨others, hothers⟩
      have hsame : name = component := (List.cons.inj hothers).1
      exact absurd (hsame ▸ hlastName) hother
    · rintro rfl
      cases hlastName

/-- A destination of one name becomes another name. -/
theorem glued_to_name {destination more tail : Text} (hslash : '/' ∉ destination) (hnonempty : destination ≠ [])
    (hmore : more ≠ []) (hplain : '/' ∉ more) :
    ¬ Path.components destination <+: Path.components (destination ++ more) ++ names tail := by
  have hplainName : '/' ∉ destination ++ more := by
    rw [List.mem_append]
    exact not_or.mpr ⟨hslash, hplain⟩
  obtain ⟨component, hcomponent, hother, hcur⟩ := componentOf_append hnonempty hmore
  rw [components_plain hplainName hcomponent]
  rintro ⟨others, hothers⟩
  cases hname : componentOf destination with
  | none =>
    rw [componentOf_eq_none hnonempty hname] at hothers
    exact hcur (List.cons.inj hothers).1.symm
  | some name =>
    rw [components_plain hslash hname] at hothers
    have hsame : name = component := (List.cons.inj hothers).1
    exact absurd (hsame ▸ hname) hother

/-- Text glued to the destination leaves it, unless the destination has no name at its end. -/
theorem startsWith_glued (destination : Text) {more tail : Text} (hmore : more ≠ []) (hplain : '/' ∉ more)
    (htail : tail = [] ∨ tail.head? = some '/') :
    Path.startsWith (trimEndSlashes destination ++ (more ++ tail)) destination = true ↔
      destination = [] ∨ "/.".toList <:+ trimEndSlashes destination := by
  rw [Path.startsWith, List.isPrefixOf_iff_prefix]
  by_cases hnil : trimEndSlashes destination = []
  · have hnodot : ¬ "/.".toList <:+ trimEndSlashes destination := by
      rw [hnil, List.suffix_nil]
      decide
    rw [or_iff_left hnodot, hnil, List.nil_append]
    exact glued_to_slashes hnil hmore hplain htail
  · have hdestination : destination ≠ [] := fun h => hnil (by rw [h]; rfl)
    rw [components_trimEndSlashes hnil, ← List.append_assoc,
      components_tail (List.append_ne_nil_of_left_ne_nil hnil _) htail, or_iff_right hdestination]
    by_cases hslash : '/' ∈ trimEndSlashes destination
    · obtain ⟨before, last, hsplit, hlast⟩ := split_last_slash hslash
      have hname : last ≠ [] := fun h => not_slash_of_trimEndSlashes (by rw [hsplit, h])
      rw [hsplit, suffix_dot before hlast]
      exact glued_behind_slash before hlast hname hmore hplain
    · refine iff_of_false (glued_to_name hslash hnil hmore hplain) ?_
      rintro ⟨front, hfront⟩
      exact hslash (hfront ▸ List.mem_append_right _ List.mem_cons_self)

theorem lastSegment_append (first : Text) {more : Text} (hplain : '/' ∉ more) :
    lastSegment (first ++ more) = lastSegment first ++ more := by
  by_cases hslash : '/' ∈ first
  · obtain ⟨before, last, rfl, hlast⟩ := split_last_slash hslash
    rw [List.append_assoc, List.cons_append, lastSegment_slash before hlast, lastSegment_slash before]
    exact fun h => (List.mem_append.mp h).elim hlast hplain
  · rw [lastSegment_of_plain hslash, lastSegment_of_plain]
    exact fun h => (List.mem_append.mp h).elim hslash hplain

/-- Text glued to the destination makes a name out of the last one. -/
theorem fileName_append {first name more : Text} (hfirst : ∀ before, first ≠ before ++ ['/']) (hlong : 2 < name.length)
    (hmore : more ≠ []) (hplain : '/' ∉ more) :
    Path.fileName (first ++ more) = some (name ++ more) ↔ lastSegment first = name := by
  have hlast := lastSegment_append first hplain
  cases hcomponent : componentOf (lastSegment (first ++ more)) with
  | some component =>
    rw [fileName_lastSegment (by rw [hcomponent]; exact Option.some_ne_none _), hlast]
    constructor
    · intro h
      rw [hlast] at hcomponent
      unfold componentOf at hcomponent h
      split_ifs at hcomponent h with hshort hparent
      · cases h
      · exact List.append_cancel_right (Option.some.inj h)
    · rintro rfl
      rw [componentOf_long (by rw [List.length_append]; omega)]
      rfl
  | none =>
    -- nothing but a dot is left of such a path
    have hshort : lastSegment first ++ more = [] ∨ lastSegment first ++ more = ['.'] := by
      rw [hlast] at hcomponent
      unfold componentOf at hcomponent
      split_ifs at hcomponent with hshort
      exact hshort
    have hlength : (lastSegment first ++ more).length ≤ 1 := by
      rcases hshort with h | h <;> rw [h] <;> decide
    have hempty : lastSegment first = [] := by
      rw [List.length_append] at hlength
      have := List.length_pos_iff.mpr hmore
      exact List.length_eq_zero_iff.mp (by omega)
    have hnil : first = [] := by
      by_cases hslash : '/' ∈ first
      · obtain ⟨before, last, rfl, hseparated⟩ := split_last_slash hslash
        rw [lastSegment_slash before hseparated] at hempty
        exact absurd (by rw [hempty]) (hfirst before)
      · rwa [lastSegment_of_plain hslash] at hempty
    have hdot : more = ['.'] := by
      rw [hempty, List.nil_append] at hshort
      exact hshort.resolve_left hmore
    rw [hempty, hnil, hdot]
    refine iff_of_false nofun ?_
    rintro rfl
    exact absurd hlong (by decide)

/-- What is glued to the root keeps its name behind the next separator, or where
it is glued to the same name. -/
theorem fileName_glued {category : NvidiaFileCategory} (hroot : category.defaultContainerRoot ≠ [])
    (destination : Text) {more tail : Text} (hmore : more ≠ []) (hplain : '/' ∉ more)
    (htail : tail = [] ∨ tail.head? = some '/') :
    Path.fileName (trimEndSlashes destination ++ (more ++ tail)) =
      Path.fileName (category.defaultContainerRoot ++ (more ++ tail)) ↔
    names tail ≠ [] ∨ lastSegment (trimEndSlashes destination) = lastSegment category.defaultContainerRoot := by
  have hcomponents : ∀ first, Path.components (first ++ (more ++ tail)) =
      Path.components (first ++ more) ++ names tail := by
    intro first
    rw [← List.append_assoc, components_tail (List.append_ne_nil_of_right_ne_nil _ hmore) htail]
  by_cases hnames : names tail = []
  · obtain ⟨before, last, hshape, hlast, hlong⟩ := root_shape hroot
    have hkept : Path.fileName (category.defaultContainerRoot ++ more) = some (last ++ more) := by
      rw [hshape, List.append_assoc, List.cons_append]
      exact fileName_long before (fun h => (List.mem_append.mp h).elim hlast hplain) (by rw [List.length_append]; omega)
    rw [fileName_eq, hcomponents, fileName_eq, hcomponents, hnames, List.append_nil, List.append_nil, ← fileName_eq,
      ← fileName_eq, hkept, fileName_append (fun before h => not_slash_of_trimEndSlashes h) hlong hmore hplain, hshape,
      lastSegment_slash before hlast]
    exact ⟨.inr, fun h => h.resolve_left fun h => h rfl⟩
  · rw [fileName_of_names (hcomponents _) hnames, fileName_of_names (hcomponents _) hnames]
    exact ⟨fun _ => .inl hnames, fun _ => rfl⟩

/-- The path goes on with the text of its root's last name. -/
def Glued (category : NvidiaFileCategory) (path : Text) : Prop :=
  let rest := path.drop category.defaultContainerRoot.length
  category.defaultContainerRoot <+: path ∧ rest ≠ [] ∧ rest.head? ≠ some '/'

instance (category : NvidiaFileCategory) (path : Text) : Decidable (Glued category path) :=
  inferInstanceAs (Decidable (_ ∧ _ ∧ _))

/-- The names behind the first separator of a tail. -/
def behind (tail : Text) : List Component := names (tail.dropWhile (· ≠ '/'))

/-- A moved path keeps its name: it names something behind the first separator of
what it keeps, or else the destination ends in the name already. -/
def KeepsName (category : NvidiaFileCategory) (destination path : Text) : Prop :=
  behind (keptTail category path) ≠ [] ∨
    if Glued category path then lastSegment (trimEndSlashes destination) = lastSegment category.defaultContainerRoot
    else Path.fileName destination = Path.fileName path

/-- A moved path keeps its name and, if it was glued to its root, the destination
has no name to glue to. -/
structure Fits (category : NvidiaFileCategory) (destination path : Text) : Prop where
  name : KeepsName category destination path
  apart : Glued category path → destination = [] ∨ "/.".toList <:+ trimEndSlashes destination

theorem dropWhile_slash (tail : Text) :
    tail.dropWhile (· ≠ '/') = [] ∨ (tail.dropWhile (· ≠ '/')).head? = some '/' := by
  cases htail : tail.dropWhile (· ≠ '/') with
  | nil => exact .inl rfl
  | cons c rest =>
    have hhead := List.head?_dropWhile_not (· ≠ '/') tail
    rw [htail] at hhead
    exact .inr (congrArg some (by simpa using hhead))

theorem takeWhile_plain (tail : Text) : '/' ∉ tail.takeWhile (· ≠ '/') :=
  fun h => absurd (List.mem_takeWhile_imp h) (by decide)

/-- A path that is not glued to its root is the root or goes on with a separator. -/
theorem keptTail_of_apart {category : NvidiaFileCategory} {path : Text} (h : ¬ Glued category path) :
    keptTail category path = [] ∨ (keptTail category path).head? = some '/' := by
  by_cases hbegin : category.defaultContainerRoot <+: path
  · rw [keptTail, if_pos hbegin]
    by_contra hrest
    exact h ⟨hbegin, not_or.mp hrest⟩
  · rw [keptTail_outside hbegin]
    exact .inr rfl

theorem fileName_relocate_iff {category : NvidiaFileCategory} (hroot : category.defaultContainerRoot ≠ [])
    (destination path : Text) :
    Path.fileName (relocate category destination path) = Path.fileName path ↔ KeepsName category destination path := by
  unfold KeepsName relocate
  by_cases hglued : Glued category path
  · obtain ⟨⟨rest, rfl⟩, hrest, hhead⟩ := id hglued
    rw [List.drop_left] at hrest hhead
    rw [if_pos hglued, keptTail_below, behind]
    nth_rewrite 1 2 [← List.takeWhile_append_dropWhile (p := (· ≠ '/')) (l := rest)]
    refine fileName_glued hroot destination ?_ (takeWhile_plain rest) (dropWhile_slash rest)
    cases rest with
    | nil => exact absurd rfl hrest
    | cons c rest => simpa using hhead
  · rw [if_neg hglued]
    by_cases hbegin : category.defaultContainerRoot <+: path
    · have hkept := keptTail_of_apart hglued
      obtain ⟨rest, rfl⟩ := hbegin
      rw [keptTail_below] at hkept ⊢
      cases rest with
      | nil =>
        rw [List.append_nil, List.append_nil, fileName_trimEndSlashes]
        exact ⟨.inr, fun h => h.resolve_left fun h => h rfl⟩
      | cons c rest =>
        have hc : c = '/' := by simpa using hkept
        subst hc
        exact confined_relative _ destination rest
    · rw [keptTail_outside hbegin, confined_byName, behind, List.dropWhile_cons_of_neg (by decide), names_cons_slash,
        names_of_plain (lastSegment_plain path)]
      cases componentOf (lastSegment path) <;> simp

/-- A path that keeps its name lies under the destination, unless it is glued to a name there. -/
theorem startsWith_relocate_iff {category : NvidiaFileCategory} (hroot : category.defaultContainerRoot ≠ [])
    {destination path : Text} (hname : KeepsName category destination path) :
    Path.startsWith (relocate category destination path) destination = true ↔
      (Glued category path → destination = [] ∨ "/.".toList <:+ trimEndSlashes destination) := by
  have hkept := (fileName_relocate_iff hroot destination path).mpr hname
  unfold relocate at hkept ⊢
  by_cases hglued : Glued category path
  · obtain ⟨⟨rest, rfl⟩, hrest, hhead⟩ := id hglued
    rw [List.drop_left] at hrest hhead
    rw [keptTail_below, ← List.takeWhile_append_dropWhile (p := (· ≠ '/')) (l := rest), startsWith_glued destination ?_
      (takeWhile_plain rest) (dropWhile_slash rest), List.takeWhile_append_dropWhile]
    · exact ⟨fun h _ => h, fun h => h hglued⟩
    · cases rest with
      | nil => exact absurd rfl hrest
      | cons c rest => simpa using hhead
  · refine iff_of_true ?_ fun h => absurd h hglued
    cases htail : keptTail category path with
    | nil =>
      -- only the root itself keeps nothing, and it has a name
      have hbegin : category.defaultContainerRoot <+: path := by
        by_contra hbegin
        rw [keptTail_outside hbegin] at htail
        cases htail
      obtain ⟨rest, rfl⟩ := hbegin
      rw [keptTail_below] at htail
      rw [keptTail_below, htail, List.append_nil, List.append_nil] at hkept
      obtain ⟨before, last, hshape, hlast, hlong⟩ := root_shape hroot
      have hne : trimEndSlashes destination ≠ [] := by
        intro hnil
        rw [hnil, hshape, fileName_long before hlast hlong] at hkept
        cases hkept
      rw [List.append_nil, Path.startsWith, List.isPrefixOf_iff_prefix, components_trimEndSlashes hne]
    | cons c rest =>
      have hc : c = '/' := by simpa [htail] using keptTail_of_apart hglued
      rw [hc]
      exact startsWith_slash _ _

theorem fits_iff {category : NvidiaFileCategory} (hroot : category.defaultContainerRoot ≠ []) (destination path : Text) :
    (Path.startsWith (relocate category destination path) destination = true ∧
      Path.fileName (relocate category destination path) = Path.fileName path) ↔ Fits category destination path := by
  rw [fileName_relocate_iff hroot]
  constructor
  · rintro ⟨hunder, hname⟩
    exact ⟨hname, (startsWith_relocate_iff hroot hname).mp hunder⟩
  · rintro ⟨hname, hapart⟩
    exact ⟨(startsWith_relocate_iff hroot hname).mpr hapart, hname⟩

/-- Where a tail is put: at the destination, whose last name it may lengthen. -/
def stand (destination tail : Text) : List Component :=
  let front := trimEndSlashes destination ++ tail.takeWhile (· ≠ '/')
  if front = [] ∧ tail ≠ [] then [.rootDir] else Path.components front

/-- A directory is at or above the place of a tail, or goes on from there along
the names of the tail. -/
def Leads (directory destination tail : Text) : Prop :=
  Path.components directory <+: stand destination tail ∨
    ∃ more, Path.components directory = stand destination tail ++ more ∧ more <+: behind tail

theorem components_put (destination tail : Text) :
    Path.components (trimEndSlashes destination ++ tail) = stand destination tail ++ behind tail := by
  have hsplit : tail.takeWhile (· ≠ '/') ++ tail.dropWhile (· ≠ '/') = tail := List.takeWhile_append_dropWhile
  unfold stand behind
  by_cases hfront : trimEndSlashes destination ++ tail.takeWhile (· ≠ '/') = []
  · obtain ⟨hdestination, hmore⟩ := List.append_eq_nil_iff.mp hfront
    rw [hmore, List.nil_append] at hsplit
    rw [hsplit, hdestination, hmore]
    cases tail with
    | nil => rfl
    | cons c tail =>
      have hslash := dropWhile_slash (c :: tail)
      rw [hsplit] at hslash
      have hc : c = '/' := by simpa using hslash
      rw [hc, if_pos ⟨rfl, List.cons_ne_nil _ _⟩, List.nil_append, components_root, names_cons_slash]
      rfl
  · rw [if_neg fun h => hfront h.1]
    nth_rewrite 1 [← hsplit]
    rw [← List.append_assoc, components_tail hfront (dropWhile_slash tail)]

theorem startsWith_put_iff (directory destination tail : Text) :
    Path.startsWith (trimEndSlashes destination ++ tail) directory = true ↔ Leads directory destination tail := by
  rw [Path.startsWith, List.isPrefixOf_iff_prefix, components_put]
  constructor
  · intro h
    rcases List.prefix_or_prefix_of_prefix h (List.prefix_append _ (behind tail)) with habove | ⟨more, hmore⟩
    · exact .inl habove
    · rw [← hmore, List.prefix_append_right_inj] at h
      exact .inr ⟨more, hmore.symm, h⟩
  · rintro (habove | ⟨more, hmore, hbehind⟩)
    · exact habove.trans (List.prefix_append _ _)
    · rw [hmore, List.prefix_append_right_inj]
      exact hbehind

end Confinement

section Collisions

variable {profile : Option NvidiaPassthroughProfile}

def classified (profile : Option NvidiaPassthroughProfile) (bind : PassthroughBind) : PassthroughBind :=
  match profile with
  | some profile => applyManualClassification profile bind
  | none => bind

theorem classifiedBinds_eq (spec : CdiSpec) (host : HostLibraries) :
    classifiedBinds spec profile host = (addAliases host (cdiToRawBinds spec)).map (classified profile) := by
  unfold classifiedBinds classified
  cases profile with
  | some profile => rfl
  | none => exact (List.map_id _).symm

/-- How two files of the document come to one place. -/
inductive Collide (profile : Option NvidiaPassthroughProfile) (first second : PassthroughBind) : Prop
  /-- One of them was sent to the other's path by hand. -/
  | byHand
      (hand : (classified profile first).containerPath ≠ first.containerPath ∨
        (classified profile second).containerPath ≠ second.containerPath)
      (moved : movedTo profile (classified profile first) = movedTo profile (classified profile second))
      (same : (classified profile first).containerPath = (classified profile second).containerPath)
  /-- One stays in a destination, and reads on from there as the other, which is
  moved there, from its root. -/
  | ontoKept {category : NvidiaFileCategory} {destination : Text}
      (hfirst : movedTo profile (classified profile first) = some (category, destination))
      (hsecond : movedTo profile (classified profile second) = none)
      (inside : trimEndSlashes destination <+: (classified profile second).containerPath)
      (same : (classified profile second).containerPath.drop (trimEndSlashes destination).length =
        keptTail category (classified profile first).containerPath)
  /-- Both come from outside the root of their category, under one name. -/
  | sameName {category : NvidiaFileCategory} {destination : Text}
      (hfirst : movedTo profile (classified profile first) = some (category, destination))
      (hsecond : movedTo profile (classified profile second) = some (category, destination))
      (outside : ¬ category.defaultContainerRoot <+: (classified profile first).containerPath)
      (outside' : ¬ category.defaultContainerRoot <+: (classified profile second).containerPath)
      (same : lastSegment (classified profile first).containerPath =
        lastSegment (classified profile second).containerPath)
  /-- One comes from outside the root, which holds a file of its name already. -/
  | rootHolds {category : NvidiaFileCategory} {destination : Text}
      (hfirst : movedTo profile (classified profile first) = some (category, destination))
      (hsecond : movedTo profile (classified profile second) = some (category, destination))
      (outside : ¬ category.defaultContainerRoot <+: (classified profile first).containerPath)
      (same : (classified profile second).containerPath =
        category.defaultContainerRoot ++ '/' :: lastSegment (classified profile first).containerPath)
  /-- The destination of one category goes on from that of another, and so does
  the path of the file that is moved to the other. -/
  | across {category category' : NvidiaFileCategory} {destination destination' between : Text}
      (differ : category ≠ category')
      (hfirst : movedTo profile (classified profile first) = some (category, destination))
      (hsecond : movedTo profile (classified profile second) = some (category', destination'))
      (nested : trimEndSlashes destination' = trimEndSlashes destination ++ between)
      (same : keptTail category (classified profile first).containerPath =
        between ++ keptTail category' (classified profile second).containerPath)

theorem place_of_moved {bind : PassthroughBind} {category : NvidiaFileCategory} {destination : Text}
    (h : movedTo profile bind = some (category, destination)) :
    place profile bind = relocate category destination bind.containerPath := by
  rw [place, h]

theorem place_of_kept {bind : PassthroughBind} (h : movedTo profile bind = none) :
    place profile bind = bind.containerPath := by
  rw [place, h]

theorem movedTo_eq_some {bind : PassthroughBind} {category : NvidiaFileCategory} {destination : Text} :
    movedTo profile bind = some (category, destination) ↔
      ∃ config, profile = some config ∧ config.mode = .categorized ∧ bind.readonly = true ∧
        classifyPath bind.containerPath = some category ∧ config.categoryDestinations category = some destination ∧
        category.defaultContainerRoot ≠ [] := by
  constructor
  · intro h
    unfold movedTo at h
    obtain ⟨config, hconfig, h⟩ := Option.bind_eq_some_iff.mp h
    obtain ⟨found, hfound, h⟩ := Option.bind_eq_some_iff.mp h
    obtain ⟨target, htarget, h⟩ := Option.bind_eq_some_iff.mp h
    split_ifs at h with hmoves
    cases h
    exact ⟨config, hconfig, hmoves.1, hmoves.2.1, hfound, htarget, hmoves.2.2⟩
  · rintro ⟨config, rfl, hmode, hro, hcategory, hdestination, hroot⟩
    simp [movedTo, hcategory, hdestination, hmode, hro, hroot]

theorem Collide.place_eq {first second : PassthroughBind} (h : Collide profile first second) :
    place profile (classified profile first) = place profile (classified profile second) := by
  cases h with
  | byHand hand moved same => rw [place, place, moved, same]
  | ontoKept hfirst hsecond inside same =>
    obtain ⟨rest, hrest⟩ := inside
    rw [← hrest, List.drop_left] at same
    rw [place_of_moved hfirst, place_of_kept hsecond, relocate, ← same, hrest]
  | sameName hfirst hsecond outside outside' same =>
    rw [place_of_moved hfirst, place_of_moved hsecond, relocate, relocate, keptTail_outside outside,
      keptTail_outside outside', same]
  | rootHolds hfirst hsecond outside same =>
    rw [place_of_moved hfirst, place_of_moved hsecond, relocate, relocate, keptTail_outside outside, same,
      keptTail_below]
  | across differ hfirst hsecond nested same =>
    rw [place_of_moved hfirst, place_of_moved hsecond, relocate, relocate, nested, same, List.append_assoc]

/-- One of two moved files is moved into the other's destination, or beyond it. -/
theorem relocate_eq {category category' : NvidiaFileCategory} {destination destination' path path' : Text}
    (h : relocate category destination path = relocate category' destination' path') :
    (∃ between, trimEndSlashes destination' = trimEndSlashes destination ++ between ∧
        keptTail category path = between ++ keptTail category' path') ∨
      ∃ between, trimEndSlashes destination = trimEndSlashes destination' ++ between ∧
        keptTail category' path' = between ++ keptTail category path :=
  List.append_eq_append_iff.mp h

/-- Within a category, a path below the root only meets a file from outside. -/
theorem collide_of_relocate {first second : PassthroughBind} (hne : first.containerPath ≠ second.containerPath)
    {category : NvidiaFileCategory} {destination : Text}
    (hfirst : movedTo profile (classified profile first) = some (category, destination))
    (hsecond : movedTo profile (classified profile second) = some (category, destination))
    (h : relocate category destination (classified profile first).containerPath =
      relocate category destination (classified profile second).containerPath) :
    Collide profile first second ∨ Collide profile second first := by
  have htail := List.append_cancel_left h
  unfold keptTail at htail
  split_ifs at htail with hin hin' hin'
  · obtain ⟨rest, hrest⟩ := hin
    obtain ⟨rest', hrest'⟩ := hin'
    rw [← hrest, ← hrest', List.drop_left, List.drop_left] at htail
    have hsame : (classified profile first).containerPath = (classified profile second).containerPath := by
      rw [← hrest, ← hrest', htail]
    refine .inl (.byHand ?_ (hfirst.trans hsecond.symm) hsame)
    by_contra hhand
    rw [not_or, not_not, not_not] at hhand
    exact hne (hhand.1.symm.trans (hsame.trans hhand.2))
  · obtain ⟨rest, hrest⟩ := hin
    rw [← hrest, List.drop_left] at htail
    exact .inr (.rootHolds hsecond hfirst hin' (by rw [← hrest, htail]))
  · obtain ⟨rest, hrest⟩ := hin'
    rw [← hrest, List.drop_left] at htail
    exact .inl (.rootHolds hfirst hsecond hin (by rw [← hrest, ← htail]))
  · exact .inl (.sameName hfirst hsecond hin hin' (List.cons.inj htail).2)

theorem collide_kept {first second : PassthroughBind} {category : NvidiaFileCategory} {destination : Text}
    (hfirst : movedTo profile (classified profile first) = some (category, destination))
    (hsecond : movedTo profile (classified profile second) = none)
    (h : relocate category destination (classified profile first).containerPath =
      (classified profile second).containerPath) : Collide profile first second := by
  unfold relocate at h
  exact .ontoKept hfirst hsecond (h ▸ List.prefix_append _ _) (by rw [← h, List.drop_left])

theorem place_eq_iff {first second : PassthroughBind} (hne : first.containerPath ≠ second.containerPath) :
    place profile (classified profile first) = place profile (classified profile second) ↔
      Collide profile first second ∨ Collide profile second first := by
  refine ⟨fun h => ?_, fun h => h.elim Collide.place_eq fun h => h.place_eq.symm⟩
  cases hfirst : movedTo profile (classified profile first) with
  | none =>
    rw [place_of_kept hfirst] at h
    cases hsecond : movedTo profile (classified profile second) with
    | none =>
      rw [place_of_kept hsecond] at h
      refine .inl (.byHand ?_ (hfirst.trans hsecond.symm) h)
      by_contra hhand
      rw [not_or, not_not, not_not] at hhand
      exact hne (hhand.1.symm.trans (h.trans hhand.2))
    | some move =>
      rw [place_of_moved hsecond] at h
      exact .inr (collide_kept hsecond hfirst h.symm)
  | some move =>
    rw [place_of_moved hfirst] at h
    cases hsecond : movedTo profile (classified profile second) with
    | none =>
      rw [place_of_kept hsecond] at h
      exact .inl (collide_kept hfirst hsecond h)
    | some move' =>
      rw [place_of_moved hsecond] at h
      by_cases hcategory : move.1 = move'.1
      · obtain ⟨config, hconfig, -, -, -, hdestination, -⟩ := movedTo_eq_some.mp hfirst
        obtain ⟨config', hconfig', -, -, -, hdestination', -⟩ := movedTo_eq_some.mp hsecond
        have hsame : move = move' := by
          have hprofile : config = config' := Option.some.inj (hconfig.symm.trans hconfig')
          rw [hprofile, hcategory, hdestination'] at hdestination
          exact Prod.ext hcategory (Option.some.inj hdestination.symm)
        subst hsame
        exact collide_of_relocate hne hfirst hsecond h
      · obtain ⟨between, hnested, hsame⟩ | ⟨between, hnested, hsame⟩ := relocate_eq h
        · exact .inl (.across hcategory hfirst hsecond hnested hsame)
        · exact .inr (.across (Ne.symm hcategory) hsecond hfirst hnested hsame)

end Collisions

section Placement

/-- The category of a file: the one of its path, or the one it was filed under by hand. -/
def assigned (config : NvidiaPassthroughProfile) (mirror : PassthroughBind) : Option NvidiaFileCategory :=
  match classifyPath mirror.containerPath with
  | some category => some category
  | none => (config.manualClassifications.find? (·.hostPath = mirror.hostPath)).map (·.category)

/-- A read-only file of a category with a destination and a root goes below the
destination, under its own name or the one it was given by hand. -/
def Confined (config : NvidiaPassthroughProfile) (mirror after : PassthroughBind) : Prop :=
  after.readonly = true → ∀ category destination, assigned config mirror = some category →
    config.categoryDestinations category = some destination → category.defaultContainerRoot ≠ [] →
    Path.startsWith after.containerPath destination = true ∧
      Path.fileName after.containerPath = Path.fileName (applyManualClassification config mirror).containerPath

/-- What it takes of a read-only file with a destination: its path fits it; or it is
in there already and its path is of no category that is moved; or its path is of
another category, and the way to that one's destination leads through its own. -/
def Placed (config : NvidiaPassthroughProfile) (mirror : PassthroughBind) : Prop :=
  let filed := applyManualClassification config mirror
  filed.readonly = true → ∀ category destination, assigned config mirror = some category →
    config.categoryDestinations category = some destination → category.defaultContainerRoot ≠ [] →
    match movedTo (some config) filed with
    | none => Path.startsWith filed.containerPath destination = true
    | some (moved, movedDestination) =>
      if moved = category then Fits category destination filed.containerPath
      else Leads destination movedDestination (keptTail moved filed.containerPath) ∧
        KeepsName moved movedDestination filed.containerPath

theorem confined_iff (config : NvidiaPassthroughProfile) (mirror : PassthroughBind) :
    Confined config mirror { applyManualClassification config mirror with
      containerPath := place (some config) (applyManualClassification config mirror) } ↔ Placed config mirror := by
  unfold Confined Placed
  refine imp_congr_right fun hro => forall_congr' fun category => forall_congr' fun destination => ?_
  refine imp_congr_right fun _ => imp_congr_right fun hdestination => imp_congr_right fun hroot => ?_
  cases hmoved : movedTo (some config) (applyManualClassification config mirror) with
  | none =>
    rw [show (_ : PassthroughBind).containerPath = _ from place_of_kept hmoved]
    exact and_iff_left rfl
  | some move =>
    obtain ⟨moved, movedDestination⟩ := move
    obtain ⟨_, ⟨⟩, -, -, -, hdestination', hroot'⟩ := movedTo_eq_some.mp hmoved
    dsimp only
    rw [place_of_moved hmoved]
    split_ifs with hsame
    · subst hsame
      cases hdestination.symm.trans hdestination'
      exact fits_iff hroot destination _
    · exact and_congr (startsWith_put_iff destination movedDestination _) (fileName_relocate_iff hroot' _ _)

variable (spec : CdiSpec) (driverVersion : Text) (profile : Option NvidiaPassthroughProfile) (host : HostLibraries)

theorem distinct_build_iff :
    Distinct (buildNvidiaState spec driverVersion profile host).binds ↔
      (addAliases host (cdiToRawBinds spec)).Pairwise fun first second =>
        ¬ Collide profile first second ∧ ¬ Collide profile second first := by
  have hmirror : (addAliases host (cdiToRawBinds spec)).Pairwise fun first second =>
      first.containerPath ≠ second.containerPath := List.pairwise_map.mp (distinct_addAliases spec host)
  rw [Distinct, binds_build, classifiedBinds_eq, List.map_map, List.map_map, List.Nodup, List.pairwise_map]
  constructor
  · intro h
    refine (h.and hmirror).imp ?_
    rintro first second ⟨hplaces, hne⟩
    exact not_or.mp fun hcollide => hplaces ((place_eq_iff hne).mpr hcollide)
  · intro h
    refine (h.and hmirror).imp ?_
    rintro first second ⟨hcollide, hne⟩ hplaces
    exact not_or.mpr hcollide ((place_eq_iff hne).mp hplaces)

theorem confined_build_iff :
    (∀ config, profile = some config → config.mode = .categorized →
      List.Forall₂ (Confined config) (addAliases host (cdiToRawBinds spec))
        (buildNvidiaState spec driverVersion profile host).binds) ↔
    ∀ config, profile = some config → config.mode = .categorized →
      ∀ mirror ∈ addAliases host (cdiToRawBinds spec), Placed config mirror := by
  refine forall_congr' fun config => imp_congr_right fun hprofile => imp_congr_right fun _ => ?_
  subst hprofile
  rw [binds_build, classifiedBinds_eq, List.map_map, List.forall₂_map_right_iff, List.forall₂_same]
  exact forall_congr' fun mirror => imp_congr_right fun _ => confined_iff config mirror

/-- The binds of a state have distinct container paths, each in the destination
of its category, exactly if no two files of the document collide and every file
is placed by its path or by hand. -/
theorem binds_placed_iff :
    (Distinct (buildNvidiaState spec driverVersion profile host).binds ∧
      ∀ config, profile = some config → config.mode = .categorized →
        List.Forall₂ (Confined config) (addAliases host (cdiToRawBinds spec))
          (buildNvidiaState spec driverVersion profile host).binds) ↔
    ((addAliases host (cdiToRawBinds spec)).Pairwise fun first second =>
        ¬ Collide profile first second ∧ ¬ Collide profile second first) ∧
      ∀ config, profile = some config → config.mode = .categorized →
        ∀ mirror ∈ addAliases host (cdiToRawBinds spec), Placed config mirror :=
  and_congr (distinct_build_iff spec driverVersion profile host) (confined_build_iff spec driverVersion profile host)

/-- One destination for the 64-bit libraries. -/
def isolatedProfile : NvidiaPassthroughProfile where
  gpuDevice := "all".toList
  mode := .categorized
  categoryDestinations := fun category => if category = .lib64 then some "/opt/nvidia/lib64".toList else none
  injectEnv := false
  manualClassifications := []

/-- A document that mounts libraries read-only. -/
def librarySpec (paths : List Text) : CdiSpec where
  containerEdits := some {
    deviceNodes := none
    mounts := some (paths.map fun path => ⟨path, path, some ["ro".toList]⟩)
    hooks := none
    env := none }
  devices := none

/-- The destinations of the libraries, and a file that is one by hand. -/
def filedProfile : NvidiaPassthroughProfile :=
  { isolatedProfile with manualClassifications := [⟨"/srv/cuda/kernels.fatbin".toList, .lib64, [], true⟩] }

private theorem confined_single
    (hall : ∀ (spec : CdiSpec) (driverVersion : Text) (profile : Option NvidiaPassthroughProfile)
      (host : HostLibraries) config, profile = some config → config.mode = .categorized →
        List.Forall₂ (Confined config) (addAliases host (cdiToRawBinds spec))
          (buildNvidiaState spec driverVersion profile host).binds)
    (config : NvidiaPassthroughProfile) (hmode : config.mode = .categorized) (path : Text) (after : PassthroughBind)
    (hmirror : addAliases ⟨none, fun _ => none⟩ (cdiToRawBinds (librarySpec [path])) = [mirrorBind path])
    (hafter : (buildNvidiaState (librarySpec [path]) [] (some config) ⟨none, fun _ => none⟩).binds = [after]) :
    Confined config (mirrorBind path) after := by
  have hconfined := hall (librarySpec [path]) [] (some config) ⟨none, fun _ => none⟩ config rfl hmode
  rw [hmirror, hafter] at hconfined
  exact (List.forall₂_cons.mp hconfined).1

/-- A library from elsewhere meets its namesake, one of `/usr/lib64` leaves its
destination, and a file that is a library only by hand does not come there. -/
theorem libraries_misplaced :
    ¬ (∀ (spec : CdiSpec) (driverVersion : Text) (profile : Option NvidiaPassthroughProfile) (host : HostLibraries),
        Distinct (buildNvidiaState spec driverVersion profile host).binds) ∧
    ¬ (∀ (spec : CdiSpec) (driverVersion : Text) (profile : Option NvidiaPassthroughProfile) (host : HostLibraries),
        ∀ config, profile = some config → config.mode = .categorized →
          List.Forall₂ (Confined config) (addAliases host (cdiToRawBinds spec))
            (buildNvidiaState spec driverVersion profile host).binds) ∧
    ¬ Confined filedProfile (mirrorBind "/srv/cuda/kernels.fatbin".toList)
        (mirrorBind "/srv/cuda/kernels.fatbin".toList) ∧
    (buildNvidiaState (librarySpec ["/srv/cuda/kernels.fatbin".toList]) [] (some filedProfile)
      ⟨none, fun _ => none⟩).binds = [mirrorBind "/srv/cuda/kernels.fatbin".toList] := by
  refine ⟨fun hall => ?_, fun hall => ?_, fun h => ?_, by decide +kernel⟩
  · have hdistinct := hall (librarySpec ["/usr/lib/libcuda.so.1".toList, "/opt/cuda/libcuda.so.1".toList]) []
      (some isolatedProfile) ⟨none, fun _ => none⟩
    revert hdistinct
    unfold Distinct
    decide +kernel
  · have hconfined := confined_single hall isolatedProfile rfl "/usr/lib64/libcuda.so.1".toList
      ⟨"/usr/lib64/libcuda.so.1".toList, "/opt/nvidia/lib6464/libcuda.so.1".toList, true⟩
      (by decide +kernel) (by decide +kernel)
    have hout := (hconfined rfl .lib64 "/opt/nvidia/lib64".toList (by decide +kernel) rfl (by decide)).1
    revert hout
    decide +kernel
  · have hout := (h rfl .lib64 "/opt/nvidia/lib64".toList (by decide +kernel) rfl (by decide)).1
    revert hout
    decide +kernel

end Placement

end Lasper.Nvidia
