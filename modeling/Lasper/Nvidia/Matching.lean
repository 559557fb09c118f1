import Mathlib.Data.List.Infix
import Lasper.Nvidia.Surgery

/-! The comparison of a block with the state. The block is read by another
scanner than the one that purges it, and its binds by another parser than the one
that looks for repetitions. -/

namespace Lasper.Nvidia

open Lib Config

section Scanner

structure MatchState where
  inFiles : Bool
  inside : Bool
  complete : Bool
  fileBinds : List (Text × Text × Bool)

def MatchState.start : MatchState := ⟨false, false, false, []⟩

def parseManagedBind (value : Text) : Option (Text × Text) := do
  let fields := parseNspawnBindFields (Text.trim value)
  if fields = [] ∨ 2 < fields.length then none
  else
    let host ← fields.head?.map Text.trim
    if host = [] then none
    else return (host, ((fields[1]?.map Text.trim).filter (· ≠ [])).getD host)

/-- A bind that is there already is an error. -/
def insertBind (s : MatchState) (value : Text) (readonly : Bool) : Option MatchState := do
  let (host, container) ← parseManagedBind value
  if (host, container, readonly) ∈ s.fileBinds then none
  else return { s with fileBinds := s.fileBinds ++ [(host, container, readonly)] }

def matchStep (s : MatchState) (line : Text) : Option MatchState :=
  let trimmed := Text.trim line
  if trimmed.head? = some '[' && trimmed.getLast? = some ']' then
    if s.inside then none else some { s with inFiles := Text.eqIgnoreAsciiCase trimmed "[files]".toList }
  else if !s.inFiles then some s
  else if isNvidiaBeginMarker trimmed then
    if s.inside || s.complete then none else some { s with inside := true }
  else if isNvidiaEndMarker trimmed then
    if !s.inside then none else some { s with inside := false, complete := true }
  else if !s.inside then some s
  else if trimmed = [] ∨ trimmed.head? = some '#' then some s
  else match Text.stripPrefix "BindReadOnly=".toList trimmed with
    | some value => insertBind s value true
    | none => match Text.stripPrefix "Bind=".toList trimmed with
      | some value => insertBind s value false
      | none => none

def stateBinds (state : NvidiaState) : List (Text × Text × Bool) :=
  state.binds.map fun bind => (bind.hostPath, bind.containerPath, bind.readonly)

def markerBindsMatchState (content : Text) (state : NvidiaState) : Bool :=
  match (Text.lines content).foldlM matchStep .start with
  | none => false
  | some s => s.complete && !s.inside && (stateBinds state).dedup.length = state.binds.length &&
      s.fileBinds.all (· ∈ stateBinds state) && (stateBinds state).all (· ∈ s.fileBinds)

/-- Whether the lifecycle leaves the file alone. -/
def takesFastPath (content : Text) (oldState hostState : NvidiaState) : Bool :=
  oldState.samePayload hostState && oldState.driverVersion ≠ [] && nvidiaBlockBegin <:+: content &&
    markerBindsMatchState content hostState

end Scanner

section Fields

theorem parseNspawnBindFields_plain {c : Char} (hslash : c ≠ '\\') (hcolon : c ≠ ':') (rest : Text) :
    parseNspawnBindFields (c :: rest) = consField c (parseNspawnBindFields rest) := by
  rw [parseNspawnBindFields.eq_5]
  · exact fun _ h => absurd h hslash
  · exact fun _ h => absurd h hslash
  · exact hcolon

/-- An escaped path is read back into the first field. -/
theorem parseNspawnBindFields_escape (path rest : Text) :
    parseNspawnBindFields (escapeNspawnBindPath path ++ rest) = path.foldr consField (parseNspawnBindFields rest) := by
  induction path with
  | nil => rfl
  | cons c path ih =>
    rw [escapeNspawnBindPath, List.flatMap_cons, ← escapeNspawnBindPath, List.foldr_cons, ← ih, List.append_assoc]
    by_cases hslash : c = '\\'
    · rw [hslash]
      rfl
    · by_cases hcolon : c = ':'
      · rw [hcolon]
        rfl
      · rw [if_neg (not_or.mpr ⟨hslash, hcolon⟩), List.singleton_append, parseNspawnBindFields_plain hslash hcolon]

theorem foldr_consField (path field : Text) (fields : List Text) :
    path.foldr consField (field :: fields) = (path ++ field) :: fields := by
  induction path with
  | nil => rfl
  | cons c path ih =>
    rw [List.foldr_cons, ih]
    rfl

theorem parse_one (path : Text) : parseNspawnBindFields (escapeNspawnBindPath path) = [path] := by
  have hread := parseNspawnBindFields_escape path []
  rw [List.append_nil] at hread
  rw [hread, parseNspawnBindFields, foldr_consField, List.append_nil]

theorem parse_two (host container : Text) :
    parseNspawnBindFields (escapeNspawnBindPath host ++ ':' :: escapeNspawnBindPath container) = [host, container] := by
  rw [parseNspawnBindFields_escape, parseNspawnBindFields, parse_one, foldr_consField, List.append_nil]

end Fields

section Trimmed

variable {text : Text}

theorem trim_eq_self (hstart : ∀ c, text.head? = some c → isWhitespace c = false)
    (hend : ∀ c, text.getLast? = some c → isWhitespace c = false) : Text.trim text = text := by
  cases text with
  | nil => rfl
  | cons c rest =>
    have hc : ¬ isWhitespace c = true := by
      rw [hstart c rfl]
      exact Bool.false_ne_true
    rw [Text.trim, Text.trimStart, List.dropWhile_cons_of_neg hc, Text.trimEnd, List.rdropWhile_eq_self_iff]
    intro hne hlast
    have hkept := hend _ (List.getLast?_eq_some_getLast hne)
    rw [hlast] at hkept
    cases hkept

theorem getLast?_trim {c : Char} (h : (Text.trim text).getLast? = some c) : isWhitespace c = false := by
  have hne : Text.trim text ≠ [] := by
    intro hnil
    rw [hnil] at h
    cases h
  have hlast : (Text.trim text).getLast hne = c := Option.some.inj ((List.getLast?_eq_some_getLast hne).symm.trans h)
  have hnot : ¬ isWhitespace ((Text.trim text).getLast hne) = true :=
    List.rdropWhile_last_not isWhitespace (Text.trimStart text) hne
  rw [hlast] at hnot
  simpa using hnot

theorem head?_trim {c : Char} (h : (Text.trim text).head? = some c) : isWhitespace c = false := by
  cases hstart : Text.trimStart text with
  | nil =>
    rw [Text.trim, hstart] at h
    cases h
  | cons d rest =>
    have hd : isWhitespace d = false := by
      have hhead := List.head?_dropWhile_not isWhitespace text
      rw [← Text.trimStart, hstart] at hhead
      simpa using hhead
    have hsame : Text.trim text = Text.trim (d :: rest) := by
      rw [Text.trim, hstart, Text.trim, Text.trimStart, List.dropWhile_cons_of_neg (by rw [hd]; exact Bool.false_ne_true)]
    rw [hsame, trim_head hd] at h
    exact Option.some.inj h ▸ hd

@[simp] theorem trim_trim (text : Text) : Text.trim (Text.trim text) = Text.trim text :=
  trim_eq_self (fun _ => head?_trim) fun _ => getLast?_trim

theorem trim_splitEnding (raw : Text) : Text.trim (Text.splitEnding raw).1 = Text.trim raw := by
  have hspace : ∀ c ∈ (Text.splitEnding raw).2, isWhitespace c = true := by
    unfold Text.splitEnding
    split_ifs <;> simp [isWhitespace]
  nth_rewrite 2 [← Text.splitEnding_append raw]
  rw [trim_append hspace]

theorem getLast?_escape (path : Text) : (escapeNspawnBindPath path).getLast? = path.getLast? := by
  rcases List.eq_nil_or_concat path with rfl | ⟨front, c, rfl⟩
  · rfl
  · rw [List.concat_eq_append, escapeNspawnBindPath, List.flatMap_append, List.flatMap_singleton, List.getLast?_concat]
    split_ifs
    · rw [List.getLast?_append_of_ne_nil _ (List.cons_ne_nil _ _)]
      rfl
    · exact List.getLast?_concat

end Trimmed

section Reading

/-- What is written behind the key. -/
def bindValue (bind : PassthroughBind) : Text :=
  escapeNspawnBindPath bind.hostPath ++
    if bind.hostPath = bind.containerPath then [] else ':' :: escapeNspawnBindPath bind.containerPath

theorem bindLine_eq (bind : PassthroughBind) : bindLine bind = nspawnBindKey bind.readonly ++ '=' :: bindValue bind := rfl

/-- Paths as the validation lets them through, without space at their ends. -/
structure Tidy (bind : PassthroughBind) : Prop where
  host_absolute : bind.hostPath.head? = some '/'
  container_absolute : bind.containerPath.head? = some '/'
  host_trim : Text.trim bind.hostPath = bind.hostPath
  container_trim : Text.trim bind.containerPath = bind.containerPath

variable {bind : PassthroughBind}

theorem ne_nil_of_head {path : Text} {c : Char} (h : path.head? = some c) : path ≠ [] := by
  rintro rfl
  cases h

theorem Tidy.getLast?_bindValue (h : Tidy bind) : (bindValue bind).getLast? = bind.containerPath.getLast? := by
  unfold bindValue
  split_ifs with hsame
  · rw [List.append_nil, getLast?_escape, hsame]
  · have hne : escapeNspawnBindPath bind.containerPath ≠ [] := by
      intro hnil
      have hlast := getLast?_escape bind.containerPath
      rw [hnil, List.getLast?_nil, eq_comm, List.getLast?_eq_none_iff] at hlast
      exact ne_nil_of_head h.container_absolute hlast
    rw [List.getLast?_append_of_ne_nil _ (List.cons_ne_nil _ _), List.getLast?_cons_of_ne_nil hne, getLast?_escape]

theorem Tidy.last_bindValue (h : Tidy bind) : ∀ c, (bindValue bind).getLast? = some c → isWhitespace c = false := by
  intro c hc
  rw [h.getLast?_bindValue, ← h.container_trim] at hc
  exact getLast?_trim hc

theorem Tidy.trim_bindValue (h : Tidy bind) : Text.trim (bindValue bind) = bindValue bind := by
  refine trim_eq_self (fun c hc => ?_) h.last_bindValue
  have hslash := h.host_absolute
  rw [bindValue] at hc
  cases hhost : bind.hostPath with
  | nil =>
    rw [hhost] at hslash
    cases hslash
  | cons d rest =>
    rw [hhost] at hslash hc
    cases hslash
    rw [escapeNspawnBindPath, List.flatMap_cons, if_neg (by decide)] at hc
    cases hc
    decide

theorem Tidy.trim_bindLine (h : Tidy bind) : Text.trim (bindLine bind) = bindLine bind := by
  refine trim_eq_self (fun c hc => ?_) fun c hc => ?_
  · obtain ⟨rest, hrest⟩ := bindLine_head bind
    rw [hrest] at hc
    cases hc
    decide
  · have hne : bindValue bind ≠ [] := by
      intro hnil
      have hlast := h.getLast?_bindValue
      rw [hnil, List.getLast?_nil, eq_comm, List.getLast?_eq_none_iff] at hlast
      exact ne_nil_of_head h.container_absolute hlast
    rw [bindLine_eq, List.getLast?_append_of_ne_nil _ (List.cons_ne_nil _ _), List.getLast?_cons_of_ne_nil hne] at hc
    exact h.last_bindValue c hc

/-- The managed bind that is read is the one that was written. -/
theorem Tidy.parseManagedBind (h : Tidy bind) :
    Nvidia.parseManagedBind (bindValue bind) = some (bind.hostPath, bind.containerPath) := by
  unfold Nvidia.parseManagedBind
  rw [h.trim_bindValue, bindValue]
  have hhost := ne_nil_of_head h.host_absolute
  have hcontainer := ne_nil_of_head h.container_absolute
  split_ifs with hsame
  · rw [List.append_nil, parse_one]
    simp [h.host_trim, hhost, ← hsame]
  · rw [parse_two]
    simp [h.host_trim, h.container_trim, hhost, Option.filter_some, hcontainer]

end Reading

section Running

variable {lineEnding : Text} {s t : MatchState}

theorem matchStep_splitEnding (s : MatchState) (raw : Text) :
    matchStep s (Text.splitEnding raw).1 = matchStep s raw := by
  simp only [matchStep, trim_splitEnding]

theorem match_lines (s : MatchState) (content : Text) :
    (Text.lines content).foldlM matchStep s = (pieces '\n' content).foldlM matchStep s := by
  rw [Text.lines, List.foldlM_map]
  simp only [matchStep_splitEnding]

@[simp] theorem isNvidiaBeginMarker_trim (line : Text) :
    isNvidiaBeginMarker (Text.trim line) = isNvidiaBeginMarker line := by
  simp only [isNvidiaBeginMarker, trim_trim]

@[simp] theorem isNvidiaEndMarker_trim (line : Text) :
    isNvidiaEndMarker (Text.trim line) = isNvidiaEndMarker line := by
  simp only [isNvidiaEndMarker, trim_trim]

variable {inFiles complete : Bool} {binds : List (Text × Text × Bool)} {lines : List Text}

theorem matchStep_outside (line : Text) : matchStep ⟨inFiles, false, complete, binds⟩ line =
    if isSectionHeader line then some ⟨isFilesSection line, false, complete, binds⟩
    else if inFiles && isNvidiaBeginMarker line then
      if complete then none else some ⟨true, true, complete, binds⟩
    else if inFiles && isNvidiaEndMarker line then none
    else some ⟨inFiles, false, complete, binds⟩ := by
  simp only [matchStep, isNvidiaBeginMarker_trim, isNvidiaEndMarker_trim]
  rw [← isSectionHeader, ← isFilesSection]
  cases inFiles <;> simp

theorem matchStep_inside (line : Text) : matchStep ⟨true, true, complete, binds⟩ line =
    if isSectionHeader line then none
    else if isNvidiaBeginMarker line then none
    else if isNvidiaEndMarker line then some ⟨true, false, true, binds⟩
    else if Text.trim line = [] ∨ (Text.trim line).head? = some '#' then some ⟨true, true, complete, binds⟩
    else match Text.stripPrefix "BindReadOnly=".toList (Text.trim line) with
      | some value => insertBind ⟨true, true, complete, binds⟩ value true
      | none => match Text.stripPrefix "Bind=".toList (Text.trim line) with
        | some value => insertBind ⟨true, true, complete, binds⟩ value false
        | none => none := by
  simp only [matchStep, isNvidiaBeginMarker_trim, isNvidiaEndMarker_trim]
  rw [← isSectionHeader]
  simp only [if_true, Bool.not_true, Bool.false_eq_true, if_false, Bool.true_or]

/-- Outside the block nothing but the section counts. -/
theorem match_unmarked (complete : Bool) (binds : List (Text × Text × Bool)) (h : Unmarked inFiles lines) :
    lines.foldlM matchStep ⟨inFiles, false, complete, binds⟩ =
      some ⟨inFilesAfter inFiles lines, false, complete, binds⟩ := by
  induction lines generalizing inFiles with
  | nil => rfl
  | cons line lines ih =>
    obtain ⟨hline, hrest⟩ := h
    have hstep : matchStep ⟨inFiles, false, complete, binds⟩ line =
        some ⟨filesAfter inFiles line, false, complete, binds⟩ := by
      rw [matchStep_outside, filesAfter]
      cases hheader : isSectionHeader line with
      | true => rfl
      | false =>
        cases inFiles with
        | false => rfl
        | true =>
          rw [(hline hheader rfl).1, (hline hheader rfl).2]
          rfl
    rw [List.foldlM_cons, hstep]
    exact ih hrest

theorem matchStep_bindLine (hle : IsLineEnding lineEnding) {bind : PassthroughBind} (h : Tidy bind)
    (hnew : (bind.hostPath, bind.containerPath, bind.readonly) ∉ binds) :
    matchStep ⟨true, true, complete, binds⟩ (bindLine bind ++ lineEnding) =
      some ⟨true, true, complete, binds ++ [(bind.hostPath, bind.containerPath, bind.readonly)]⟩ := by
  have hinner := inner_bindLine hle bind
  have htrim : Text.trim (bindLine bind ++ lineEnding) = bindLine bind := by
    rw [hle.trim_append, h.trim_bindLine]
  have hplain : ¬ (bindLine bind = [] ∨ (bindLine bind).head? = some '#') := by
    obtain ⟨rest, hrest⟩ := bindLine_head bind
    rw [hrest]
    simp
  have hinsert : insertBind ⟨true, true, complete, binds⟩ (bindValue bind) bind.readonly =
      some ⟨true, true, complete, binds ++ [(bind.hostPath, bind.containerPath, bind.readonly)]⟩ := by
    simp [insertBind, h.parseManagedBind, hnew]
  rw [matchStep_inside, hinner.header, hinner.begins, hinner.ends, htrim, ← hinsert]
  simp only [Bool.false_eq_true, if_false, hplain]
  cases hreadonly : bind.readonly with
  | true =>
    have hline : bindLine bind = "BindReadOnly=".toList ++ bindValue bind := by
      rw [bindLine_eq, hreadonly]
      rfl
    rw [hline, Text.stripPrefix_append]
  | false =>
    have hline : bindLine bind = "Bind=".toList ++ bindValue bind := by
      rw [bindLine_eq, hreadonly]
      rfl
    have hother : Text.stripPrefix "BindReadOnly=".toList ("Bind=".toList ++ bindValue bind) = none := by
      rw [Text.stripPrefix, if_neg]
      rintro ⟨rest, hrest⟩
      have hchar := congrArg (·[4]?) hrest
      simp at hchar
    rw [hline, hother, Text.stripPrefix_append]

/-- The binds of the block are read in their order. -/
theorem match_binds (complete : Bool) (binds : List (Text × Text × Bool)) (hle : IsLineEnding lineEnding)
    {managed : List PassthroughBind} (h : ∀ bind ∈ managed, Tidy bind)
    (hnodup : (binds ++ managed.map fun bind => (bind.hostPath, bind.containerPath, bind.readonly)).Nodup) :
    (managed.map (bindLine · ++ lineEnding)).foldlM matchStep ⟨true, true, complete, binds⟩ =
      some ⟨true, true, complete,
        binds ++ managed.map fun bind => (bind.hostPath, bind.containerPath, bind.readonly)⟩ := by
  induction managed generalizing binds with
  | nil => simp
  | cons bind managed ih =>
    rw [List.map_cons, List.append_cons] at hnodup
    have hnew : (bind.hostPath, bind.containerPath, bind.readonly) ∉ binds := by
      have hfront := (List.nodup_append.mp hnodup).1
      exact fun hmem => (List.nodup_append.mp hfront).2.2 _ hmem _ (List.mem_singleton_self _) rfl
    rw [List.map_cons, List.foldlM_cons, matchStep_bindLine hle (h bind List.mem_cons_self) hnew]
    refine (ih _ (fun other hother => h other (List.mem_cons_of_mem _ hother)) hnodup).trans ?_
    rw [List.map_cons, List.append_assoc, List.singleton_append]

/-- The scanner reads the whole file. -/
theorem match_marked (hle : IsLineEnding lineEnding) {managed : List PassthroughBind} (h : ∀ bind ∈ managed, Tidy bind)
    (hnodup : (managed.map fun bind => (bind.hostPath, bind.containerPath, bind.readonly)).Nodup)
    {front back : List Text} {first last : Text}
    (hmarked : Marked lines front first (managed.map (bindLine · ++ lineEnding)) last back) :
    lines.foldlM matchStep .start = some ⟨inFilesAfter true back, false, true,
      managed.map fun bind => (bind.hostPath, bind.containerPath, bind.readonly)⟩ := by
  have hfront := match_unmarked false [] hmarked.front_unmarked
  rw [hmarked.in_files] at hfront
  have hfirst : matchStep ⟨true, false, false, []⟩ first = some ⟨true, true, false, []⟩ := by
    rw [matchStep_outside, not_header_of_begin hmarked.begins, hmarked.begins]
    rfl
  have hmiddle := match_binds false [] hle h hnodup
  rw [List.nil_append] at hmiddle
  have hlast : ∀ read, matchStep ⟨true, true, false, read⟩ last = some ⟨true, false, true, read⟩ := by
    intro read
    rw [matchStep_inside, not_header_of_end hmarked.ends, not_begin_of_end hmarked.ends, hmarked.ends]
    rfl
  have hback := fun read => match_unmarked true read hmarked.back_unmarked
  rw [hmarked.split, List.foldlM_append, show MatchState.start = ⟨false, false, false, []⟩ from rfl, hfront]
  simp only [bind, Option.bind, List.foldlM_cons, List.foldlM_append, hfirst, hmiddle, hlast, hback]

theorem parseManagedBind_trim {value host container : Text} (h : parseManagedBind value = some (host, container)) :
    Text.trim host = host ∧ Text.trim container = container := by
  unfold parseManagedBind at h
  simp only [Option.bind_eq_bind] at h
  split_ifs at h
  obtain ⟨host', hhost, h⟩ := Option.bind_eq_some_iff.mp h
  obtain ⟨field, -, rfl⟩ := Option.map_eq_some_iff.mp hhost
  split_ifs at h
  cases h
  refine ⟨trim_trim field, ?_⟩
  cases hfield : ((parseNspawnBindFields (Text.trim value))[1]?.map Text.trim).filter (· ≠ []) with
  | none => exact trim_trim field
  | some container =>
    obtain ⟨hmap, -⟩ := Option.filter_eq_some_iff.mp hfield
    obtain ⟨other, -, rfl⟩ := Option.map_eq_some_iff.mp hmap
    exact trim_trim other

theorem insertBind_trim {value : Text} {readonly : Bool} (h : insertBind s value readonly = some t)
    (hs : ∀ entry ∈ s.fileBinds, Text.trim entry.1 = entry.1 ∧ Text.trim entry.2.1 = entry.2.1) :
    ∀ entry ∈ t.fileBinds, Text.trim entry.1 = entry.1 ∧ Text.trim entry.2.1 = entry.2.1 := by
  unfold insertBind at h
  obtain ⟨⟨host, container⟩, hparse, h⟩ := Option.bind_eq_some_iff.mp h
  simp only at h
  split_ifs at h
  cases h
  intro entry hentry
  rcases List.mem_append.mp hentry with hentry | hentry
  · exact hs entry hentry
  · rw [List.mem_singleton.mp hentry]
    exact parseManagedBind_trim hparse

theorem matchStep_fileBinds {line : Text} (h : matchStep s line = some t) :
    t.fileBinds = s.fileBinds ∨ ∃ value readonly, insertBind s value readonly = some t := by
  simp only [matchStep] at h
  split_ifs at h
  all_goals try
    cases h
    exact .inl rfl
  split at h
  · exact .inr ⟨_, _, h⟩
  · split at h
    · exact .inr ⟨_, _, h⟩
    · cases h

/-- Whatever the block says, the paths that are read have no space at their ends. -/
theorem match_trim (h : lines.foldlM matchStep s = some t)
    (hs : ∀ entry ∈ s.fileBinds, Text.trim entry.1 = entry.1 ∧ Text.trim entry.2.1 = entry.2.1) :
    ∀ entry ∈ t.fileBinds, Text.trim entry.1 = entry.1 ∧ Text.trim entry.2.1 = entry.2.1 := by
  induction lines generalizing s with
  | nil =>
    cases h
    exact hs
  | cons line lines ih =>
    rw [List.foldlM_cons] at h
    obtain ⟨next, hstep, hrest⟩ := Option.bind_eq_some_iff.mp h
    refine ih hrest ?_
    rcases matchStep_fileBinds hstep with hsame | ⟨value, readonly, hinsert⟩
    · rw [hsame]
      exact hs
    · exact insertBind_trim hinsert hs

end Running

section Agreement

variable {state : NvidiaState}

theorem nodup_stateBinds (h : state.binds.Nodup) : (stateBinds state).Nodup := by
  refine h.map fun one other hsame => ?_
  obtain ⟨host, container, readonly⟩ := one
  obtain ⟨host', container', readonly'⟩ := other
  cases hsame
  rfl

/-- The block that was written for a state agrees with it, unless a path ends in space. -/
theorem markerBindsMatchState_iff {content : Text} {lineEnding : Text} (hle : IsLineEnding lineEnding)
    (habsolute : ∀ bind ∈ state.binds, bind.hostPath.head? = some '/' ∧ bind.containerPath.head? = some '/')
    (hnodup : state.binds.Nodup) {front back : List Text} {first last : Text}
    (hmarked : Marked (pieces '\n' content) front first (state.binds.map (bindLine · ++ lineEnding)) last back) :
    markerBindsMatchState content state = true ↔
      ∀ bind ∈ state.binds, Text.trim bind.hostPath = bind.hostPath ∧
        Text.trim bind.containerPath = bind.containerPath := by
  constructor
  · intro hmatch bind hbind
    unfold markerBindsMatchState at hmatch
    split at hmatch
    · cases hmatch
    · rename_i t ht
      rw [match_lines] at ht
      simp only [Bool.and_eq_true, List.all_eq_true, decide_eq_true_eq] at hmatch
      have hread := hmatch.2 _ (List.mem_map_of_mem hbind)
      exact match_trim ht (by exact nofun) _ hread
  · intro htrim
    have htidy : ∀ bind ∈ state.binds, Tidy bind := fun bind hbind =>
      ⟨(habsolute bind hbind).1, (habsolute bind hbind).2, (htrim bind hbind).1, (htrim bind hbind).2⟩
    have hrun := match_marked hle htidy (nodup_stateBinds hnodup) hmarked
    unfold markerBindsMatchState
    rw [match_lines, hrun]
    simp only [Bool.and_eq_true, List.all_eq_true, decide_eq_true_eq]
    rw [(nodup_stateBinds hnodup).dedup]
    refine ⟨⟨⟨⟨trivial, rfl⟩, List.length_map _⟩, ?_⟩, ?_⟩
    · exact fun entry hentry => hentry
    · exact fun entry hentry => hentry

end Agreement

end Lasper.Nvidia
