import Mathlib.Data.List.Forall2
import Lasper.Config.Apply
import Lasper.Lib.Joined

/-! Promotion of a generated OCI configuration. The sections' lines pass through, but
for the assignments that the policy of the network mode replaces. -/

namespace Lasper.Config

open Lib

section Promote

inductive OciNetworkMode
  | host
  | isolated
  | veth
  deriving DecidableEq

def lasperOciConfigMarker : Text :=
  "# Managed by Lasper: ".toList ++ "promoted systemd OCI ".toList ++ "runtime configuration".toList

def ociResolvConf : OciNetworkMode → Text
  | .host => "bind-host".toList
  | .isolated | .veth => "off".toList

def ociExecPolicy (network : OciNetworkMode) : List Text :=
  ["PrivateUsers=no".toList, "ResolvConf=".toList ++ ociResolvConf network]

def ociNetworkPolicy : OciNetworkMode → List Text
  | .host => ["Private=no".toList, "VirtualEthernet=no".toList]
  | .isolated => ["Private=yes".toList, "VirtualEthernet=no".toList]
  | .veth => ["Private=yes".toList, "VirtualEthernet=yes".toList]

def ociManagedNetworkKey (key : Text) : Bool :=
  key ∈ ["Private".toList, "VirtualEthernet".toList, "VirtualEthernetExtra".toList, "Interface".toList,
    "MACVLAN".toList, "IPVLAN".toList, "Bridge".toList, "Zone".toList, "NamespacePath".toList, "Port".toList]

def execHeader : Text := "[Exec]".toList
def networkHeader : Text := "[Network]".toList

def isHeader (trimmed : Text) : Bool := trimmed.head? = some '[' && trimmed.getLast? = some ']'

/-- The key that the line assigns. -/
def assignedKey (trimmed : Text) : Option Text := (trimmed.splitOnce '=').map fun parts => parts.1.trim

/-- The policy decides this assignment. -/
def isManaged (inExec inNetwork : Bool) (trimmed : Text) : Bool :=
  inExec && (assignedKey trimmed = some "PrivateUsers".toList || assignedKey trimmed = some "ResolvConf".toList) ||
    inNetwork && (assignedKey trimmed).any ociManagedNetworkKey

structure Promotion where
  result : List Text
  inExec : Bool
  inNetwork : Bool
  foundExec : Bool
  foundNetwork : Bool

variable (network : OciNetworkMode)

/-- What the section needs when it ends. -/
def closing (inNetwork : Bool) : List Text := if inNetwork then ociNetworkPolicy network else []

/-- What the section needs when it begins. -/
def opening (trimmed : Text) : List Text := if trimmed = execHeader then ociExecPolicy network else []

def promoteLine (promotion : Promotion) (line : Text) : Promotion :=
  if isHeader line.trim then
    { result := promotion.result ++ closing network promotion.inNetwork ++ [line] ++ opening network line.trim
      inExec := line.trim = execHeader
      inNetwork := line.trim = networkHeader
      foundExec := promotion.foundExec || line.trim = execHeader
      foundNetwork := promotion.foundNetwork || line.trim = networkHeader }
  else if isManaged promotion.inExec promotion.inNetwork line.trim then promotion
  else { promotion with result := promotion.result ++ [line] }

/-- A missing section is created behind an empty line. -/
def ensureNetwork (foundNetwork : Bool) (result : List Text) : List Text :=
  if foundNetwork then result
  else (if result.getLast?.any (· ≠ []) then result ++ [[]] else result) ++ networkHeader :: ociNetworkPolicy network

def promoteOciContent (content : Text) : Except NspawnError Text :=
  let marker := if content.lines.head? = some lasperOciConfigMarker then [] else [lasperOciConfigMarker]
  let promotion := content.lines.foldl (promoteLine network) ⟨marker, false, false, false, false⟩
  if promotion.foundExec = false then .error (.validation "OCI runtime configuration has no [Exec] section")
  else
    let result := ensureNetwork network promotion.foundNetwork
      (promotion.result ++ closing network promotion.inNetwork)
    let promoted := Text.joinedLines result ++ if Text.endsInNewline content then ['\n'] else []
    if maxNspawnContentBytes < promoted.byteLen then
      .error (.validation s!".nspawn content exceeds {maxNspawnContentBytes} bytes")
    else .ok promoted

end Promote

section Emission

variable (network : OciNetworkMode)

/-- The lines that come out of a section's rest and what follows it. -/
def emit (inExec inNetwork : Bool) : List Text → List Text
  | [] => closing network inNetwork
  | line :: rest =>
    if isHeader line.trim then
      closing network inNetwork ++ line :: (opening network line.trim ++
        emit (line.trim = execHeader) (line.trim = networkHeader) rest)
    else if isManaged inExec inNetwork line.trim then emit inExec inNetwork rest
    else line :: emit inExec inNetwork rest

variable {network} {inExec inNetwork : Bool} {lines more : List Text} {line : Text} {promotion : Promotion}

theorem foldl_promoteLine :
    (lines.foldl (promoteLine network) promotion).result ++
        closing network (lines.foldl (promoteLine network) promotion).inNetwork =
      promotion.result ++ emit network promotion.inExec promotion.inNetwork lines := by
  induction lines generalizing promotion with
  | nil => rfl
  | cons line lines ih =>
    rw [List.foldl_cons, ih]
    unfold promoteLine
    rw [emit]
    split_ifs
    · simp only [List.append_assoc, List.cons_append, List.nil_append]
    · rfl
    · simp only [List.append_assoc, List.singleton_append]

theorem isHeader_exec : isHeader execHeader = true := by decide

theorem isHeader_network : isHeader networkHeader = true := by decide

theorem foundExec_iff : (lines.foldl (promoteLine network) promotion).foundExec = true ↔
    promotion.foundExec = true ∨ ∃ line ∈ lines, line.trim = execHeader := by
  induction lines generalizing promotion with
  | nil => simp
  | cons line lines ih =>
    rw [List.foldl_cons, ih]
    have hline : (promoteLine network promotion line).foundExec = true ↔
        promotion.foundExec = true ∨ line.trim = execHeader := by
      unfold promoteLine
      split_ifs with hheader
      · simp
      all_goals
        constructor
        · exact .inl
        · intro h
          apply h.resolve_right
          intro hexec
          rw [hexec] at hheader
          exact hheader isHeader_exec
    rw [hline]
    simp [or_assoc]

theorem foundNetwork_iff : (lines.foldl (promoteLine network) promotion).foundNetwork = true ↔
    promotion.foundNetwork = true ∨ ∃ line ∈ lines, line.trim = networkHeader := by
  induction lines generalizing promotion with
  | nil => simp
  | cons line lines ih =>
    rw [List.foldl_cons, ih]
    have hline : (promoteLine network promotion line).foundNetwork = true ↔
        promotion.foundNetwork = true ∨ line.trim = networkHeader := by
      unfold promoteLine
      split_ifs with hheader
      · simp
      all_goals
        constructor
        · exact .inl
        · intro h
          apply h.resolve_right
          intro hnetwork
          rw [hnetwork] at hheader
          exact hheader isHeader_network
    rw [hline]
    simp [or_assoc]

/-- Without a network section, what follows comes out behind the rest. -/
theorem emit_append (h : ∀ line ∈ lines, line.trim ≠ networkHeader) :
    ∃ inExec', ∀ more, emit network inExec false (lines ++ more) =
      emit network inExec false lines ++ emit network inExec' false more := by
  induction lines generalizing inExec with
  | nil => exact ⟨inExec, fun more => rfl⟩
  | cons line lines ih =>
    have hrest : ∀ line ∈ lines, line.trim ≠ networkHeader := fun other hother => h other (List.mem_cons_of_mem _ hother)
    have hline := h line List.mem_cons_self
    by_cases hheader : isHeader line.trim = true
    · obtain ⟨inExec', hmore⟩ := @ih (line.trim = execHeader) hrest
      refine ⟨inExec', fun more => ?_⟩
      rw [List.cons_append, emit, emit, if_pos hheader, if_pos hheader]
      simp only [hline, decide_false, hmore, List.cons_append, List.append_assoc]
    · obtain ⟨inExec', hmore⟩ := @ih inExec hrest
      refine ⟨inExec', fun more => ?_⟩
      rw [List.cons_append, emit, emit, if_neg hheader, if_neg hheader]
      split_ifs
      · exact hmore more
      · rw [hmore more, List.cons_append]

theorem mem_emit (h : line ∈ emit network inExec inNetwork lines) :
    line ∈ lines ∨ line ∈ ociExecPolicy network ∨ line ∈ ociNetworkPolicy network := by
  have hclosing : ∀ inNetwork, line ∈ closing network inNetwork → line ∈ ociNetworkPolicy network := by
    intro inNetwork hmem
    unfold closing at hmem
    split_ifs at hmem
    · exact hmem
    · cases hmem
  induction lines generalizing inExec inNetwork with
  | nil => exact .inr (.inr (hclosing inNetwork h))
  | cons first lines ih =>
    have hlater : ∀ {inExec inNetwork}, line ∈ emit network inExec inNetwork lines →
        line ∈ first :: lines ∨ line ∈ ociExecPolicy network ∨ line ∈ ociNetworkPolicy network := by
      intro inExec inNetwork hmem
      exact (ih hmem).imp_left (List.mem_cons_of_mem first)
    rw [emit] at h
    split_ifs at h
    · rcases List.mem_append.mp h with h | h
      · exact .inr (.inr (hclosing inNetwork h))
      · rcases List.mem_cons.mp h with rfl | h
        · exact .inl List.mem_cons_self
        · rcases List.mem_append.mp h with h | h
          · unfold opening at h
            split_ifs at h
            · exact .inr (.inl h)
            · cases h
          · exact hlater h
    · exact hlater h
    · rcases List.mem_cons.mp h with rfl | h
      · exact .inl List.mem_cons_self
      · exact hlater h

theorem header_mem_emit (hmem : line ∈ lines) (hheader : isHeader line.trim = true) :
    line ∈ emit network inExec inNetwork lines := by
  induction lines generalizing inExec inNetwork with
  | nil => cases hmem
  | cons first lines ih =>
    rw [emit]
    rcases List.mem_cons.mp hmem with rfl | hmem
    · rw [if_pos hheader]
      exact List.mem_append_right _ List.mem_cons_self
    · split_ifs
      · exact List.mem_append_right _ (List.mem_cons_of_mem _ (List.mem_append_right _ (ih hmem)))
      · exact ih hmem
      · exact List.mem_cons_of_mem _ (ih hmem)

end Emission

section Rereading

/-- A line as it is read again: reading may have taken a carriage return from its end. -/
def Reread (line again : Text) : Prop := again = line ∨ line = again ++ ['\r']

theorem trim_append_return (text : Text) : (text ++ ['\r']).trim = text.trim := by
  have hreturn : isWhitespace '\r' = true := by decide
  unfold Text.trim Text.trimStart Text.trimEnd
  rw [List.dropWhile_append]
  split_ifs with hempty
  · rw [List.isEmpty_iff.mp hempty, List.dropWhile_cons_of_pos hreturn]
    rfl
  · exact List.rdropWhile_concat_pos _ _ _ hreturn

theorem Reread.trim {line again : Text} (h : Reread line again) : again.trim = line.trim := by
  rcases h with rfl | rfl
  · rfl
  · exact (trim_append_return again).symm

theorem reread_eq {lines again : List Text} (h : List.Forall₂ Reread lines again)
    (hplain : ∀ line ∈ lines, line.getLast? ≠ some '\r') : again = lines := by
  induction h with
  | nil => rfl
  | cons hline _ ih =>
    rw [ih fun line hmem => hplain line (List.mem_cons_of_mem _ hmem)]
    rcases hline with rfl | rfl
    · rfl
    · exact absurd List.getLast?_concat (hplain _ List.mem_cons_self)

theorem forall₂_append_split {α : Type} {R : α → α → Prop} {xs ys zs : List α} (h : List.Forall₂ R (xs ++ ys) zs) :
    ∃ us vs, zs = us ++ vs ∧ List.Forall₂ R xs us ∧ List.Forall₂ R ys vs := by
  induction xs generalizing zs with
  | nil => exact ⟨[], zs, rfl, .nil, h⟩
  | cons x xs ih =>
    obtain ⟨z, rest, hz, hrest, rfl⟩ := List.forall₂_cons_left_iff.mp h
    obtain ⟨us, vs, rfl, hus, hvs⟩ := ih hrest
    exact ⟨z :: us, vs, rfl, .cons hz hus, hvs⟩

variable {network : OciNetworkMode} {inExec inNetwork : Bool} {lines again more : List Text}

theorem policy_plain (line : Text) (h : line ∈ ociExecPolicy network ∨ line ∈ ociNetworkPolicy network) :
    line.getLast? ≠ some '\r' ∧ '\n' ∉ line ∧ line ≠ [] := by
  have hall : (ociExecPolicy network ++ ociNetworkPolicy network).all
      fun line => line.getLast? ≠ some '\r' && !line.contains '\n' && line ≠ [] := by
    cases network <;> decide +kernel
  have hline := List.all_eq_true.mp hall line (List.mem_append.mpr h)
  simpa [and_assoc] using hline

theorem emit_managed {policy : List Text}
    (h : policy.all (fun line => !isHeader line.trim && isManaged inExec inNetwork line.trim) = true) :
    emit network inExec inNetwork (policy ++ more) = emit network inExec inNetwork more := by
  induction policy with
  | nil => rfl
  | cons line policy ih =>
    simp only [List.all_cons, Bool.and_eq_true, Bool.not_eq_true'] at h
    rw [List.cons_append, emit, if_neg (by simp [h.1.1]), if_pos h.1.2]
    exact ih (by simpa using h.2)

/-- The policy goes when it is read again. -/
theorem emit_closing : emit network inExec inNetwork (closing network inNetwork ++ more) =
    emit network inExec inNetwork more := by
  cases inNetwork with
  | false => rfl
  | true =>
    apply emit_managed
    cases network <;> cases inExec <;> decide +kernel

theorem emit_opening {trimmed : Text} : emit network (trimmed = execHeader) inNetwork
    (opening network trimmed ++ more) = emit network (trimmed = execHeader) inNetwork more := by
  unfold opening
  split_ifs with hexec
  · simp only [hexec, decide_true]
    apply emit_managed
    cases network <;> cases inNetwork <;> decide +kernel
  · rfl

theorem reread_closing (h : List.Forall₂ Reread (closing network inNetwork) again) :
    again = closing network inNetwork := by
  apply reread_eq h
  intro line hmem
  unfold closing at hmem
  split_ifs at hmem
  · exact (policy_plain line (.inr hmem)).1
  · cases hmem

theorem reread_opening {trimmed : Text} (h : List.Forall₂ Reread (opening network trimmed) again) :
    again = opening network trimmed := by
  apply reread_eq h
  intro line hmem
  unfold opening at hmem
  split_ifs at hmem
  · exact (policy_plain line (.inl hmem)).1
  · cases hmem

/-- What came out once comes out as it is, when it is read again. -/
theorem emit_reread (h : List.Forall₂ Reread (emit network inExec inNetwork lines) again) :
    emit network inExec inNetwork again = again := by
  induction lines generalizing inExec inNetwork again with
  | nil =>
    rw [reread_closing h]
    have hclosing := @emit_closing network inExec inNetwork []
    rwa [List.append_nil] at hclosing
  | cons line lines ih =>
    rw [emit] at h
    by_cases hheader : isHeader line.trim = true
    · rw [if_pos hheader] at h
      obtain ⟨closed, others, rfl, hclosed, hothers⟩ := forall₂_append_split h
      obtain ⟨header, rest, hline, hrest, rfl⟩ := List.forall₂_cons_left_iff.mp hothers
      obtain ⟨opened, rest, rfl, hopened, hrest⟩ := forall₂_append_split hrest
      rw [reread_closing hclosed, reread_opening hopened, emit_closing, emit, hline.trim, if_pos hheader,
        emit_opening, ih hrest]
    · rw [if_neg hheader] at h
      by_cases hmanaged : isManaged inExec inNetwork line.trim = true
      · rw [if_pos hmanaged] at h
        exact ih h
      · rw [if_neg hmanaged] at h
        obtain ⟨kept, rest, hline, hrest, rfl⟩ := List.forall₂_cons_left_iff.mp h
        rw [emit, hline.trim, if_neg hheader, if_neg hmanaged, ih hrest]

end Rereading

section Promoted

variable {network : OciNetworkMode} {inExec inNetwork : Bool} {lines again more : List Text} {line content promoted : Text}

theorem closing_ne_nil : ∀ line ∈ closing network inNetwork, line ≠ [] := by
  intro line hmem
  unfold closing at hmem
  split_ifs at hmem
  · exact (policy_plain line (.inr hmem)).2.2
  · cases hmem

theorem opening_ne_nil {trimmed : Text} : ∀ line ∈ opening network trimmed, line ≠ [] := by
  intro line hmem
  unfold opening at hmem
  split_ifs at hmem
  · exact (policy_plain line (.inl hmem)).2.2
  · cases hmem

/-- An empty last line comes after the lines that are not empty. -/
theorem append_concat_nil {front : List Text} (hfront : ∀ line ∈ front, line ≠ [])
    (h : front ++ lines = again ++ [[]]) : ∃ fewer, lines = fewer ++ [[]] ∧ again = front ++ fewer := by
  rcases List.eq_nil_or_concat lines with rfl | ⟨fewer, last, rfl⟩
  · rw [List.append_nil] at h
    exact absurd rfl (hfront [] (h ▸ List.mem_append_right _ List.mem_cons_self))
  · rw [List.concat_eq_append, ← List.append_assoc] at h
    obtain ⟨hagain, hlast⟩ := List.append_inj' h rfl
    cases hlast
    exact ⟨fewer, List.concat_eq_append, hagain.symm⟩

/-- What came out without its empty last line comes out of fewer lines. -/
theorem emit_dropLast (h : emit network inExec inNetwork lines = again ++ [[]]) :
    ∃ fewer, emit network inExec inNetwork fewer = again := by
  induction lines generalizing inExec inNetwork again with
  | nil =>
    rw [emit, ← List.append_nil (closing network inNetwork)] at h
    obtain ⟨fewer, hfewer, -⟩ := append_concat_nil closing_ne_nil h
    simp at hfewer
  | cons line lines ih =>
    rw [emit] at h
    by_cases hheader : isHeader line.trim = true
    · have hline : line ≠ [] := by
        intro hempty
        rw [hempty] at hheader
        cases hheader
      rw [if_pos hheader, List.append_cons, ← List.append_assoc] at h
      obtain ⟨fewer, hfewer, rfl⟩ := append_concat_nil (by
        intro other hother
        rcases List.mem_append.mp hother with hother | hother
        · rcases List.mem_append.mp hother with hother | hother
          · exact closing_ne_nil other hother
          · exact List.mem_singleton.mp hother ▸ hline
        · exact opening_ne_nil other hother) h
      obtain ⟨rest, hrest⟩ := ih hfewer
      refine ⟨line :: rest, ?_⟩
      rw [emit, if_pos hheader, hrest]
      simp
    · rw [if_neg hheader] at h
      by_cases hmanaged : isManaged inExec inNetwork line.trim = true
      · rw [if_pos hmanaged] at h
        exact ih h
      · rw [if_neg hmanaged] at h
        rcases List.eq_nil_or_concat (emit network inExec inNetwork lines) with hnil | ⟨fewer, last, hfewer⟩
        · rw [hnil] at h
          obtain ⟨hagain, -⟩ := @List.append_inj' _ [] _ _ _ h rfl
          exact ⟨lines, hnil.trans hagain⟩
        · rw [List.concat_eq_append] at hfewer
          rw [hfewer, ← List.cons_append] at h
          obtain ⟨hagain, hlast⟩ := List.append_inj' h rfl
          cases hlast
          obtain ⟨rest, hrest⟩ := ih hfewer
          refine ⟨line :: rest, ?_⟩
          rw [emit, if_neg hheader, if_neg hmanaged, hrest, hagain]

/-- Lines that the policy's rules put out, with the marker and both sections. -/
structure Complete (network : OciNetworkMode) (lines : List Text) : Prop where
  emitted : ∃ source, emit network false false source = lines
  marked : lines.head? = some lasperOciConfigMarker
  exec : ∃ line ∈ lines, line.trim = execHeader
  network : ∃ line ∈ lines, line.trim = networkHeader

/-- The lines that promotion adds. -/
def addedLines (network : OciNetworkMode) : List Text :=
  lasperOciConfigMarker :: [] :: networkHeader :: (ociExecPolicy network ++ ociNetworkPolicy network)

theorem trim_marker : lasperOciConfigMarker.trim.head? = some '#' := by decide +kernel

theorem marker_trim_ne {header : Text} (h : header.head? ≠ some '#') : lasperOciConfigMarker.trim ≠ header :=
  fun heq => h (heq ▸ trim_marker)

theorem marker_plain : lasperOciConfigMarker.getLast? ≠ some '\r' ∧ '\n' ∉ lasperOciConfigMarker := by
  decide +kernel

theorem emit_marker : emit network false false (lasperOciConfigMarker :: lines) =
    lasperOciConfigMarker :: emit network false false lines := by
  have hheader : isHeader lasperOciConfigMarker.trim = false := by simp [isHeader, trim_marker]
  rw [emit, if_neg (by simp [hheader])]
  rfl

theorem emit_appended (h : ∀ line ∈ lines, line.trim ≠ networkHeader) (hadded : more = [] ∨ more = [[]]) :
    emit network inExec false (lines ++ (more ++ [networkHeader])) =
      emit network inExec false lines ++ (more ++ networkHeader :: ociNetworkPolicy network) := by
  obtain ⟨inExec', happend⟩ := @emit_append network inExec lines h
  have hheader : emit network inExec' false [networkHeader] = networkHeader :: ociNetworkPolicy network := by
    have htrim : networkHeader.trim = networkHeader := by decide
    have hother : networkHeader ≠ execHeader := by decide
    rw [emit, htrim, if_pos isHeader_network]
    simp [emit, closing, opening, hother]
  rw [happend]
  rcases hadded with rfl | rfl
  · rw [List.nil_append, List.nil_append, hheader]
  · have hblank : emit network inExec' false ([[]] ++ [networkHeader]) = [] :: emit network inExec' false [networkHeader] := by
      have hempty : ¬ isHeader (Text.trim []) = true := by decide
      have hkept : ¬ isManaged inExec' false (Text.trim []) = true := by cases inExec' <;> decide
      rw [List.singleton_append, emit, if_neg hempty, if_neg hkept]
    rw [hblank, hheader]
    rfl

/-- The sections that the lines have come out, and the missing one is created. -/
theorem ensureNetwork_complete {foundNetwork : Bool} (hexec : ∃ line ∈ lines, line.trim = execHeader)
    (hfound : foundNetwork = true ↔ ∃ line ∈ lasperOciConfigMarker :: lines, line.trim = networkHeader) :
    Complete network
      (ensureNetwork network foundNetwork (emit network false false (lasperOciConfigMarker :: lines))) := by
  have hemitted : ∀ {line}, line ∈ lines → isHeader line.trim = true →
      line ∈ emit network false false (lasperOciConfigMarker :: lines) :=
    fun hline => header_mem_emit (List.mem_cons_of_mem _ hline)
  obtain ⟨header, hheader, htrim⟩ := hexec
  have hexec : header ∈ emit network false false (lasperOciConfigMarker :: lines) :=
    hemitted hheader (htrim ▸ isHeader_exec)
  cases foundNetwork with
  | true =>
    obtain ⟨line, hline, hnetwork⟩ := hfound.mp rfl
    exact ⟨⟨_, rfl⟩, by rw [emit_marker]; rfl, ⟨header, hexec, htrim⟩,
      line, header_mem_emit hline (hnetwork ▸ isHeader_network), hnetwork⟩
  | false =>
    have hmissing : ∀ line ∈ lasperOciConfigMarker :: lines, line.trim ≠ networkHeader :=
      fun line hline hnetwork => absurd (hfound.mpr ⟨line, hline, hnetwork⟩) Bool.false_ne_true
    obtain ⟨blank, hblank, hresult⟩ : ∃ blank : List Text, (blank = [] ∨ blank = [[]]) ∧
        ensureNetwork network false (emit network false false (lasperOciConfigMarker :: lines)) =
          emit network false false (lasperOciConfigMarker :: lines) ++
            (blank ++ networkHeader :: ociNetworkPolicy network) := by
      unfold ensureNetwork
      rw [if_neg Bool.false_ne_true]
      split_ifs
      · exact ⟨[[]], .inr rfl, List.append_assoc ..⟩
      · exact ⟨[], .inl rfl, rfl⟩
    rw [hresult]
    refine ⟨⟨_, emit_appended hmissing hblank⟩, by rw [emit_marker]; rfl, ⟨header, List.mem_append_left _ hexec, htrim⟩,
      networkHeader, ?_, by decide⟩
    exact List.mem_append_right _ (List.mem_append_right _ List.mem_cons_self)

theorem mem_ensureNetwork {foundNetwork : Bool} (h : line ∈ ensureNetwork network foundNetwork lines) :
    line ∈ lines ∨ line ∈ addedLines network := by
  have hadded : ∀ line ∈ [] :: networkHeader :: ociNetworkPolicy network, line ∈ addedLines network := by
    intro line hline
    simp only [addedLines, List.mem_cons, List.mem_append] at hline ⊢
    rcases hline with h | h | h <;> simp [h]
  unfold ensureNetwork at h
  split_ifs at h
  · exact .inl h
  · rw [List.append_assoc] at h
    exact (List.mem_append.mp h).imp_right (hadded line)
  · exact (List.mem_append.mp h).imp_right fun h => hadded line (List.mem_cons_of_mem _ h)

theorem promoteOciContent_complete (h : promoteOciContent network content = .ok promoted) :
    ∃ lines, Complete network lines ∧ (∀ line ∈ lines, line ∈ content.lines ∨ line ∈ addedLines network) ∧
      promoted = Text.joinedLines lines ++ (if Text.endsInNewline content then ['\n'] else []) ∧
      promoted.byteLen ≤ maxNspawnContentBytes := by
  have hplain : lasperOciConfigMarker.trim ≠ execHeader ∧ lasperOciConfigMarker.trim ≠ networkHeader :=
    ⟨marker_trim_ne (by decide), marker_trim_ne (by decide)⟩
  unfold promoteOciContent at h
  generalize hmarker : (if content.lines.head? = some lasperOciConfigMarker then [] else [lasperOciConfigMarker]) =
    marker at h
  generalize (if Text.endsInNewline content then ['\n'] else []) = tail at h ⊢
  obtain ⟨rest, hemit, hmem⟩ : ∃ rest, marker ++ emit network false false content.lines =
      emit network false false (lasperOciConfigMarker :: rest) ∧
      ∀ line, line ∈ lasperOciConfigMarker :: rest ↔ line = lasperOciConfigMarker ∨ line ∈ content.lines := by
    split_ifs at hmarker with hhead
    · have hlines := List.cons_head?_tail hhead
      refine ⟨content.lines.tail, by rw [← hmarker, hlines]; rfl, fun line => ?_⟩
      rw [hlines]
      exact ⟨.inr, fun h => h.elim (fun heq => heq ▸ List.mem_of_mem_head? hhead) id⟩
    · exact ⟨content.lines, by rw [← hmarker, emit_marker]; rfl, fun line => List.mem_cons⟩
  have htrimmed : ∀ {header}, lasperOciConfigMarker.trim ≠ header →
      ((∃ line ∈ content.lines, line.trim = header) ↔ ∃ line ∈ rest, line.trim = header) := by
    intro header hne
    have hsame : ∀ line, line.trim = header → (line ∈ content.lines ↔ line ∈ rest) := by
      intro line hline
      have hline : line ≠ lasperOciConfigMarker := fun heq => hne (heq ▸ hline)
      simpa [hline] using (hmem line).symm
    exact exists_congr fun line => and_congr_left (hsame line)
  simp only [foldl_promoteLine, hemit] at h
  split_ifs at h with hexec hsize
  cases h
  have hexec := (htrimmed hplain.1).mp (((foundExec_iff).mp (Bool.not_eq_false _ ▸ hexec)).resolve_left (by simp))
  refine ⟨_, ensureNetwork_complete hexec ?_, fun line hline => ?_, rfl, Nat.not_lt.mp hsize⟩
  · rw [foundNetwork_iff, htrimmed hplain.2]
    simp [hplain.2]
  · rcases mem_ensureNetwork hline with hline | hline
    · rcases mem_emit hline with hline | hline
      · rcases (hmem line).mp hline with rfl | hline
        · exact .inr List.mem_cons_self
        · exact .inl hline
      · right
        simp only [addedLines, List.mem_cons, List.mem_append]
        exact .inr (.inr (.inr hline))
    · exact .inr hline

/-- Complete lines are promoted as they are. -/
theorem promoteOciContent_fixed (hlines : Complete network content.lines)
    (hfixed : emit network false false content.lines = content.lines)
    (hsize : (Text.dropReturns content).byteLen ≤ maxNspawnContentBytes) :
    promoteOciContent network content = .ok (Text.dropReturns content) := by
  have hexec := (@foundExec_iff network content.lines ⟨[], false, false, false, false⟩).mpr (.inr hlines.exec)
  have hnetwork := (@foundNetwork_iff network content.lines ⟨[], false, false, false, false⟩).mpr (.inr hlines.network)
  unfold promoteOciContent
  simp only [hlines.marked, if_true, hexec, hnetwork, foldl_promoteLine, hfixed, List.nil_append, ensureNetwork,
    Text.joinedLines_lines, Bool.true_eq_false, if_false]
  rw [if_neg (Nat.not_lt.mpr hsize)]

theorem Complete.reread (h : Complete network lines) (hagain : List.Forall₂ Reread lines again) :
    Complete network again ∧ emit network false false again = again := by
  obtain ⟨source, hsource⟩ := h.emitted
  have hfixed : emit network false false again = again := emit_reread (hsource ▸ hagain)
  have hheader : ∀ {header}, (∃ line ∈ lines, line.trim = header) → ∃ line ∈ again, line.trim = header := by
    intro header ⟨line, hline, htrim⟩
    obtain ⟨before, after, rfl⟩ := List.append_of_mem hline
    obtain ⟨front, back, rfl, -, hback⟩ := forall₂_append_split hagain
    obtain ⟨other, rest, hother, -, rfl⟩ := List.forall₂_cons_left_iff.mp hback
    exact ⟨other, List.mem_append_right _ List.mem_cons_self, hother.trim.trans htrim⟩
  refine ⟨⟨⟨again, hfixed⟩, ?_, hheader h.exec, hheader h.network⟩, hfixed⟩
  obtain ⟨rest, rfl⟩ := List.head?_eq_some_iff.mp h.marked
  obtain ⟨first, others, hfirst, -, rfl⟩ := List.forall₂_cons_left_iff.mp hagain
  have hsame : [first] = [lasperOciConfigMarker] := reread_eq (.cons hfirst .nil) (by simpa using marker_plain.1)
  rw [List.head_eq_of_cons_eq hsame]
  rfl

theorem Complete.dropLast (h : Complete network (lines ++ [[]])) : Complete network lines := by
  obtain ⟨source, hsource⟩ := h.emitted
  have hheader : ∀ {header}, Text.trim [] ≠ header → (∃ line ∈ lines ++ [[]], line.trim = header) →
      ∃ line ∈ lines, line.trim = header := by
    intro header hne ⟨line, hline, htrim⟩
    rcases List.mem_append.mp hline with hline | hline
    · exact ⟨line, hline, htrim⟩
    · exact absurd (List.mem_singleton.mp hline ▸ htrim) hne
  refine ⟨emit_dropLast hsource, ?_, hheader (by decide) h.exec, hheader (by decide) h.network⟩
  cases lines with
  | nil =>
    have hempty : [] = lasperOciConfigMarker := Option.some.inj h.marked
    exact absurd (hempty ▸ trim_marker) (by decide)
  | cons first rest => exact h.marked

theorem reread_dropReturn (line : Text) : Reread line (Text.dropReturn line) := by
  unfold Text.dropReturn
  split_ifs with hreturn
  · exact .inr (List.dropLast_append_getLast? _ hreturn).symm
  · exact .inl rfl

theorem reread_map (lines : List Text) : List.Forall₂ Reread lines (lines.map Text.dropReturn) :=
  List.forall₂_map_right_iff.mpr (List.forall₂_same.mpr fun line _ => reread_dropReturn line)

theorem addedLines_plain (h : line ∈ addedLines network) : line.getLast? ≠ some '\r' ∧ '\n' ∉ line := by
  simp only [addedLines, List.mem_cons, List.mem_append] at h
  rcases h with rfl | rfl | rfl | h
  · exact marker_plain
  · decide
  · decide
  · exact ⟨(policy_plain line h).1, (policy_plain line h).2.1⟩

/-- How the lines of a promoted configuration are read again. -/
theorem promoteOciContent_reread (h : promoteOciContent network content = .ok promoted) :
    ∃ lines, Complete network lines ∧ List.Forall₂ Reread lines promoted.lines ∧
      ((∀ line ∈ content.lines, line.getLast? ≠ some '\r') → Text.dropReturns promoted = promoted) ∧
      promoted.byteLen ≤ maxNspawnContentBytes := by
  obtain ⟨lines, hcomplete, hmem, hpromoted, hsize⟩ := promoteOciContent_complete h
  have hnewline : ∀ line ∈ lines, '\n' ∉ line := fun line hline =>
    (hmem line hline).elim Text.newline_notMem_lines fun hadded => (addedLines_plain hadded).2
  have hsame : (∀ line ∈ content.lines, line.getLast? ≠ some '\r') →
      ∀ front : List Text, front ⊆ lines → front.map Text.dropReturn = front := by
    intro hplain front hsub
    have hline : ∀ line ∈ front, Text.dropReturn line = line := by
      intro line hline
      unfold Text.dropReturn
      exact if_neg ((hmem line (hsub hline)).elim (hplain line) fun hadded => (addedLines_plain hadded).1)
    exact (List.map_congr_left hline).trans (List.map_id front)
  have hne : lines ≠ [] := by
    rintro rfl
    exact absurd hcomplete.marked nofun
  by_cases htail : Text.endsInNewline content = true
  · rw [if_pos htail, Text.joinedLines_newline hne, ← List.append_nil (Text.terminated lines)] at hpromoted
    refine ⟨lines, hcomplete, ?_, fun hplain => ?_, hsize⟩
    · rw [hpromoted, Text.lines_terminated hnewline List.not_mem_nil, if_pos rfl, List.append_nil]
      exact reread_map lines
    · rw [hpromoted, Text.dropReturns_terminated hnewline List.not_mem_nil, hsame hplain _ (List.Subset.refl _)]
  · obtain ⟨front, last, rfl⟩ := (List.eq_nil_or_concat lines).resolve_left hne
    rw [List.concat_eq_append] at *
    have hfront : ∀ line ∈ front, '\n' ∉ line := fun line hline => hnewline line (List.mem_append_left _ hline)
    have hlast : '\n' ∉ last := hnewline last (List.mem_append_right _ List.mem_cons_self)
    rw [if_neg htail, List.append_nil, Text.joinedLines_concat] at hpromoted
    have hdrop : (∀ line ∈ content.lines, line.getLast? ≠ some '\r') → Text.dropReturns promoted = promoted := by
      intro hplain
      rw [hpromoted, Text.dropReturns_terminated hfront hlast, hsame hplain _ (List.subset_append_left _ _)]
    rw [hpromoted, Text.lines_terminated hfront hlast, ← hpromoted]
    by_cases hempty : last = []
    · subst hempty
      refine ⟨front, hcomplete.dropLast, ?_, hdrop, hsize⟩
      rw [if_pos rfl, List.append_nil]
      exact reread_map front
    · refine ⟨front ++ [last], hcomplete, ?_, hdrop, hsize⟩
      rw [if_neg hempty]
      exact List.rel_append (reread_map front) (.cons (.inl rfl) .nil)

theorem promoteOciContent_again (h : promoteOciContent network content = .ok promoted) :
    promoteOciContent network promoted = .ok (Text.dropReturns promoted) := by
  obtain ⟨lines, hcomplete, hreread, -, hsize⟩ := promoteOciContent_reread h
  obtain ⟨hagain, hfixed⟩ := hcomplete.reread hreread
  exact promoteOciContent_fixed hagain hfixed ((Text.byteLen_dropReturns promoted).trans hsize)

/-- A promoted configuration is promoted to itself, but for the carriage returns before
its newlines, of which every reading takes one. -/
theorem promoteOciContent_promoted (h : promoteOciContent network content = .ok promoted) :
    promoteOciContent network promoted = .ok (Text.dropReturns promoted) ∧
      ((∀ line ∈ content.lines, line.getLast? ≠ some '\r') →
        promoteOciContent network promoted = .ok promoted) := by
  obtain ⟨-, -, -, hplain, -⟩ := promoteOciContent_reread h
  have hagain := promoteOciContent_again h
  exact ⟨hagain, fun hreturns => hagain.trans (congrArg Except.ok (hplain hreturns))⟩

def promotedRun (command : Text) : Text :=
  lasperOciConfigMarker ++ "\n[Exec]\nPrivateUsers=no\n".toList ++ "ResolvConf=bind-host\n".toList ++
    "Parameters=".toList ++ command ++ "\n\n[Network]\nPrivate=no\n".toList ++ "VirtualEthernet=no\n".toList

theorem promoteOciContent_promoted_run :
    promoteOciContent .host (promotedRun "/bin/app".toList) = .ok (promotedRun "/bin/app".toList) :=
  have hpromoted : promoteOciContent .host "[Exec]\nParameters=/bin/app\n".toList =
      .ok (promotedRun "/bin/app".toList) := ok_of_toOption (by decide +kernel)
  (promoteOciContent_promoted hpromoted).2 (by decide +kernel)

/-- One of two carriage returns is left, and goes the next time. -/
theorem promotion_not_idempotent :
    promoteOciContent .host "[Exec]\nParameters=/bin/app\r\r\n".toList = .ok (promotedRun "/bin/app\r".toList) ∧
      promoteOciContent .host (promotedRun "/bin/app\r".toList) ≠ .ok (promotedRun "/bin/app\r".toList) := by
  have hpromoted : promoteOciContent .host "[Exec]\nParameters=/bin/app\r\r\n".toList =
      .ok (promotedRun "/bin/app\r".toList) := ok_of_toOption (by decide +kernel)
  refine ⟨hpromoted, fun h => ?_⟩
  rw [promoteOciContent_again hpromoted] at h
  have hlength := congrArg List.length (Except.ok.inj h)
  exact absurd hlength (by decide +kernel)

end Promoted

end Lasper.Config
