import Lasper.Probe.Protocol

/-! What looking at the received bytes finds, byte by byte: where the header ends, and how
far the lines after it have come. No slice that is taken on the way is out of range. -/

namespace Lasper.Probe

open Lib Lib.Checked Sessions

section Header

variable {magic bytes front : Bytes} {offset start : ℕ}

/-- A header at the offset, and its end. -/
def headerStopAt (magic bytes : Bytes) (offset : ℕ) : Option ℕ :=
  if magic.isPrefixOf (bytes.drop offset) then
    (lineBreak (bytes.drop (offset + magic.length))).map (offset + magic.length + ·)
  else none

/-- The end of the first header. -/
def headerStop (magic bytes : Bytes) : Option ℕ :=
  (List.range (bytes.length + 1 - magic.length)).findSome? (headerStopAt magic bytes)

theorem slice_to_end {xs : Bytes} (h : offset ≤ xs.length) :
    (slice xs offset xs.length : Probing Bytes) = .ok (xs.drop offset) := by
  rw [slice_of_le h le_rfl, List.take_length]

theorem findHeader_eq {offsets : List ℕ} (h : ∀ offset ∈ offsets, offset + magic.length ≤ bytes.length) :
    findHeader magic bytes offsets = .ok (offsets.findSome? (headerStopAt magic bytes)) := by
  induction offsets with
  | nil => rfl
  | cons offset offsets ih =>
    have hfits := h offset List.mem_cons_self
    have hrest := ih fun other hother => h other (List.mem_cons_of_mem _ hother)
    have hwindow : (bytes.take (offset + magic.length)).drop offset = magic ↔
        magic.isPrefixOf (bytes.drop offset) = true := by
      rw [List.isPrefixOf_iff_prefix, List.prefix_iff_eq_take, List.drop_take, Nat.add_sub_cancel_left]
      exact eq_comm
    rw [findHeader, slice_of_le (Nat.le_add_right _ _) hfits, List.findSome?_cons, headerStopAt]
    show (if (bytes.take (offset + magic.length)).drop offset ≠ magic then findHeader magic bytes offsets else _) = _
    by_cases hmagic : magic.isPrefixOf (bytes.drop offset) = true
    · rw [if_neg (not_not.mpr (hwindow.mpr hmagic)), slice_to_end hfits, if_pos hmagic]
      show (lineBreak (bytes.drop (offset + magic.length))).elim _ _ = _
      cases lineBreak (bytes.drop (offset + magic.length)) with
      | none => exact hrest
      | some size => rfl
    · rw [if_pos fun heq => hmagic (hwindow.mp heq), if_neg hmagic]
      exact hrest

theorem findHeader_range (hmagic : magic ≠ []) :
    findHeader magic bytes (List.range (bytes.length + 1 - magic.length)) = .ok (headerStop magic bytes) := by
  apply findHeader_eq
  intro offset hoffset
  have hlength := List.length_pos_iff.mpr hmagic
  have := List.mem_range.mp hoffset
  omega

theorem lineBreak_eq_some_iff {size : ℕ} : lineBreak bytes = some size ↔
    size = 2 ∧ [carriageReturn, newline] <+: bytes ∨ size = 1 ∧ [newline] <+: bytes := by
  unfold lineBreak
  simp only [List.isPrefixOf_iff_prefix]
  split_ifs with hreturn hnewline
  · have hnot : ¬ [newline] <+: bytes := by
      intro hnewline
      rcases List.prefix_or_prefix_of_prefix hreturn hnewline with h | h
      · exact absurd h.length_le (by decide)
      · exact absurd (List.isPrefixOf_iff_prefix.mpr h) (by decide)
    simp [hreturn, hnot, eq_comm]
  · simp [hreturn, hnewline, eq_comm]
  · simp [hreturn, hnewline]

theorem lineBreak_bounds {size : ℕ} (h : lineBreak bytes = some size) :
    1 ≤ size ∧ size ≤ 2 ∧ size ≤ bytes.length := by
  rcases lineBreak_eq_some_iff.mp h with ⟨rfl, hbegin⟩ | ⟨rfl, hbegin⟩
  · exact ⟨by omega, by omega, hbegin.length_le⟩
  · exact ⟨by omega, by omega, hbegin.length_le⟩

/-- Only the bytes of a line ending decide on it. -/
theorem lineBreak_take {size count : ℕ} :
    lineBreak (bytes.take count) = some size ↔ lineBreak bytes = some size ∧ size ≤ count := by
  rw [lineBreak_eq_some_iff, lineBreak_eq_some_iff, List.prefix_take_iff, List.prefix_take_iff]
  simp only [List.length_cons, List.length_nil]
  constructor
  · rintro (⟨rfl, hbegin, hcount⟩ | ⟨rfl, hbegin, hcount⟩)
    · exact ⟨Or.inl ⟨rfl, hbegin⟩, hcount⟩
    · exact ⟨Or.inr ⟨rfl, hbegin⟩, hcount⟩
  · rintro ⟨⟨rfl, hbegin⟩ | ⟨rfl, hbegin⟩, hcount⟩
    · exact Or.inl ⟨rfl, hbegin, hcount⟩
    · exact Or.inr ⟨rfl, hbegin, hcount⟩

theorem headerStopAt_eq_some_iff : headerStopAt magic bytes offset = some start ↔
    magic <+: bytes.drop offset ∧ ∃ size, lineBreak (bytes.drop (offset + magic.length)) = some size ∧
      start = offset + magic.length + size := by
  unfold headerStopAt
  simp only [List.isPrefixOf_iff_prefix]
  split_ifs with hmagic
  · rw [Option.map_eq_some_iff]
    simp only [hmagic, true_and, eq_comm]
  · simp [hmagic]

theorem headerStopAt_bounds (h : headerStopAt magic bytes offset = some start) :
    offset + magic.length < start ∧ start ≤ offset + magic.length + 2 ∧ start ≤ bytes.length := by
  obtain ⟨hmagic, size, hbreak, rfl⟩ := headerStopAt_eq_some_iff.mp h
  have hbounds := lineBreak_bounds hbreak
  rw [List.length_drop] at hbounds
  omega

/-- Only the bytes up to a header's end decide on it. -/
theorem headerStopAt_take {count : ℕ} : headerStopAt magic (bytes.take count) offset = some start ↔
    headerStopAt magic bytes offset = some start ∧ start ≤ count := by
  rw [headerStopAt_eq_some_iff, headerStopAt_eq_some_iff]
  simp only [List.drop_take, lineBreak_take, List.prefix_take_iff]
  constructor
  · rintro ⟨⟨hmagic, hfits⟩, size, ⟨hbreak, hsize⟩, rfl⟩
    have hbounds := lineBreak_bounds hbreak
    exact ⟨⟨hmagic, size, hbreak, rfl⟩, by omega⟩
  · rintro ⟨⟨hmagic, size, hbreak, rfl⟩, hcount⟩
    have hbounds := lineBreak_bounds hbreak
    exact ⟨⟨hmagic, by omega⟩, size, ⟨hbreak, by omega⟩, rfl⟩

theorem headerStop_eq_some_iff : headerStop magic bytes = some start ↔
    ∃ offset, headerStopAt magic bytes offset = some start ∧
      ∀ earlier < offset, headerStopAt magic bytes earlier = none := by
  unfold headerStop
  rw [List.findSome?_eq_some_iff]
  constructor
  · rintro ⟨earlier, offset, later, hsplit, hat, hnone⟩
    have hlength := congrArg List.length hsplit
    simp only [List.length_range, List.length_append, List.length_cons] at hlength
    obtain rfl : offset = earlier.length := by
      have hget := congrArg (·[earlier.length]?) hsplit
      simp only [List.getElem?_append_right le_rfl, Nat.sub_self, List.getElem?_cons_zero] at hget
      rw [List.getElem?_range (by omega)] at hget
      exact (Option.some.inj hget).symm
    refine ⟨_, hat, fun other hother => hnone other ?_⟩
    have hmem : (List.range (bytes.length + 1 - magic.length))[other]? = some other :=
      List.getElem?_range (by omega)
    rw [hsplit, List.getElem?_append_left hother] at hmem
    exact List.mem_of_getElem? hmem
  · rintro ⟨offset, hat, hnone⟩
    have hbounds := headerStopAt_bounds hat
    have hsplit : List.range (bytes.length + 1 - magic.length) = List.range offset ++
        (List.range (bytes.length + 1 - magic.length - offset)).map (offset + ·) := by
      rw [← List.range_add]
      congr 1
      omega
    obtain ⟨count, hcount⟩ : ∃ count, bytes.length + 1 - magic.length - offset = count + 1 :=
      ⟨bytes.length - magic.length - offset, by omega⟩
    rw [hcount, List.range_succ_eq_map, List.map_cons] at hsplit
    exact ⟨_, _, _, hsplit, hat, fun earlier hearlier => hnone earlier (List.mem_range.mp hearlier)⟩

/-- The first header of the bytes so far is the first header. -/
theorem headerStop_take {count : ℕ} : headerStop magic (bytes.take count) = some start ↔
    headerStop magic bytes = some start ∧ start ≤ count := by
  rw [headerStop_eq_some_iff, headerStop_eq_some_iff]
  constructor
  · rintro ⟨offset, hat, hnone⟩
    obtain ⟨hat, hcount⟩ := headerStopAt_take.mp hat
    refine ⟨⟨offset, hat, fun earlier hearlier => ?_⟩, hcount⟩
    -- an earlier header would end no later, so it would have been seen
    cases hother : headerStopAt magic bytes earlier with
    | none => rfl
    | some other =>
      have hbounds := headerStopAt_bounds hat
      have hothers := headerStopAt_bounds hother
      have hseen : headerStopAt magic (bytes.take count) earlier = some other :=
        headerStopAt_take.mpr ⟨hother, by omega⟩
      rw [hnone earlier hearlier] at hseen
      cases hseen
  · rintro ⟨⟨offset, hat, hnone⟩, hcount⟩
    refine ⟨offset, headerStopAt_take.mpr ⟨hat, hcount⟩, fun earlier hearlier => ?_⟩
    cases hother : headerStopAt magic (bytes.take count) earlier with
    | none => rfl
    | some other =>
      have hseen := hnone earlier hearlier
      rw [(headerStopAt_take.mp hother).1] at hseen
      exact hseen

theorem headerStop_le (h : headerStop magic bytes = some start) : start ≤ bytes.length := by
  obtain ⟨offset, hat, -⟩ := headerStop_eq_some_iff.mp h
  exact (headerStopAt_bounds hat).2.2

end Header

section Lines

/-- How far the lines after the header have come: lines that are done and the beginning of
another, a line that is too long, or the result. -/
inductive Scan
  | within (done line : Bytes)
  | overlong
  | closed (body result : Bytes) (size : ℕ)
  deriving DecidableEq

def Scan.endLine (done line : Bytes) : Scan :=
  if maxProbeLineBytes < (stripReturn line).length then .overlong
  else (stripResult (stripReturn line)).elim (.within (done ++ line ++ [newline]) []) fun result =>
    .closed done result (done.length + line.length + 1)

def Scan.step : Scan → UInt8 → Scan
  | .within done line, byte => if byte = newline then .endLine done line else .within done (line ++ [byte])
  | scan, _ => scan

/-- The lines among the bytes after a header. -/
def scan (bytes : Bytes) : Scan := bytes.foldl Scan.step (.within [] [])

variable {done line rest bytes more : Bytes}

theorem foldl_step_line (h : newline ∉ rest) : rest.foldl Scan.step (.within done line) = .within done (line ++ rest) := by
  induction rest generalizing line with
  | nil => simp
  | cons byte rest ih =>
    rw [List.mem_cons, not_or] at h
    rw [List.foldl_cons, Scan.step, if_neg (Ne.symm h.1), ih h.2, List.append_assoc, List.singleton_append]

theorem foldl_step_stopped {stopped : Scan} (h : ∀ done line, stopped ≠ .within done line) :
    rest.foldl Scan.step stopped = stopped := by
  induction rest with
  | nil => rfl
  | cons byte rest ih =>
    have hstep : stopped.step byte = stopped := by
      cases stopped with
      | within done line => exact absurd rfl (h done line)
      | overlong => rfl
      | closed body result size => rfl
    rw [List.foldl_cons, hstep, ih]

@[simp] theorem foldl_step_overlong : rest.foldl Scan.step .overlong = .overlong := foldl_step_stopped nofun

@[simp] theorem foldl_step_closed {body result : Bytes} {size : ℕ} :
    rest.foldl Scan.step (.closed body result size) = .closed body result size := foldl_step_stopped nofun

theorem scan_append : scan (bytes ++ more) = more.foldl Scan.step (scan bytes) := List.foldl_append

theorem foldl_step_endLine (h : newline ∉ line) :
    (line ++ newline :: rest).foldl Scan.step (.within done []) = rest.foldl Scan.step (.endLine done line) := by
  rw [List.foldl_append, foldl_step_line h, List.foldl_cons, List.nil_append, Scan.step, if_pos rfl]

/-- What was scanned is still there. -/
theorem scan_within (h : scan bytes = .within done line) : bytes = done ++ line ∧ newline ∉ line := by
  induction bytes using List.reverseRecOn generalizing done line with
  | nil =>
    cases h
    exact ⟨rfl, List.not_mem_nil⟩
  | append_singleton bytes byte ih =>
    rw [scan_append, List.foldl_cons, List.foldl_nil] at h
    cases hscan : scan bytes with
    | within before partly =>
      obtain ⟨rfl, hpartly⟩ := ih hscan
      rw [hscan, Scan.step] at h
      split_ifs at h with hbyte
      · unfold Scan.endLine at h
        split_ifs at h
        cases hresult : stripResult (stripReturn partly) with
        | none =>
          rw [hresult] at h
          cases h
          rw [hbyte]
          exact ⟨by simp, List.not_mem_nil⟩
        | some result =>
          rw [hresult] at h
          cases h
      · cases h
        exact ⟨by simp, by simp [hpartly, Ne.symm hbyte]⟩
    | overlong =>
      rw [hscan] at h
      cases h
    | closed body result size =>
      rw [hscan] at h
      cases h

/-- A line that may stand before the result. -/
structure PlainLine (line : Bytes) : Prop where
  newline : newline ∉ line
  short : (stripReturn line).length ≤ maxProbeLineBytes
  noResult : stripResult (stripReturn line) = none

def unlines (lines : List Bytes) : Bytes := lines.flatMap (· ++ [newline])

/-- The bytes are these lines and the result line, and whatever comes after it. -/
def ClosedBy (bytes body result : Bytes) (size : ℕ) : Prop :=
  ∃ lines line later, body = unlines lines ∧ (∀ plain ∈ lines, PlainLine plain) ∧ newline ∉ line ∧
    (stripReturn line).length ≤ maxProbeLineBytes ∧ stripResult (stripReturn line) = some result ∧
    bytes = body ++ line ++ newline :: later ∧ size = body.length + line.length + 1

/-- What a scan says about the bytes. -/
def Scan.Explains (bytes : Bytes) : Scan → Prop
  | .within done _ => ∃ lines, done = unlines lines ∧ ∀ plain ∈ lines, PlainLine plain
  | .overlong => True
  | .closed body result size => ClosedBy bytes body result size

theorem explains_scan (bytes : Bytes) : (scan bytes).Explains bytes := by
  induction bytes using List.reverseRecOn with
  | nil => exact ⟨[], rfl, nofun⟩
  | append_singleton bytes byte ih =>
    rw [scan_append, List.foldl_cons, List.foldl_nil]
    cases hscan : scan bytes with
    | within done line =>
      obtain ⟨hbytes, hline⟩ := scan_within hscan
      rw [hscan] at ih
      obtain ⟨lines, hdone, hplain⟩ := ih
      rw [Scan.step]
      split_ifs with hbyte
      · unfold Scan.endLine
        split_ifs with hlong
        · trivial
        · cases hresult : stripResult (stripReturn line) with
          | none =>
            refine ⟨lines ++ [line], by simp [hdone, unlines], fun plain hmem => ?_⟩
            rcases List.mem_append.mp hmem with hmem | hmem
            · exact hplain plain hmem
            · rw [List.mem_singleton.mp hmem]
              exact ⟨hline, by omega, hresult⟩
          | some result =>
            exact ⟨lines, line, [], hdone, hplain, hline, by omega, hresult, by rw [hbytes, hbyte], rfl⟩
      · exact ⟨lines, hdone, hplain⟩
    | overlong => trivial
    | closed body result size =>
      rw [hscan] at ih
      obtain ⟨lines, line, later, hbody, hplain, hline, hshort, hresult, hbytes, hsize⟩ := ih
      exact ⟨lines, line, later ++ [byte], hbody, hplain, hline, hshort, hresult, by simp [hbytes], hsize⟩

theorem foldl_step_unlines {lines : List Bytes} (h : ∀ plain ∈ lines, PlainLine plain) :
    (unlines lines ++ rest).foldl Scan.step (.within done []) =
      rest.foldl Scan.step (.within (done ++ unlines lines) []) := by
  induction lines generalizing done with
  | nil => simp [unlines]
  | cons line lines ih =>
    have hplain := h line List.mem_cons_self
    have hsplit : unlines (line :: lines) ++ rest = line ++ newline :: (unlines lines ++ rest) := by simp [unlines]
    rw [hsplit, foldl_step_endLine hplain.newline, Scan.endLine, if_neg (Nat.not_lt.mpr hplain.short),
      hplain.noResult, Option.elim_none, ih fun other hother => h other (List.mem_cons_of_mem _ hother)]
    simp [unlines]

theorem scan_closed_iff {body result : Bytes} {size : ℕ} :
    scan bytes = .closed body result size ↔ ClosedBy bytes body result size := by
  constructor
  · intro h
    have hexplained := explains_scan bytes
    rw [h] at hexplained
    exact hexplained
  · rintro ⟨lines, line, later, rfl, hplain, hline, hshort, hresult, rfl, rfl⟩
    rw [scan, List.append_assoc, foldl_step_unlines hplain, foldl_step_endLine hline, List.nil_append, Scan.endLine,
      if_neg (Nat.not_lt.mpr hshort), hresult, Option.elim_some, foldl_step_closed]

theorem findIdx?_newline (rest : Bytes) :
    rest.findIdx? (· = newline) = none ∧ newline ∉ rest ∨
      ∃ line later, rest = line ++ newline :: later ∧ newline ∉ line ∧
        rest.findIdx? (· = newline) = some line.length := by
  by_cases h : newline ∈ rest
  · obtain ⟨line, later, rfl, hline⟩ := List.eq_append_cons_of_mem h
    have hnone : line.findIdx? (· = newline) = none := by
      rw [List.findIdx?_eq_none_iff]
      intro byte hbyte
      exact decide_eq_false fun heq => hline (heq ▸ hbyte)
    refine Or.inr ⟨line, later, rfl, hline, ?_⟩
    rw [List.findIdx?_append, hnone, List.findIdx?_cons]
    simp
  · refine Or.inl ⟨?_, h⟩
    rw [List.findIdx?_eq_none_iff]
    intro byte hbyte
    exact decide_eq_false fun heq => h (heq ▸ hbyte)

/-- What the loop over the lines gives. -/
def ProbeProtocol.ofScan (p : ProbeProtocol) : Scan → Probing (CompleteFrame ⊕ ℕ)
  | .within done _ => .ok (.inr done.length)
  | .overlong => report (p.error exceededLine)
  | .closed body result size => .ok (.inl ⟨body, result, size⟩)

theorem scanLines_eq (p : ProbeProtocol) (done rest : Bytes) {fuel : ℕ} (hfuel : rest.length < fuel) :
    p.scanLines (done ++ rest) fuel done.length = p.ofScan (rest.foldl Scan.step (.within done [])) := by
  induction fuel generalizing done rest with
  | zero => omega
  | succ fuel ih =>
    rw [ProbeProtocol.scanLines, slice_to_end (by simp), List.drop_left]
    show (rest.findIdx? (· = newline)).elim _ _ = _
    rcases findIdx?_newline rest with ⟨hnone, hfree⟩ | ⟨line, later, rfl, hline, hsome⟩
    · rw [hnone, foldl_step_line hfree]
      rfl
    · have hraw : ((done ++ (line ++ newline :: later)).take (done.length + line.length)).drop done.length = line := by
        simp [List.take_append, List.take_of_length_le]
      have hbefore : (slice (done ++ (line ++ newline :: later)) 0 done.length : Probing Bytes) = .ok done := by
        rw [slice_of_le (Nat.zero_le _) (by simp), List.take_left, List.drop_zero]
      rw [hsome, foldl_step_endLine hline, Option.elim_some, slice_of_le (Nat.le_add_right _ _) (by simp), hraw]
      show (if maxProbeLineBytes < (stripReturn line).length then _ else _) = _
      unfold Scan.endLine
      split_ifs with hlong
      · rw [foldl_step_overlong]
        rfl
      · cases stripResult (stripReturn line) with
        | none =>
          have hdone : (done ++ line ++ [newline]).length = done.length + line.length + 1 := by simp [Nat.add_assoc]
          have hsplit : done ++ (line ++ newline :: later) = (done ++ line ++ [newline]) ++ later := by simp
          have hlater : later.length < fuel := by
            simp only [List.length_append, List.length_cons] at hfuel
            omega
          rw [Option.elim_none, Option.elim_none, ← ih _ later hlater, hdone, hsplit]
        | some result =>
          rw [Option.elim_some, Option.elim_some, foldl_step_closed, hbefore]
          rfl

end Lines

section Frames

variable (p : ProbeProtocol) {bytes : Bytes}

/-- What is known from the lines after a header that ends at `start`. -/
def ProbeProtocol.verdict (start size : ℕ) : Scan → Except SessionError (Option CompleteFrame)
  | .within _ line =>
    if maxProbeLineBytes < line.length then .error (p.error exceededLine)
    else if size = p.maximumOutput then .error (p.error exceededOutput)
    else .ok none
  | .overlong => .error (p.error exceededLine)
  | .closed body result length => .ok (some ⟨body, result, start + length⟩)

/-- What is known from the bytes received so far. -/
def ProbeProtocol.framing (bytes : Bytes) : Except SessionError (Option CompleteFrame) :=
  match headerStop p.magic bytes with
  | none => if bytes.length = p.maximumOutput then .error (p.error exceededOutput) else .ok none
  | some start => p.verdict start bytes.length (scan (bytes.drop start))

theorem frame_eq (h : bytes.length ≤ p.maximumOutput) :
    p.frame bytes = (p.framing bytes).mapError .reported := by
  have hself : (slice bytes 0 (min bytes.length p.maximumOutput) : Probing Bytes) = .ok bytes := by
    rw [slice_of_le (Nat.zero_le _) (min_le_left _ _), Nat.min_eq_left h, List.take_length, List.drop_zero]
  rw [ProbeProtocol.frame, bind_of_ok hself, findHeader_range p.magic_ne_nil, bind_of_ok rfl, ProbeProtocol.framing]
  cases hheader : headerStop p.magic bytes with
  | none =>
    rw [Option.elim_none]
    split_ifs <;> rfl
  | some start =>
    have hbody : (slice bytes start bytes.length : Probing Bytes) = .ok (bytes.drop start) :=
      slice_to_end (headerStop_le hheader)
    have hlines := scanLines_eq p [] (bytes.drop start) (Nat.lt_succ_self _)
    rw [List.nil_append, List.length_nil] at hlines
    rw [Option.elim_some, bind_of_ok hbody, hlines]
    change (p.ofScan (scan (bytes.drop start)) >>= _) = (p.verdict start bytes.length (scan (bytes.drop start))).mapError _
    cases hscan : scan (bytes.drop start) with
    | within done line =>
      have hlength : (bytes.drop start).length - done.length = line.length := by
        rw [(scan_within hscan).1, List.length_append, Nat.add_sub_cancel_left]
      show (if maxProbeLineBytes < (bytes.drop start).length - done.length then _ else _) = _
      rw [hlength, ProbeProtocol.verdict]
      split_ifs <;> rfl
    | overlong => rfl
    | closed body result size => rfl

end Frames

end Lasper.Probe
