import Lasper.Probe.Scan

/-! The answer of a probe does not depend on how its bytes were cut into chunks, except
where a line of exactly the greatest length ends in a carriage return and a newline: cut
between the two, the carriage return makes it too long. -/

namespace Lasper.Probe

open Lib Lib.Checked Sessions

section Prefixes

variable {bytes more body result : Bytes} {size count start : ℕ}

theorem scan_closed (h : scan bytes = .closed body result size) :
    size ≤ bytes.length ∧ scan (bytes.take size) = .closed body result size := by
  induction bytes using List.reverseRecOn with
  | nil => cases h
  | append_singleton bytes byte ih =>
    have hscan := h
    rw [scan_append, List.foldl_cons, List.foldl_nil] at h
    cases hbefore : scan bytes with
    | within done line =>
      rw [hbefore, Scan.step] at h
      split_ifs at h
      unfold Scan.endLine at h
      split_ifs at h
      cases hresult : stripResult (stripReturn line) with
      | none =>
        rw [hresult] at h
        cases h
      | some found =>
        rw [hresult] at h
        cases h
        have hall : (bytes ++ [byte]).length = body.length + line.length + 1 := by
          simp [(scan_within hbefore).1, Nat.add_assoc]
        refine ⟨hall.ge, ?_⟩
        rw [← hall, List.take_length, hall]
        exact hscan
    | overlong =>
      rw [hbefore] at h
      cases h
    | closed other found length =>
      rw [hbefore] at h
      cases h
      obtain ⟨hsize, hclosed⟩ := ih hbefore
      rw [List.take_append_of_le_length hsize]
      exact ⟨by simp; omega, hclosed⟩

theorem scan_take_closed (h : scan bytes = .closed body result size) (hcount : size ≤ count) :
    scan (bytes.take count) = .closed body result size := by
  obtain ⟨hsize, hclosed⟩ := scan_closed h
  have hsplit : bytes.take count = bytes.take size ++ (bytes.drop size).take (count - size) := by
    rw [← List.take_add, Nat.add_sub_cancel' hcount]
  rw [hsplit, scan_append, hclosed, foldl_step_closed]

theorem scan_closed_append (h : scan bytes = .closed body result size) :
    scan (bytes ++ more) = .closed body result size := by
  rw [scan_append, h, foldl_step_closed]

end Prefixes

section Framing

variable {p : ProbeProtocol} {bytes stream : Bytes} {count : ℕ} {f : CompleteFrame} {e : SessionError}

theorem framing_some_iff : p.framing bytes = .ok (some f) ↔
    ∃ start size, headerStop p.magic bytes = some start ∧ scan (bytes.drop start) = .closed f.body f.result size ∧
      f.stop = start + size := by
  unfold ProbeProtocol.framing
  cases hheader : headerStop p.magic bytes with
  | none =>
    constructor
    · intro h
      dsimp only at h
      split_ifs at h
      cases h
    · rintro ⟨start, size, hnone, -⟩
      cases hnone
  | some start =>
    unfold ProbeProtocol.verdict
    constructor
    · intro h
      dsimp only at h
      cases hscan : scan (bytes.drop start) with
      | within done line =>
        rw [hscan] at h
        dsimp only at h
        split_ifs at h
        cases h
      | overlong =>
        rw [hscan] at h
        cases h
      | closed body result size =>
        rw [hscan] at h
        cases h
        exact ⟨start, size, rfl, hscan, rfl⟩
    · rintro ⟨other, size, hother, hscan, hstop⟩
      cases hother
      dsimp only
      rw [hscan]
      show Except.ok (some (CompleteFrame.mk f.body f.result (start + size))) = _
      rw [← hstop]

/-- A complete answer is found as soon as its bytes are there, and stays. -/
theorem framing_take_some_iff : p.framing (bytes.take count) = .ok (some f) ↔
    p.framing bytes = .ok (some f) ∧ f.stop ≤ count := by
  rw [framing_some_iff, framing_some_iff]
  constructor
  · rintro ⟨start, size, hheader, hscan, hstop⟩
    obtain ⟨hheader, hstart⟩ := headerStop_take.mp hheader
    rw [List.drop_take] at hscan
    have hsize := (scan_closed hscan).1
    rw [List.length_take] at hsize
    refine ⟨⟨start, size, hheader, ?_, hstop⟩, by omega⟩
    have happend : scan ((bytes.drop start).take (count - start) ++ (bytes.drop start).drop (count - start)) = _ :=
      scan_closed_append hscan
    rwa [List.take_append_drop] at happend
  · rintro ⟨⟨start, size, hheader, hscan, hstop⟩, hcount⟩
    refine ⟨start, size, headerStop_take.mpr ⟨hheader, by omega⟩, ?_, hstop⟩
    rw [List.drop_take]
    exact scan_take_closed hscan (by omega)

/-- A line before the result is too long. -/
def ProbeProtocol.TooLong (p : ProbeProtocol) (bytes : Bytes) : Prop :=
  ∃ start, headerStop p.magic bytes = some start ∧ (scan (bytes.drop start) = .overlong ∨
    ∃ done line, scan (bytes.drop start) = .within done line ∧ maxProbeLineBytes < line.length)

/-- A line before the result, or that of the result, is as long as it may be, and ends in a
carriage return and a newline. -/
def ProbeProtocol.EdgeLine (p : ProbeProtocol) (bytes : Bytes) : Prop :=
  ∃ start done line more, headerStop p.magic bytes = some start ∧
    bytes.drop start = done ++ (line ++ [carriageReturn]) ++ newline :: more ∧
    scan (done ++ (line ++ [carriageReturn])) = .within done (line ++ [carriageReturn]) ∧
    line.length = maxProbeLineBytes

theorem framing_tooLong_of_error (h : p.framing bytes = .error e) (hlength : bytes.length < p.maximumOutput) :
    e = p.error exceededLine ∧ p.TooLong bytes := by
  unfold ProbeProtocol.framing at h
  cases hheader : headerStop p.magic bytes with
  | none =>
    rw [hheader] at h
    dsimp only at h
    rw [if_neg (by omega)] at h
    cases h
  | some start =>
    rw [hheader] at h
    dsimp only at h
    cases hscan : scan (bytes.drop start) with
    | within done line =>
      rw [hscan, ProbeProtocol.verdict] at h
      split_ifs at h with hlong hfull
      · cases h
        exact ⟨rfl, start, hheader, Or.inr ⟨done, line, hscan, hlong⟩⟩
      · omega
    | overlong =>
      rw [hscan] at h
      cases h
      exact ⟨rfl, start, hheader, Or.inl hscan⟩
    | closed body result size =>
      rw [hscan] at h
      cases h

theorem framing_of_tooLong (h : p.TooLong bytes) : p.framing bytes = .error (p.error exceededLine) := by
  obtain ⟨start, hheader, hscan | ⟨done, line, hscan, hlong⟩⟩ := h
  · rw [ProbeProtocol.framing, hheader]
    dsimp only
    rw [hscan]
    rfl
  · rw [ProbeProtocol.framing, hheader]
    dsimp only
    rw [hscan, ProbeProtocol.verdict, if_pos hlong]

theorem stripReturn_edge {line : Bytes} (hlong : maxProbeLineBytes < line.length)
    (hshort : ¬ maxProbeLineBytes < (stripReturn line).length) :
    ∃ front, line = front ++ [carriageReturn] ∧ front.length = maxProbeLineBytes := by
  unfold stripReturn at hshort
  split_ifs at hshort with hlast
  · obtain ⟨front, hfront⟩ := List.getLast?_eq_some_iff.mp hlast
    refine ⟨front, hfront, ?_⟩
    rw [hfront, List.length_append, List.length_singleton] at hlong
    rw [hfront, List.dropLast_concat] at hshort
    omega
  · exact absurd hlong hshort

/-- What is too long so far is too long in the end, but for one carriage return. -/
theorem tooLong_of_take (h : p.TooLong (bytes.take count)) : p.TooLong bytes ∨ p.EdgeLine bytes := by
  obtain ⟨start, hheader, hscan⟩ := h
  obtain ⟨hheader, hstart⟩ := headerStop_take.mp hheader
  have hsplit : bytes.drop start = (bytes.take count).drop start ++ (bytes.drop start).drop (count - start) := by
    rw [List.drop_take, List.take_append_drop]
  have hall := @scan_append ((bytes.take count).drop start) ((bytes.drop start).drop (count - start))
  rw [← hsplit] at hall
  rcases hscan with hscan | ⟨done, line, hscan, hlong⟩
  · rw [hscan, foldl_step_overlong] at hall
    exact Or.inl ⟨start, hheader, Or.inl hall⟩
  · rw [hscan] at hall
    generalize (bytes.drop start).drop (count - start) = later at hall hsplit
    rcases findIdx?_newline later with ⟨-, hfree⟩ | ⟨front, rest, rfl, hfree, -⟩
    · rw [foldl_step_line hfree] at hall
      exact Or.inl ⟨start, hheader, Or.inr ⟨done, line ++ later, hall, by simp; omega⟩⟩
    · have hfront : scan ((bytes.take count).drop start ++ front) = .within done (line ++ front) := by
        rw [scan_append, hscan, foldl_step_line hfree]
      rw [List.foldl_append, foldl_step_line hfree, List.foldl_cons, Scan.step, if_pos rfl, Scan.endLine] at hall
      by_cases hshort : maxProbeLineBytes < (stripReturn (line ++ front)).length
      · rw [if_pos hshort, foldl_step_overlong] at hall
        exact Or.inl ⟨start, hheader, Or.inl hall⟩
      · obtain ⟨full, hfull, hlength⟩ := stripReturn_edge (by simp; omega) hshort
        have hbytes := (scan_within hfront).1
        rw [hfull] at hfront hbytes
        rw [hbytes] at hfront
        refine Or.inr ⟨start, done, full, rest, hheader, ?_, hfront, hlength⟩
        rw [hsplit, ← hbytes]
        simp

/-- Cut before the newline, such a line is too long. -/
theorem exists_tooLong_of_edgeLine (h : p.EdgeLine bytes) : ∃ count < bytes.length, p.TooLong (bytes.take count) := by
  obtain ⟨start, done, line, more, hheader, hbytes, hscan, hlength⟩ := h
  have htotal := congrArg List.length hbytes
  simp only [List.length_drop, List.length_append, List.length_cons, List.length_nil] at htotal
  refine ⟨start + (done ++ (line ++ [carriageReturn])).length, ?_, start, ?_,
    Or.inr ⟨done, line ++ [carriageReturn], ?_, ?_⟩⟩
  · simp only [List.length_append, List.length_cons, List.length_nil]
    omega
  · exact headerStop_take.mpr ⟨hheader, Nat.le_add_right _ _⟩
  · rw [List.drop_take, Nat.add_sub_cancel_left, hbytes, List.take_left]
    exact hscan
  · rw [List.length_append, hlength]
    exact Nat.lt_succ_self _

end Framing

section Conclusions

variable (p : ProbeProtocol)

/-- It fails only with a report, and never with one about a line. -/
def ProbeProtocol.Concludes {α : Type} (x : Probing α) : Prop :=
  ∀ fault, x = .error fault → ∃ detail, fault = .reported (p.error detail) ∧ detail.toList.head? ≠ some 'l'

variable {p} {α β : Type} {x : Probing α} {f : α → Probing β}

theorem concludes_ok (a : α) : p.Concludes (.ok a : Probing α) := nofun

theorem concludes_report {detail : String} (h : detail.toList.head? ≠ some 'l') :
    p.Concludes (report (p.error detail) : Probing α) := by
  rintro fault ⟨⟩
  exact ⟨detail, rfl, h⟩

theorem concludes_bind (hx : p.Concludes x) (hf : ∀ a, p.Concludes (f a)) : p.Concludes (x >>= f) := by
  cases x with
  | ok a => exact hf a
  | error fault =>
    rintro other ⟨⟩
    exact hx fault rfl

theorem concludes_parseFields (lines : List Bytes) (fields : Fields) : p.Concludes (p.parseFields lines fields) := by
  induction lines generalizing fields with
  | nil => exact concludes_ok fields
  | cons raw lines ih =>
    rw [ProbeProtocol.parseFields]
    dsimp only
    split_ifs with hempty
    · exact ih fields
    · cases (stripReturn raw).findIdx? (· = 61) with
      | none => exact concludes_report (by decide)
      | some separator =>
        rw [Option.elim_some]
        split_ifs with hrepeated
        · exact concludes_report (by simp [String.toList_append])
        · exact ih _

theorem concludes_required (fields : Fields) (key : Bytes) : p.Concludes (p.required fields key) := by
  unfold ProbeProtocol.required
  cases fields.findIdx? (·.1 = key) with
  | none => exact concludes_report (by simp [String.toList_append])
  | some index => exact concludes_ok _

theorem concludes_finish (fields : Fields) : p.Concludes (p.finish fields) := by
  cases fields with
  | nil => exact concludes_ok ()
  | cons field fields => exact concludes_report (by simp [String.toList_append])

theorem concludes_conclude (complete : CompleteFrame) : p.Concludes (p.conclude complete) := by
  unfold ProbeProtocol.conclude
  apply concludes_bind (concludes_parseFields _ _)
  intro fields
  split_ifs with hready herror
  · exact concludes_ok fields
  · apply concludes_bind (concludes_required _ _)
    rintro ⟨reason, others⟩
    apply concludes_bind (concludes_finish others)
    intro _
    exact concludes_report (by simp [String.toList_append])
  · exact concludes_report (by decide)

theorem error_inj {detail other : String} (h : p.error detail = p.error other) : detail = other := by
  have hmessage : p.label ++ " " ++ detail = p.label ++ " " ++ other := congrArg SessionError.message h
  have hlist := congrArg String.toList hmessage
  rw [String.toList_append, String.toList_append (t := other)] at hlist
  exact String.ext (List.append_cancel_left hlist)

theorem Concludes.ne_exceededLine (h : p.Concludes x) : x ≠ report (p.error exceededLine) := by
  intro hx
  obtain ⟨detail, hfault, hhead⟩ := h _ hx
  have hdetail : exceededLine = detail := error_inj (Fault.reported.inj hfault)
  rw [← hdetail] at hhead
  exact hhead rfl

end Conclusions

section Reading

variable (p : ProbeProtocol)

/-- What the bytes up to the limit say. -/
def ProbeProtocol.reading (stream : Bytes) : Probing Fields :=
  let bytes := stream.take p.maximumOutput
  match p.framing bytes with
  | .error e => report e
  | .ok none => report (p.incomplete bytes)
  | .ok (some complete) => p.conclude complete

/-- The first header line that is complete, and the first complete result line after it. -/
def ProbeProtocol.FirstAnswer (bytes : Bytes) (complete : CompleteFrame) : Prop :=
  ∃ offset start size, headerStopAt p.magic bytes offset = some start ∧
    (∀ earlier < offset, headerStopAt p.magic bytes earlier = none) ∧
    ClosedBy (bytes.drop start) complete.body complete.result size ∧ complete.stop = start + size

variable {p} {bytes stream : Bytes} {complete : CompleteFrame} {e : SessionError}

theorem firstAnswer_iff : p.FirstAnswer bytes complete ↔ p.framing bytes = .ok (some complete) := by
  rw [framing_some_iff]
  constructor
  · rintro ⟨offset, start, size, hat, hnone, hclosed, hstop⟩
    exact ⟨start, size, headerStop_eq_some_iff.mpr ⟨offset, hat, hnone⟩, scan_closed_iff.mpr hclosed, hstop⟩
  · rintro ⟨start, size, hheader, hscan, hstop⟩
    obtain ⟨offset, hat, hnone⟩ := headerStop_eq_some_iff.mp hheader
    exact ⟨offset, start, size, hat, hnone, scan_closed_iff.mp hscan, hstop⟩

theorem parse_eq (h : bytes.length ≤ p.maximumOutput) : p.parse bytes = p.reading bytes := by
  rw [ProbeProtocol.parse, frame_eq p h, ProbeProtocol.reading, List.take_of_length_le h]
  cases p.framing bytes with
  | error e => rfl
  | ok found =>
    cases found with
    | none => rfl
    | some complete => rfl

/-- No byte after the answer has an effect. -/
theorem reading_of_firstAnswer (h : p.FirstAnswer (stream.take p.maximumOutput) complete) (later : Bytes) :
    p.reading (stream.take complete.stop ++ later) = p.conclude complete := by
  rw [firstAnswer_iff, framing_take_some_iff] at h
  obtain ⟨hframing, hlimit⟩ := h
  have hbegin : p.framing (stream.take complete.stop) = .ok (some complete) :=
    framing_take_some_iff.mpr ⟨hframing, le_rfl⟩
  have hstop : complete.stop ≤ (stream.take complete.stop).length := by
    rw [← List.take_length (l := stream.take complete.stop), framing_take_some_iff] at hbegin
    exact hbegin.2
  have hself : (stream.take complete.stop ++ later).take complete.stop = stream.take complete.stop := by
    rw [List.take_append_of_le_length hstop, List.take_take, Nat.min_self]
  have hall : p.framing (stream.take complete.stop ++ later) = .ok (some complete) := by
    rw [← hself, framing_take_some_iff] at hbegin
    exact hbegin.1
  rw [ProbeProtocol.reading, framing_take_some_iff.mpr ⟨hall, hlimit⟩]

theorem reading_error (h : ∀ complete, ¬ p.FirstAnswer (stream.take p.maximumOutput) complete) :
    ∃ e, p.reading stream = report e := by
  unfold ProbeProtocol.reading
  dsimp only
  cases hframing : p.framing (stream.take p.maximumOutput) with
  | error e => exact ⟨e, rfl⟩
  | ok found =>
    cases found with
    | none => exact ⟨_, rfl⟩
    | some complete => exact absurd (firstAnswer_iff.mpr hframing) (h complete)

theorem reading_faultless : p.reading stream ≠ .error .panicked ∧ p.reading stream ≠ .error .exhausted := by
  have hreports : ∀ fault, p.reading stream = .error fault → ∃ e, fault = .reported e := by
    intro fault h
    unfold ProbeProtocol.reading at h
    dsimp only at h
    cases hframing : p.framing (stream.take p.maximumOutput) with
    | error e =>
      rw [hframing] at h
      exact ⟨e, (Except.error.inj h).symm⟩
    | ok found =>
      rw [hframing] at h
      cases found with
      | none => exact ⟨_, (Except.error.inj h).symm⟩
      | some complete =>
        obtain ⟨detail, hfault, -⟩ := concludes_conclude complete fault h
        exact ⟨_, hfault⟩
  constructor
  · intro h
    obtain ⟨e, he⟩ := hreports _ h
    cases he
  · intro h
    obtain ⟨e, he⟩ := hreports _ h
    cases he

/-- It says a line is too long only if one is. -/
theorem tooLong_of_reading (h : p.reading stream = report (p.error exceededLine)) :
    p.TooLong (stream.take p.maximumOutput) := by
  unfold ProbeProtocol.reading at h
  dsimp only at h
  cases hframing : p.framing (stream.take p.maximumOutput) with
  | error e =>
    rw [hframing] at h
    have he : e = p.error exceededLine := Fault.reported.inj (Except.error.inj h)
    rw [he, ProbeProtocol.framing] at hframing
    have hother : p.error exceededOutput ≠ p.error exceededLine := fun heq => absurd (error_inj heq) (by decide)
    cases hheader : headerStop p.magic (stream.take p.maximumOutput) with
    | none =>
      rw [hheader] at hframing
      dsimp only at hframing
      split_ifs at hframing
      exact absurd (Except.error.inj hframing) hother
    | some start =>
      rw [hheader] at hframing
      dsimp only at hframing
      cases hscan : scan ((stream.take p.maximumOutput).drop start) with
      | within done line =>
        rw [hscan, ProbeProtocol.verdict] at hframing
        split_ifs at hframing with hlong hfull
        · exact ⟨start, hheader, Or.inr ⟨done, line, hscan, hlong⟩⟩
        · exact absurd (Except.error.inj hframing) hother
      | overlong => exact ⟨start, hheader, Or.inl hscan⟩
      | closed body result size =>
        rw [hscan] at hframing
        cases hframing
  | ok found =>
    rw [hframing] at h
    cases found with
    | none =>
      have hother : p.incomplete (stream.take p.maximumOutput) ≠ p.error exceededLine := by
        intro heq
        have hdetail := congrArg (fun text => text.toList.head?) (error_inj heq)
        simp [String.toList_append, exceededLine] at hdetail
      exact absurd (Fault.reported.inj (Except.error.inj h)) hother
    | some complete => exact absurd h (Concludes.ne_exceededLine (concludes_conclude complete))

theorem reading_of_tooLong (h : p.TooLong (stream.take p.maximumOutput)) :
    p.reading stream = report (p.error exceededLine) := by
  rw [ProbeProtocol.reading, framing_of_tooLong h]

end Reading

section Chunks

variable {p : ProbeProtocol} {bytes : Bytes} {chunks : List Bytes}

/-- How collecting ends: the answer is complete, or will not be, after some of the bytes; or
all chunks were taken. -/
inductive Collected (p : ProbeProtocol) (all : Bytes) : Probing Bytes → Prop
  | failed (count : ℕ) (e : SessionError) (h : p.framing (all.take count) = .error e) : Collected p all (report e)
  | complete (count : ℕ) (f : CompleteFrame) (h : p.framing (all.take count) = .ok (some f)) :
    Collected p all (.ok (all.take f.stop))
  | ended : Collected p all (.ok all)

theorem take_take_append (front back : Bytes) (count : ℕ) :
    (front.take count ++ back).take count = (front ++ back).take count := by
  by_cases hfront : front.length ≤ count
  · rw [List.take_of_length_le hfront]
  · have hlength : (front.take count).length = count := List.length_take_of_le (by omega)
    rw [List.take_append_of_le_length hlength.ge, List.take_take, Nat.min_self,
      List.take_append_of_le_length (by omega)]

/-- One chunk more, up to the limit, and a look at all bytes. -/
theorem collectOutput_cons (h : bytes.length ≤ p.maximumOutput) (chunk : Bytes) :
    p.collectOutput bytes (chunk :: chunks) =
      match p.framing ((bytes ++ chunk).take p.maximumOutput) with
      | .error e => report e
      | .ok none => p.collectOutput ((bytes ++ chunk).take p.maximumOutput) chunks
      | .ok (some complete) => .ok (((bytes ++ chunk).take p.maximumOutput).take complete.stop) := by
  have hadded : (slice chunk 0 (min chunk.length (p.maximumOutput - bytes.length)) : Probing Bytes) =
      .ok (chunk.take (p.maximumOutput - bytes.length)) := by
    rw [slice_of_le (Nat.zero_le _) (min_le_left _ _), List.drop_zero, Nat.min_comm, ← List.take_take,
      List.take_length]
  have hnext : bytes ++ chunk.take (p.maximumOutput - bytes.length) = (bytes ++ chunk).take p.maximumOutput := by
    rw [List.take_append, List.take_of_length_le h]
  rw [ProbeProtocol.collectOutput, minus_of_le h, bind_of_ok rfl, bind_of_ok hadded]
  dsimp only
  rw [hnext, frame_eq p (List.length_take_le _ _)]
  cases p.framing ((bytes ++ chunk).take p.maximumOutput) with
  | error e => rfl
  | ok found =>
    cases found with
    | none => rfl
    | some complete => rfl

/-- However the bytes are cut, each look is at a prefix of those up to the limit. -/
theorem collectOutput_collected (h : bytes.length ≤ p.maximumOutput) :
    Collected p ((bytes ++ chunks.flatten).take p.maximumOutput) (p.collectOutput bytes chunks) := by
  induction chunks generalizing bytes with
  | nil =>
    rw [List.flatten_nil, List.append_nil, List.take_of_length_le h]
    exact .ended
  | cons chunk chunks ih =>
    have hlength : ((bytes ++ chunk).take p.maximumOutput).length ≤ p.maximumOutput := List.length_take_le _ _
    have hall : (bytes ++ (chunk :: chunks).flatten).take p.maximumOutput =
        ((bytes ++ chunk).take p.maximumOutput ++ chunks.flatten).take p.maximumOutput := by
      rw [List.flatten_cons, ← List.append_assoc, take_take_append]
    have hbegin : (((bytes ++ chunk).take p.maximumOutput ++ chunks.flatten).take p.maximumOutput).take
        ((bytes ++ chunk).take p.maximumOutput).length = (bytes ++ chunk).take p.maximumOutput := by
      rw [List.take_take, Nat.min_eq_left hlength, List.take_left]
    rw [collectOutput_cons h, hall]
    cases hframing : p.framing ((bytes ++ chunk).take p.maximumOutput) with
    | error e =>
      rw [← hbegin] at hframing
      exact .failed _ e hframing
    | ok found =>
      cases found with
      | none => exact ih hlength
      | some complete =>
        have hstop : complete.stop ≤ ((bytes ++ chunk).take p.maximumOutput).length := by
          rw [← List.take_length (l := (bytes ++ chunk).take p.maximumOutput), framing_take_some_iff] at hframing
          exact hframing.2
        rw [← hbegin] at hframing
        have hcut : ((bytes ++ chunk).take p.maximumOutput).take complete.stop =
            (((bytes ++ chunk).take p.maximumOutput ++ chunks.flatten).take p.maximumOutput).take complete.stop := by
          conv_lhs => rw [← hbegin, List.take_take, Nat.min_eq_left hstop]
        dsimp only
        rw [hcut]
        exact .complete _ complete hframing

/-- What is read is what the bytes say, unless one was cut at the edge of a line. -/
theorem parse_collected {stream : Bytes} {collected : Probing Bytes}
    (h : Collected p (stream.take p.maximumOutput) collected) :
    (collected >>= p.parse) = p.reading stream ∨
      (collected >>= p.parse) = report (p.error exceededLine) ∧ p.EdgeLine (stream.take p.maximumOutput) := by
  cases h with
  | failed count e herror =>
    by_cases hall : (stream.take p.maximumOutput).length ≤ count
    · rw [List.take_of_length_le hall] at herror
      rw [ProbeProtocol.reading, herror]
      exact Or.inl rfl
    · have hless : ((stream.take p.maximumOutput).take count).length < p.maximumOutput := by
        have := List.length_take_le p.maximumOutput stream
        rw [List.length_take_of_le (by omega)]
        omega
      obtain ⟨rfl, hlong⟩ := framing_tooLong_of_error herror hless
      rcases tooLong_of_take hlong with htooLong | hedge
      · rw [reading_of_tooLong htooLong]
        exact Or.inl rfl
      · exact Or.inr ⟨rfl, hedge⟩
  | complete count f hframing =>
    obtain ⟨hframing, hcount⟩ := framing_take_some_iff.mp hframing
    have hself : p.framing ((stream.take p.maximumOutput).take f.stop) = .ok (some f) :=
      framing_take_some_iff.mpr ⟨hframing, le_rfl⟩
    have hlength : ((stream.take p.maximumOutput).take f.stop).length ≤ p.maximumOutput :=
      (List.length_take_le' _ _).trans (List.length_take_le _ _)
    left
    show p.parse ((stream.take p.maximumOutput).take f.stop) = _
    rw [parse_eq hlength, ProbeProtocol.reading, ProbeProtocol.reading, List.take_of_length_le hlength, hself, hframing]
  | ended =>
    left
    show p.parse (stream.take p.maximumOutput) = _
    rw [parse_eq (List.length_take_le _ _), ProbeProtocol.reading, ProbeProtocol.reading, List.take_take, Nat.min_self]

theorem read_cases (p : ProbeProtocol) (chunks : List Bytes) : p.read chunks = p.reading chunks.flatten ∨
    p.read chunks = report (p.error exceededLine) ∧ p.EdgeLine (chunks.flatten.take p.maximumOutput) := by
  have hcollected := @collectOutput_collected p [] chunks (Nat.zero_le _)
  rw [List.nil_append] at hcollected
  exact parse_collected hcollected

theorem read_faultless (p : ProbeProtocol) (chunks : List Bytes) :
    p.read chunks ≠ .error .panicked ∧ p.read chunks ≠ .error .exhausted := by
  rcases read_cases p chunks with hread | ⟨hread, -⟩
  · rw [hread]
    exact reading_faultless
  · rw [hread]
    exact ⟨nofun, nofun⟩

/-- A first chunk with a line that is too long ends the reading. -/
theorem read_of_tooLong {chunk : Bytes} (h : p.TooLong (chunk.take p.maximumOutput)) :
    p.read (chunk :: chunks) = report (p.error exceededLine) := by
  show (p.collectOutput [] (chunk :: chunks) >>= p.parse) = _
  rw [collectOutput_cons (Nat.zero_le _), List.nil_append, framing_of_tooLong h]
  rfl

/-- Reading never goes out of range. It depends on the first answer only, and not on how the
bytes were cut, if and only if no line stands at the edge or one is too long anyway. -/
theorem read_independent_iff (p : ProbeProtocol) (stream : Bytes) :
    (∀ chunks, p.read chunks ≠ .error .panicked ∧ p.read chunks ≠ .error .exhausted) ∧
    (∀ complete, p.FirstAnswer (stream.take p.maximumOutput) complete →
      ∀ later, p.reading (stream.take complete.stop ++ later) = p.conclude complete) ∧
    ((∀ complete, ¬ p.FirstAnswer (stream.take p.maximumOutput) complete) → ∃ e, p.reading stream = report e) ∧
    ((∀ chunks : List Bytes, chunks.flatten = stream → p.read chunks = p.reading stream) ↔
      (p.EdgeLine (stream.take p.maximumOutput) → p.TooLong (stream.take p.maximumOutput))) := by
  refine ⟨read_faultless p, fun complete => reading_of_firstAnswer, reading_error, ?_⟩
  constructor
  · intro hall hedge
    obtain ⟨count, hcount, hlong⟩ := exists_tooLong_of_edgeLine hedge
    have hcut := hall [stream.take count, stream.drop count] (by simp)
    rw [List.take_take, Nat.min_comm, ← List.take_take] at hlong
    rw [read_of_tooLong hlong] at hcut
    exact tooLong_of_reading hcut.symm
  · rintro hcondition chunks rfl
    rcases read_cases p chunks with hread | ⟨hread, hedge⟩
    · exact hread
    · rw [hread, reading_of_tooLong (hcondition hedge)]

theorem read_of_framing {chunk : Bytes} {complete : CompleteFrame}
    (h : p.framing (chunk.take p.maximumOutput) = .ok (some complete)) :
    p.read (chunk :: chunks) = p.conclude complete := by
  have hself : p.framing ((chunk.take p.maximumOutput).take complete.stop) = .ok (some complete) :=
    framing_take_some_iff.mpr ⟨h, le_rfl⟩
  have hlength : ((chunk.take p.maximumOutput).take complete.stop).length ≤ p.maximumOutput :=
    (List.length_take_le' _ _).trans (List.length_take_le _ _)
  show (p.collectOutput [] (chunk :: chunks) >>= p.parse) = _
  rw [collectOutput_cons (Nat.zero_le _), List.nil_append, h]
  show p.parse ((chunk.take p.maximumOutput).take complete.stop) = _
  rw [parse_eq hlength, ProbeProtocol.reading, List.take_of_length_le hlength, hself]

end Chunks

section Edge

theorem headerStop_begin (magic rest : Bytes) :
    headerStop magic (magic ++ newline :: rest) = some (magic.length + 1) := by
  rw [headerStop_eq_some_iff]
  refine ⟨0, headerStopAt_eq_some_iff.mpr ⟨List.prefix_append _ _, 1, ?_, by omega⟩, fun earlier h => ?_⟩
  · rw [Nat.zero_add, List.drop_left, lineBreak_eq_some_iff]
    exact Or.inr ⟨rfl, List.prefix_append [newline] rest⟩
  · omega

/-- A field with a line of exactly the greatest length. -/
def edgeField : Bytes := 75 :: 61 :: List.replicate (maxProbeLineBytes - 2) 120

def edgeFront : Bytes := waylandProtocol.magic ++ newline :: (edgeField ++ [carriageReturn])

def edgeBack : Bytes := newline :: (ascii "RESULT=READY" ++ [newline])

theorem newline_notMem_edgeField : newline ∉ edgeField ++ [carriageReturn] := by
  intro hmem
  rcases List.mem_append.mp hmem with hmem | hmem
  · rcases List.mem_cons.mp hmem with hkey | hmem
    · exact absurd hkey (by decide)
    · rcases List.mem_cons.mp hmem with hequals | hmem
      · exact absurd hequals (by decide)
      · exact absurd (List.eq_of_mem_replicate hmem) (by decide)
  · exact absurd (List.mem_singleton.mp hmem) (by decide)

theorem length_edgeField : edgeField.length = maxProbeLineBytes := by
  rw [edgeField, List.length_cons, List.length_cons, List.length_replicate]
  rfl

theorem plainLine_edgeField : PlainLine (edgeField ++ [carriageReturn]) := by
  have hstrip : stripReturn (edgeField ++ [carriageReturn]) = edgeField := by
    rw [stripReturn, if_pos List.getLast?_concat, List.dropLast_concat]
  constructor
  · exact newline_notMem_edgeField
  · rw [hstrip]
    exact length_edgeField.le
  · have hresult : ascii "RESULT=" = 82 :: [69, 83, 85, 76, 84, 61] := by decide +kernel
    rw [hstrip, stripResult, if_neg]
    rw [hresult, edgeField, List.isPrefixOf]
    exact nofun

theorem drop_header (magic rest : Bytes) : (magic ++ newline :: rest).drop (magic.length + 1) = rest := by
  rw [← List.drop_drop, List.drop_left]
  rfl

/-- A header, fields and the word that all is ready. -/
theorem exists_framing_ready (p : ProbeProtocol) {fields : List Bytes} (h : ∀ field ∈ fields, PlainLine field) :
    ∃ complete, p.framing (p.magic ++ newline :: (unlines fields ++ ascii "RESULT=READY" ++ newline :: [])) =
      .ok (some complete) := by
  have hclosed : ClosedBy (unlines fields ++ ascii "RESULT=READY" ++ newline :: []) (unlines fields) (ascii "READY")
      ((unlines fields).length + (ascii "RESULT=READY").length + 1) :=
    ⟨fields, ascii "RESULT=READY", [], rfl, h, by decide +kernel, by decide +kernel, by decide +kernel, rfl, rfl⟩
  have hscan : scan ((p.magic ++ newline :: (unlines fields ++ ascii "RESULT=READY" ++ newline :: [])).drop
      (p.magic.length + 1)) = .closed (unlines fields) (ascii "READY")
        ((unlines fields).length + (ascii "RESULT=READY").length + 1) := by
    rw [drop_header, scan_closed_iff]
    exact hclosed
  have hheader := headerStop_begin p.magic (unlines fields ++ ascii "RESULT=READY" ++ newline :: [])
  exact ⟨⟨_, _, _⟩, framing_some_iff.mpr ⟨_, _, hheader, hscan, rfl⟩⟩

theorem edge_line_cut : waylandProtocol.read [edgeFront ++ edgeBack] ≠ waylandProtocol.read [edgeFront, edgeBack] := by
  have hmagic : waylandProtocol.magic.length = 23 := by decide +kernel
  have hfront : edgeFront.length = 1049 := by
    rw [edgeFront, List.length_append, List.length_cons, List.length_append, hmagic, length_edgeField]
    rfl
  have hback : edgeBack.length = 14 := by decide +kernel
  have hlong : waylandProtocol.TooLong (edgeFront.take waylandProtocol.maximumOutput) := by
    rw [List.take_of_length_le (by rw [hfront]; decide)]
    refine ⟨_, headerStop_begin _ _, Or.inr ⟨[], edgeField ++ [carriageReturn], ?_, ?_⟩⟩
    · rw [edgeFront, drop_header]
      exact foldl_step_line newline_notMem_edgeField
    · rw [List.length_append, length_edgeField]
      exact Nat.lt_succ_self _
  have hplain : ∀ field ∈ [edgeField ++ [carriageReturn]], PlainLine field := by
    intro field hfield
    rw [List.mem_singleton.mp hfield]
    exact plainLine_edgeField
  have hsplit : edgeFront ++ edgeBack = waylandProtocol.magic ++
      newline :: (unlines [edgeField ++ [carriageReturn]] ++ ascii "RESULT=READY" ++ newline :: []) := by
    rw [edgeFront]
    generalize edgeField ++ [carriageReturn] = field
    simp [unlines, edgeBack]
  obtain ⟨complete, hframing⟩ := exists_framing_ready waylandProtocol hplain
  have hwhole : (edgeFront ++ edgeBack).take waylandProtocol.maximumOutput = edgeFront ++ edgeBack := by
    apply List.take_of_length_le
    rw [List.length_append, hfront, hback]
    decide
  rw [← hsplit, ← hwhole] at hframing
  rw [read_of_framing hframing, read_of_tooLong hlong]
  exact Concludes.ne_exceededLine (concludes_conclude complete)

end Edge

end Lasper.Probe
