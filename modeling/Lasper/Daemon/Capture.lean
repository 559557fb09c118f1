import Mathlib.Data.List.Induction

/-! Two places keep only so many bytes of a stream and say so with a marker: the output of a
command, which is read to its end, and the log of a daemon session, which is written. -/

namespace Lasper.Daemon

abbrev Bytes := List UInt8

section Capped

/-- A stream that is longer than the threshold makes room for the marker, as far as that fits. -/
def capped (marker : Bytes) (limit threshold : ℕ) (stream : Bytes) : Bytes :=
  if stream.length ≤ threshold then stream else stream.take (limit - marker.length) ++ marker.take limit

variable {marker stream : Bytes} {limit threshold : ℕ}

theorem length_capped_le (h : threshold ≤ limit) : (capped marker limit threshold stream).length ≤ limit := by
  unfold capped
  split_ifs
  · omega
  · rw [List.length_append, List.length_take, List.length_take]
    omega

/-- A stream that does not leave room for the marker is cut to the limit exactly. -/
theorem length_capped (h : threshold < stream.length) (hroom : limit - marker.length ≤ stream.length) :
    (capped marker limit threshold stream).length = limit := by
  rw [capped, if_neg (by omega), List.length_append, List.length_take, List.length_take]
  omega

end Capped

section Command

def commandMarker : Bytes := "\n[command output truncated]\n".toList.map (·.toUInt8)

/-- What one read puts into the buffer of 4096 bytes; a read of nothing is the end. -/
abbrev Chunk := { bytes : Bytes // 0 < bytes.length ∧ bytes.length ≤ 4096 }

structure Capture where
  kept : Bytes
  truncated : Bool
  deriving DecidableEq

def Capture.read (limit : ℕ) (capture : Capture) (chunk : Chunk) : Capture :=
  let remaining := limit - capture.kept.length
  let take := min chunk.1.length remaining
  ⟨capture.kept ++ chunk.1.take take, capture.truncated || take < chunk.1.length⟩

/-- The reads up to the end of the stream, or to the read that fails. -/
def readBoundedStream {ε : Type} (limit : ℕ) (reads : List Chunk) (ended : Except ε Unit) :
    Except ε Bytes := do
  let capture := reads.foldl (Capture.read limit) ⟨[], false⟩
  ended
  return if capture.truncated then
    capture.kept.take (limit - commandMarker.length) ++ commandMarker.take (min commandMarker.length limit)
  else capture.kept

def streamOf (reads : List Chunk) : Bytes := (reads.map (·.1)).flatten

theorem streamOf_concat (reads : List Chunk) (chunk : Chunk) :
    streamOf (reads ++ [chunk]) = streamOf reads ++ chunk.1 := by
  simp [streamOf]

/-- What is still missing up to the limit is taken from the next read. -/
theorem take_append_take {α : Type} (limit : ℕ) (xs ys : List α) :
    xs.take limit ++ ys.take (min ys.length (limit - (xs.take limit).length)) = (xs ++ ys).take limit := by
  rw [List.take_append]
  congr 1
  rw [List.take_eq_take_iff, List.length_take]
  omega

/-- The reads so far are kept up to the limit. -/
theorem foldl_read (limit : ℕ) (reads : List Chunk) :
    reads.foldl (Capture.read limit) ⟨[], false⟩ =
      ⟨(streamOf reads).take limit, limit < (streamOf reads).length⟩ := by
  induction reads using List.reverseRecOn with
  | nil => simp [streamOf]
  | append_singleton reads chunk ih =>
    have htruncated : (limit < (streamOf reads).length ∨
        min chunk.1.length (limit - ((streamOf reads).take limit).length) < chunk.1.length) ↔
        limit < (streamOf reads ++ chunk.1).length := by
      rw [List.length_take, List.length_append]
      omega
    rw [List.foldl_append, ih, List.foldl_cons, List.foldl_nil, streamOf_concat, Capture.read,
      take_append_take, ← Bool.decide_or]
    simp only [htruncated]

theorem readBoundedStream_eq {ε : Type} (limit : ℕ) (reads : List Chunk) :
    readBoundedStream limit reads (.ok () : Except ε Unit) =
      .ok (capped commandMarker limit limit (streamOf reads)) := by
  have hread : readBoundedStream limit reads (.ok () : Except ε Unit) = .ok (
      if limit < (streamOf reads).length then
        ((streamOf reads).take limit).take (limit - commandMarker.length) ++
          commandMarker.take (min commandMarker.length limit)
      else (streamOf reads).take limit) := by
    rw [readBoundedStream, foldl_read]
    simp [pure, Except.pure, bind, Except.bind]
  rw [hread, capped]
  congr 1
  by_cases hlong : limit < (streamOf reads).length
  · rw [if_pos hlong, if_neg (by omega), List.take_take, Nat.min_eq_left (by omega)]
    congr 1
    rw [List.take_eq_take_iff]
    omega
  · rw [if_neg hlong, if_pos (by omega), List.take_of_length_le (by omega)]

end Command

section Log

def logMarker : Bytes := "\n[daemon log truncated at the per-session limit]\n".toList.map (·.toUInt8)

structure SessionLogState where
  file : Bytes
  bytesWritten : ℕ
  maxBytes : ℕ
  truncated : Bool
  deriving DecidableEq

namespace SessionLogState

/-- A log over a file that has just been created. -/
def withLimit (maxBytes : ℕ) : SessionLogState := ⟨[], 0, maxBytes, false⟩

/-- The file takes all the bytes, which are counted then, or it fails behind some of them. -/
def writeAll (state : SessionLogState) (bytes : Bytes) : (fault : Option ℕ) → SessionLogState × Bool
  | none =>
    ({ state with file := state.file ++ bytes, bytesWritten := state.bytesWritten + bytes.length }, true)
  | some taken => ({ state with file := state.file ++ bytes.take taken }, false)

def writeTruncationMarker (state : SessionLogState) (fault : Option ℕ) : SessionLogState × Bool :=
  let remaining := state.maxBytes - state.bytesWritten
  if 0 < remaining then
    match state.writeAll (logMarker.take (min remaining logMarker.length)) fault with
    | (state, true) => ({ state with truncated := true }, true)
    | (state, false) => (state, false)
  else ({ state with truncated := true }, true)

/-- One write, and the count it answers if the file did not fail. -/
def write (state : SessionLogState) (buf : Bytes) (faults : Option ℕ × Option ℕ) :
    SessionLogState × Option ℕ :=
  if state.truncated then (state, some buf.length)
  else
    let contentLimit := state.maxBytes - min logMarker.length state.maxBytes
    let remaining := contentLimit - state.bytesWritten
    if buf.length ≤ remaining then
      match state.writeAll buf faults.1 with
      | (state, true) => (state, some buf.length)
      | (state, false) => (state, none)
    else
      match if 0 < remaining then state.writeAll (buf.take remaining) faults.1 else (state, true) with
      | (state, true) =>
        match state.writeTruncationMarker faults.2 with
        | (state, true) => (state, some buf.length)
        | (state, false) => (state, none)
      | (state, false) => (state, none)

variable {state after : SessionLogState} {bytes buf content : Bytes} {fault : Option ℕ}
  {faults : Option ℕ × Option ℕ} {maxBytes count : ℕ}

/-- The state behind bytes that the file took. -/
def took (state : SessionLogState) (bytes : Bytes) : SessionLogState :=
  { state with file := state.file ++ bytes, bytesWritten := state.bytesWritten + bytes.length }

def marked (state : SessionLogState) : SessionLogState := { state with truncated := true }

@[simp] theorem took_file : (state.took bytes).file = state.file ++ bytes := rfl

@[simp] theorem took_bytesWritten : (state.took bytes).bytesWritten = state.bytesWritten + bytes.length := rfl

@[simp] theorem marked_file : state.marked.file = state.file := rfl

@[simp] theorem marked_bytesWritten : state.marked.bytesWritten = state.bytesWritten := rfl

theorem took_nil (state : SessionLogState) : state.took [] = state := by
  simp [took]

theorem writeAll_ok (h : state.writeAll bytes fault = (after, true)) : after = state.took bytes := by
  cases fault with
  | none =>
    cases h
    rfl
  | some taken => cases h

theorem writeTruncationMarker_ok (h : state.writeTruncationMarker fault = (after, true)) :
    after = (state.took (logMarker.take (state.maxBytes - state.bytesWritten))).marked := by
  simp only [writeTruncationMarker] at h
  split_ifs at h with hroom
  · split at h
    · rename_i written hwritten
      cases h
      have hmarker : logMarker.take (min (state.maxBytes - state.bytesWritten) logMarker.length) =
          logMarker.take (state.maxBytes - state.bytesWritten) := by
        rw [List.take_eq_take_iff]
        omega
      rw [writeAll_ok hwritten, hmarker]
      rfl
    · cases h
  · cases h
    rw [Nat.eq_zero_of_not_pos hroom, List.take_zero, took_nil]
    rfl

/-- What the file has room for in front of a marker. -/
def contentRoom (maxBytes : ℕ) : ℕ := maxBytes - logMarker.length

/-- The log holds what was written, up to its limit. -/
structure Holds (maxBytes : ℕ) (content : Bytes) (state : SessionLogState) : Prop where
  limit : state.maxBytes = maxBytes
  counted : state.bytesWritten = state.file.length
  kept : state.file = capped logMarker maxBytes (contentRoom maxBytes) content
  marked : state.truncated = true ↔ contentRoom maxBytes < content.length

theorem holds_withLimit (maxBytes : ℕ) : Holds maxBytes [] (withLimit maxBytes) where
  limit := rfl
  counted := rfl
  kept := by simp [capped, withLimit]
  marked := by simp [withLimit]

theorem Holds.file_of_not_truncated (h : Holds maxBytes content state) (ht : ¬ state.truncated = true) :
    state.file = content ∧ state.bytesWritten = content.length ∧ content.length ≤ contentRoom maxBytes := by
  have hshort : content.length ≤ contentRoom maxBytes := Nat.not_lt.mp (mt h.marked.mpr ht)
  have hfile : state.file = content := by rw [h.kept, capped, if_pos hshort]
  exact ⟨hfile, by rw [h.counted, hfile], hshort⟩

theorem Holds.skip (h : Holds maxBytes content state) (ht : state.truncated = true) :
    Holds maxBytes (content ++ buf) state := by
  have hlong := h.marked.mp ht
  refine ⟨h.limit, h.counted, ?_, ?_⟩
  · have hle : maxBytes - logMarker.length ≤ content.length := Nat.le_of_lt hlong
    rw [h.kept, capped, capped, if_neg (by omega), if_neg (by rw [List.length_append]; omega),
      List.take_append_of_le_length hle]
  · rw [List.length_append]
    exact ⟨fun _ => by omega, fun _ => ht⟩

theorem Holds.append (h : Holds maxBytes content state) (ht : ¬ state.truncated = true)
    (hfits : buf.length ≤ contentRoom maxBytes - state.bytesWritten) :
    Holds maxBytes (content ++ buf) (state.took buf) := by
  obtain ⟨hfile, hcount, hshort⟩ := h.file_of_not_truncated ht
  have hlength : (content ++ buf).length ≤ contentRoom maxBytes := by
    rw [List.length_append]
    omega
  refine ⟨h.limit, ?_, ?_, ?_⟩
  · simp [took, h.counted]
  · rw [capped, if_pos hlength, took, hfile]
  · rw [← Nat.not_le]
    exact ⟨fun hmarked => absurd hmarked ht, fun hlong => absurd hlength hlong⟩

/-- The write that does not fit: what there is room for, then the marker. -/
theorem Holds.cut (h : Holds maxBytes content state) (ht : ¬ state.truncated = true)
    (hlong : ¬ buf.length ≤ contentRoom maxBytes - state.bytesWritten) {filled : SessionLogState}
    (hfilled : filled = state.took (buf.take (contentRoom maxBytes - state.bytesWritten))) :
    Holds maxBytes (content ++ buf)
      (filled.took (logMarker.take (maxBytes - filled.bytesWritten))).marked := by
  obtain ⟨hfile, hcount, hshort⟩ := h.file_of_not_truncated ht
  have hlength : contentRoom maxBytes < (content ++ buf).length := by
    rw [List.length_append]
    omega
  have hwritten : filled.bytesWritten = contentRoom maxBytes := by
    rw [hfilled]
    simp only [took, List.length_take]
    omega
  have hmarker : logMarker.take (maxBytes - contentRoom maxBytes) = logMarker.take maxBytes := by
    rw [List.take_eq_take_iff, contentRoom]
    omega
  have hcontent : (content ++ buf).take (contentRoom maxBytes) = filled.file := by
    rw [hfilled, List.take_append, List.take_of_length_le hshort, took, hfile, hcount]
  rw [hwritten, hmarker]
  refine ⟨?_, ?_, ?_, ?_⟩
  · rw [hfilled]
    exact h.limit
  · rw [hfilled]
    simp [h.counted]
    omega
  · rw [capped, if_neg (by omega)]
    exact congrArg (· ++ logMarker.take maxBytes) hcontent.symm
  · exact ⟨fun _ => hlength, fun _ => rfl⟩

/-- A write that the file takes. -/
theorem Holds.write (h : Holds maxBytes content state) (hw : state.write buf faults = (after, some count)) :
    Holds maxBytes (content ++ buf) after ∧ count = buf.length := by
  have hroom : state.maxBytes - min logMarker.length state.maxBytes = contentRoom maxBytes := by
    rw [h.limit, contentRoom]
    omega
  have hcut : ∀ {filled}, filled = state.took (buf.take (contentRoom maxBytes - state.bytesWritten)) →
      ¬ state.truncated = true → ¬ buf.length ≤ contentRoom maxBytes - state.bytesWritten →
      (match filled.writeTruncationMarker faults.2 with
        | (state, true) => (state, some buf.length)
        | (state, false) => (state, none)) = (after, some count) →
      Holds maxBytes (content ++ buf) after ∧ count = buf.length := by
    intro filled hfilled htruncated hfits hw
    split at hw
    · rename_i marked hmarked
      cases hw
      have hlimit : filled.maxBytes = maxBytes := by
        rw [hfilled]
        exact h.limit
      rw [writeTruncationMarker_ok hmarked, hlimit]
      exact ⟨h.cut htruncated hfits hfilled, rfl⟩
    · cases hw
  simp only [SessionLogState.write, hroom] at hw
  split_ifs at hw with htruncated hfits hsome
  · cases hw
    exact ⟨h.skip htruncated, rfl⟩
  · split at hw
    · rename_i written hwritten
      cases hw
      exact ⟨writeAll_ok hwritten ▸ h.append htruncated hfits, rfl⟩
    · cases hw
  · split at hw
    · rename_i written hwritten
      exact hcut (writeAll_ok hwritten) htruncated hfits hw
    · cases hw
  · refine hcut ?_ htruncated hfits hw
    rw [Nat.eq_zero_of_not_pos hsome, List.take_zero, took_nil]

end SessionLogState

/-- A write with what the file answers to it, if that is not an error. -/
def writeTaken (state : SessionLogState) (write : Bytes × (Option ℕ × Option ℕ)) : Option SessionLogState :=
  match state.write write.1 write.2 with
  | (state, some _) => some state
  | (_, none) => none

def logAfter (maxBytes : ℕ) (writes : List (Bytes × (Option ℕ × Option ℕ))) : Option SessionLogState :=
  writes.foldlM writeTaken (.withLimit maxBytes)

def contentOf (writes : List (Bytes × (Option ℕ × Option ℕ))) : Bytes := (writes.map (·.1)).flatten

theorem holds_logAfter {maxBytes : ℕ} {writes : List (Bytes × (Option ℕ × Option ℕ))}
    {state : SessionLogState} (h : logAfter maxBytes writes = some state) :
    state.Holds maxBytes (contentOf writes) := by
  induction writes using List.reverseRecOn generalizing state with
  | nil =>
    cases h
    exact SessionLogState.holds_withLimit maxBytes
  | append_singleton writes write ih =>
    rw [logAfter, List.foldlM_append] at h
    obtain ⟨before, hbefore, hlast⟩ := Option.bind_eq_some_iff.mp h
    have hcontent : contentOf (writes ++ [write]) = contentOf writes ++ write.1 := by simp [contentOf]
    obtain ⟨after, hafter, hend⟩ := Option.bind_eq_some_iff.mp hlast
    cases hend
    rw [writeTaken] at hafter
    split at hafter
    · rename_i written count hwrite
      cases hafter
      rw [hcontent]
      exact ((ih hbefore).write hwrite).1
    · cases hafter

end Log

section Result

/-- What the two captures keep, for every cut of the stream and every sequence of writes. -/
theorem bounded_captures :
    (∀ limit reads, readBoundedStream limit reads (.ok () : Except Unit Unit) =
        .ok (capped commandMarker limit limit (streamOf reads)) ∧
      (limit < (streamOf reads).length →
        (capped commandMarker limit limit (streamOf reads)).length = limit)) ∧
    ∀ maxBytes writes state, logAfter maxBytes writes = some state →
      state.file.length ≤ maxBytes ∧
      state.file = capped logMarker maxBytes (maxBytes - logMarker.length) (contentOf writes) := by
  refine ⟨fun limit reads => ⟨readBoundedStream_eq limit reads, fun hlong => length_capped hlong (by omega)⟩,
    fun maxBytes writes state h => ?_⟩
  have hholds := holds_logAfter h
  rw [hholds.kept]
  exact ⟨length_capped_le (Nat.sub_le _ _), rfl⟩

def longWrite : Bytes × (Option ℕ × Option ℕ) := (List.replicate 60 120, none, none)

theorem bounded_captures_cut : ∃ state, logAfter 100 [longWrite] = some state ∧ state.file.length ≤ 100 ∧
    state.file = capped logMarker 100 (100 - logMarker.length) (contentOf [longWrite]) := by
  have hsome : (logAfter 100 [longWrite]).isSome = true := rfl
  obtain ⟨state, hstate⟩ := Option.isSome_iff_exists.mp hsome
  exact ⟨state, hstate, bounded_captures.2 100 _ state hstate⟩

/-- A log of ten bytes has no room for its marker. -/
theorem marker_cut : ∃ state, logAfter 10 [([120], none, none)] = some state ∧
    state.file ≠ contentOf [([120], none, none)] ∧
    ¬ ∃ kept, kept <+: contentOf [([120], none, none)] ∧ state.file = kept ++ logMarker := by
  have hsome : (logAfter 10 [([120], none, none)]).isSome = true := rfl
  obtain ⟨state, hstate⟩ := Option.isSome_iff_exists.mp hsome
  have hlength : state.file.length = 10 := by
    have hmarker : logMarker.length = 49 := by decide
    rw [(holds_logAfter hstate).kept]
    exact length_capped (by rw [SessionLogState.contentRoom, hmarker]; decide) (by rw [hmarker]; decide)
  refine ⟨state, hstate, fun heq => ?_, ?_⟩
  · rw [heq] at hlength
    cases hlength
  · rintro ⟨kept, -, heq⟩
    have hmarker : logMarker.length = 49 := by decide
    rw [heq, List.length_append, hmarker] at hlength
    omega

end Result

end Lasper.Daemon
