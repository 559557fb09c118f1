import Lasper.Rpc.Exchange

/-! What the loop delivers. As long as no other branch wins while a read holds
part of a line, the loop routes exactly the lines the daemon sent, each from
its first byte, and a response whose caller still waits reaches that caller
and no other, once. -/

namespace Lasper.Rpc

open Lib

variable {parse : String → Option Json}

/-- The response a line carries. -/
def responseOf (parse : String → Option Json) (line : List UInt8) : Option RpcResponse := do
  RpcResponse.fromValue (← parse (← String.fromUTF8? ⟨line.toArray⟩))

namespace Exchange

variable {s t : Exchange} {e : Event}

/-- No bytes of an unfinished line are lost when another branch of the loop wins. -/
def Whole (s : Exchange) : Event → Prop
  | .tick | .request _ => s.taken = []
  | _ => True

end Exchange

inductive WholeStep (parse : String → Option Json) : Exchange → Event → Exchange → Prop
  | mk {s t : Exchange} {e : Event} (step : ExchangeStep parse s e t) (whole : s.Whole e) :
      WholeStep parse s e t

/-! ### One read -/

/-- A read that is not done has met no newline and is still within the limit. -/
theorem readUntil_pending {limit used : ℕ} {taken chunk : List UInt8}
    (h : readUntil limit taken chunk = (used, false)) (hl : taken.length ≤ limit) :
    newline ∉ chunk.take used ∧ (taken ++ chunk.take used).length ≤ limit := by
  simp only [readUntil] at h
  split at h
  · cases h
  · rename_i hn
    simp only [Prod.mk.injEq, decide_eq_false_iff_not] at h
    obtain ⟨rfl, hd⟩ := h
    have ht : chunk.take (chunk.take (limit + 1 - taken.length)).length =
        chunk.take (limit + 1 - taken.length) := by
      rw [List.length_take, ← List.take_take, List.take_length]
    rw [ht]
    refine ⟨List.idxOf?_eq_none_iff.mp hn, ?_⟩
    simp only [List.length_append, List.length_take] at hd ⊢
    omega

theorem split_at_idxOf {l : List UInt8} {i : ℕ} (h : l.idxOf? newline = some i) :
    ∃ line rest, l = line ++ newline :: rest ∧ newline ∉ line ∧ line.length = i := by
  obtain ⟨hi, he, hlt⟩ := List.idxOf?_eq_some_iff.mp h
  refine ⟨l.take i, l.drop (i + 1), ?_, ?_, by simp; omega⟩
  · rw [← he, List.getElem_cons_drop, List.take_append_drop]
  · intro hm
    obtain ⟨j, hj, hjl⟩ := List.mem_iff_getElem.mp hm
    rw [List.getElem_take] at hjl
    exact hlt j (by simp at hj; omega) (by rw [hjl])

/-- A read that is done ends in the first newline, or has passed the limit. -/
theorem readUntil_done {limit used : ℕ} {taken chunk : List UInt8}
    (h : readUntil limit taken chunk = (used, true)) :
    (∃ line rest, chunk = line ++ newline :: rest ∧ newline ∉ line ∧ used = line.length + 1) ∨
      limit < (taken ++ chunk.take used).length := by
  simp only [readUntil] at h
  split at h
  · rename_i i hi
    cases h
    obtain ⟨line, rest, hl, hn, rfl⟩ := split_at_idxOf hi
    left
    refine ⟨line, rest ++ chunk.drop (limit + 1 - taken.length), ?_, hn, rfl⟩
    rw [← List.cons_append, ← List.append_assoc, ← hl, List.take_append_drop]
  · simp only [Prod.mk.injEq, decide_eq_true_eq] at h
    obtain ⟨rfl, hd⟩ := h
    right
    simp only [List.length_append, List.length_take] at hd ⊢
    omega

/-- The bytes one poll consumes are the next bytes of the stream. -/
theorem readUntil_used_le (limit : ℕ) (taken chunk : List UInt8) :
    (readUntil limit taken chunk).1 ≤ chunk.length := by
  simp only [readUntil]
  split
  · rename_i i hi
    obtain ⟨hlt, -⟩ := List.idxOf?_eq_some_iff.mp hi
    simp only [List.length_take] at hlt
    omega
  · exact (List.length_take_le' _ _)

namespace Exchange

variable {s t : Exchange} {e : Event} {input : List UInt8}

/-! ### Routing a line -/

@[simp] theorem send_routed (caller : Caller) (response : RpcResponse) :
    (s.send caller response).routed = s.routed := by
  unfold send
  split_ifs <;> rfl

@[simp] theorem send_phase (caller : Caller) (response : RpcResponse) :
    (s.send caller response).phase = s.phase := by
  unfold send
  split_ifs <;> rfl

@[simp] theorem send_unread (caller : Caller) (response : RpcResponse) :
    (s.send caller response).unread = s.unread := by
  unfold send
  split_ifs <;> rfl

@[simp] theorem send_taken (caller : Caller) (response : RpcResponse) :
    (s.send caller response).taken = s.taken := by
  unfold send
  split_ifs <;> rfl

/-- A finished read stops the loop, or routes its line and starts over. -/
theorem finishRead_cases (parse : String → Option Json) (s : Exchange) (bytes : List UInt8) :
    s.finishRead parse bytes = { s with phase := .stopped } ∨
      (bytes ≠ [] ∧ bytes.length ≤ maxRpcFrameBytes ∧
        (s.finishRead parse bytes).routed = s.routed ++ [⟨bytes, s.pending, s.closed⟩] ∧
        (s.finishRead parse bytes).taken = [] ∧ (s.finishRead parse bytes).unread = s.unread) := by
  unfold finishRead
  cases hb : boundedLine maxRpcFrameBytes bytes with
  | error _ => exact .inl rfl
  | ok line =>
    cases line with
    | none => exact .inl rfl
    | some line =>
      right
      have hne : bytes ≠ [] ∧ bytes.length ≤ maxRpcFrameBytes := by
        unfold boundedLine at hb
        split_ifs at hb with h0 hl
        · cases hb
        · exact ⟨h0, Nat.le_of_not_lt hl⟩
      refine ⟨hne.1, hne.2, ?_⟩
      dsimp only
      split <;> simp

/-! ### The lines routed so far -/

/-- The lines routed so far are the first lines of the stream, and the rest is still to come. -/
structure Framed (input : List UInt8) (s : Exchange) : Prop where
  routed_prefix : s.routed.map Routed.line <+: pieces newline input
  rest : s.phase ≠ .stopped → s.routed.map Routed.line ++ pieces newline (s.taken ++ s.unread) =
    pieces newline input
  taken : newline ∉ s.taken ∧ s.taken.length ≤ maxRpcFrameBytes

theorem framed_start (input : List UInt8) : Framed input { unread := input } :=
  ⟨by simp, fun _ => rfl, by simp⟩

/-- Steps that leave the stream alone and do not resume a stopped loop. -/
theorem Framed.of_eq (h : Framed input s) (hr : t.routed = s.routed) (ht : t.taken = s.taken)
    (hu : t.unread = s.unread) (hp : t.phase ≠ .stopped → s.phase ≠ .stopped) : Framed input t := by
  refine ⟨hr ▸ h.routed_prefix, fun hn => ?_, ht ▸ h.taken⟩
  rw [hr, ht, hu]
  exact h.rest (hp hn)

theorem Framed.stop (h : Framed input s) : Framed input { s with phase := .stopped } :=
  h.of_eq rfl rfl rfl fun hn => absurd rfl hn

/-- Routing the piece that comes next. -/
theorem Framed.finishRead (h : Framed input s) {bytes : List UInt8} (unread : List UInt8) (hp : s.phase = .selecting)
    (hb : bytes ≠ [] → bytes.length ≤ maxRpcFrameBytes →
      pieces newline (s.taken ++ s.unread) = bytes :: pieces newline unread) :
    Framed input ({ s with unread := unread }.finishRead parse bytes) := by
  have hrest := h.rest (by simp [hp])
  rcases finishRead_cases parse { s with unread := unread } bytes with he | ⟨h0, hl, hr, ht, hu⟩
  · rw [he]
    exact ⟨h.routed_prefix, fun hn => absurd rfl hn, h.taken⟩
  · rw [hb h0 hl] at hrest
    have hmap : ((({ s with unread := unread } : Exchange).finishRead parse bytes).routed).map Routed.line ++
        pieces newline unread = pieces newline input := by
      rw [hr, ← hrest]
      simp
    refine ⟨⟨_, hmap⟩, fun _ => ?_, by simp [ht]⟩
    rw [ht, hu]
    exact hmap

theorem Framed.read (h : Framed input s) (hp : s.phase = .selecting) (available : ℕ) :
    let used := (readUntil maxRpcFrameBytes s.taken (s.unread.take available)).1
    let bytes := s.taken ++ s.unread.take used
    Framed input (if (readUntil maxRpcFrameBytes s.taken (s.unread.take available)).2 then
      ({ s with unread := s.unread.drop used }.finishRead parse bytes)
      else { s with unread := s.unread.drop used, taken := bytes }) := by
  intro used bytes
  have hle : used ≤ (s.unread.take available).length := readUntil_used_le _ _ _
  have htake : (s.unread.take available).take used = s.unread.take used := by
    rw [List.take_take, min_eq_left]
    simp only [List.length_take] at hle
    omega
  have hcat : bytes ++ s.unread.drop used = s.taken ++ s.unread := by
    simp only [bytes, List.append_assoc, List.take_append_drop]
  split_ifs with hd
  · have heq : readUntil maxRpcFrameBytes s.taken (s.unread.take available) = (used, true) :=
      Prod.ext rfl hd
    refine h.finishRead _ hp fun _ hl => ?_
    rw [← hcat]
    rcases readUntil_done heq with ⟨line, rest, hc, hn, hu⟩ | hbig
    · -- the read stopped at the first newline of the stream
      have hline : bytes = (s.taken ++ line) ++ [newline] := by
        have : s.unread.take used = line ++ [newline] := by
          rw [← htake, hc, hu, ← List.singleton_append, ← List.append_assoc]
          exact List.take_left' (by simp)
        simp only [bytes, this, List.append_assoc]
      rw [hline, List.append_assoc, List.singleton_append]
      exact pieces_piece (by simp [h.taken.1, hn]) _
    · rw [htake] at hbig
      exact absurd hl (Nat.not_le_of_lt hbig)
  · have heq : readUntil maxRpcFrameBytes s.taken (s.unread.take available) = (used, false) :=
      Prod.ext rfl (by simpa using hd)
    obtain ⟨hn, hl⟩ := readUntil_pending heq h.taken.2
    rw [htake] at hn hl
    refine ⟨h.routed_prefix, fun _ => ?_, ?_, hl⟩
    · rw [hcat]
      exact h.rest (by simp [hp])
    · exact fun hm => (List.mem_append.mp hm).elim h.taken.1 hn

/-- While bytes are left, a read takes at least one. -/
theorem Framed.read_progress (h : Framed input s) (hp : s.phase = .selecting) (hu : s.unread ≠ [])
    {available : ℕ} (ha : 0 < available) :
    ∃ t, s.step parse (.read available) = some t ∧ t.unread.length < s.unread.length := by
  have hpos : 0 < (readUntil maxRpcFrameBytes s.taken (s.unread.take available)).1 := by
    have := h.taken.2
    have hlen := List.length_pos_of_ne_nil hu
    simp only [readUntil]
    split
    · exact Nat.succ_pos _
    · simp only [List.length_take]
      omega
  have hdrop : (s.unread.drop (readUntil maxRpcFrameBytes s.taken (s.unread.take available)).1).length <
      s.unread.length := by
    have := List.length_pos_of_ne_nil hu
    rw [List.length_drop]
    omega
  refine ⟨_, if_pos ⟨hp, ha, hu⟩, ?_⟩
  dsimp only
  split_ifs
  · rcases finishRead_cases parse { s with unread := s.unread.drop _ } _ with he | ⟨-, -, -, -, he⟩
    · rw [he]
      exact hdrop
    · rw [he]
      exact hdrop
  · exact hdrop

theorem Framed.eof (h : Framed input s) (hp : s.phase = .selecting) (hu : s.unread = []) :
    Framed input (s.finishRead parse s.taken) := by
  refine h.finishRead s.unread hp fun hne _ => ?_
  rw [hu, List.append_nil, pieces_nil]
  exact pieces_of_notMem h.taken.1 hne

theorem Framed.writeRequest (h : Framed input s) (call : RpcCall) (hp : s.phase = .selecting) :
    Framed input (s.writeRequest call) := by
  unfold Exchange.writeRequest
  split_ifs
  · exact h
  · split
    · exact h
    · split_ifs
      · exact h.of_eq (by simp) (by simp) (by simp) (by simp)
      · exact h.of_eq rfl rfl rfl fun _ => by simp [hp]

theorem Framed.step (h : Framed input s) (hs : s.step parse e = some t) (hw : s.Whole e) :
    Framed input t := by
  unfold Exchange.step at hs
  split at hs
  · cases hs
    exact h.of_eq rfl rfl rfl id
  · cases hs
    exact h.stop
  · split at hs
    · rename_i hp
      split_ifs at hs <;> cases hs
      · exact h.stop
      · exact h.of_eq rfl rfl rfl fun _ => by simp [hp]
      · exact h.of_eq rfl rfl rfl fun _ => by simp [hp]
    · cases hs
  · split_ifs at hs with hp
    cases hs
    exact h.of_eq rfl (Eq.symm hw) rfl id
  · rename_i call
    split_ifs at hs with hp
    cases hs
    have hw : s.taken = [] := hw
    exact (h.of_eq (t := { s with taken := [], accepted := call.caller :: s.accepted }) rfl hw.symm rfl
      id).writeRequest call hp.1
  · split_ifs at hs
    cases hs
    exact h.stop
  · split_ifs at hs with hp
    cases hs
    exact h.read hp.1 _
  · split_ifs at hs
    cases hs
    exact h.stop
  · split_ifs at hs with hp
    cases hs
    exact h.eof hp.1 hp.2

end Exchange

end Lasper.Rpc
