import Lasper.Rpc.Framing
import Lasper.Lib.Text

/-! The frames of the two writers. The client measures a request before it writes
it; the daemon writes whatever a handler returned. Each frame is one line, read
by a bounded read at the other end. -/

namespace Lasper.Rpc

open Lib

def RpcError.toValue (error : RpcError) : Json :=
  .object [("code", .integer error.code), ("message", .string error.message)]

/-- The bytes of a line, with its newline. -/
def frame (line : String) : List UInt8 := line.toUTF8.data.toList ++ [newline]

section Daemon

variable (serialize : Json → String)

/-- The object of `respond`. A request whose id could not be read is answered with a null id. -/
def responseValue (id : Option ℕ) : Except RpcError Json → Json
  | .ok result => .object [("jsonrpc", .string "2.0"), ("id", id.elim .null fun id => .integer id), ("result", result)]
  | .error error =>
    .object [("jsonrpc", .string "2.0"), ("id", id.elim .null fun id => .integer id), ("error", error.toValue)]

/-- The line of `respond`, as the writer task puts it on the socket. -/
def responseFrame (id : Option ℕ) (result : Except RpcError Json) : List UInt8 :=
  frame (serialize (responseValue id result))

end Daemon

/-- A bounded read of a stream: what it makes of the line, and what it leaves. -/
def readBoundedLine (limit : ℕ) (stream : List UInt8) : Except String (Option String) × List UInt8 :=
  let used := (readUntil limit [] stream).1
  (boundedLine limit (stream.take used), stream.drop used)

section Client

/-- The frame that `write_request` writes for a call, if it writes one. -/
def requestFrame (s : Exchange) (call : RpcCall) : Option (List UInt8) :=
  match (s.writeRequest call).phase with
  | .writing _ _ => call.wire.map (· ++ [newline])
  | _ => none

end Client

section Frames

variable {line : String}

theorem frame_eq (line : String) : frame line = (line ++ "\n").toUTF8.data.toList := by
  have hnewline : "\n".toUTF8.data.toList = [newline] := by decide
  rw [frame, ← hnewline]
  simp [String.toByteArray_append]

/-- The bytes of a frame are those of its line and a newline. -/
theorem fromUTF8?_frame (line : String) : String.fromUTF8? ⟨(frame line).toArray⟩ = some (line ++ "\n") := by
  rw [frame_eq, Array.toArray_toList]
  exact dif_pos (line ++ "\n").isValidUTF8

theorem length_frame (line : String) : (frame line).length = line.utf8ByteSize + 1 := by
  rw [frame, List.length_append]
  rfl

theorem boundedLine_of_le {limit : ℕ} {bytes : List UInt8} {text : String} (hne : bytes ≠ [])
    (hle : bytes.length ≤ limit) (htext : String.fromUTF8? ⟨bytes.toArray⟩ = some text) :
    boundedLine limit bytes = .ok (some text) := by
  rw [boundedLine, if_neg hne, if_neg (Nat.not_lt.mpr hle), htext]

theorem boundedLine_of_lt {limit : ℕ} {bytes : List UInt8} (hlt : limit < bytes.length) :
    boundedLine limit bytes = .error s!"protocol frame exceeds {limit} bytes" := by
  have hne : bytes ≠ [] := by
    rintro rfl
    simp at hlt
  rw [boundedLine, if_neg hne, if_pos hlt]

/-- A read of everything ends in the first newline, if that comes within the limit. -/
theorem readUntil_line {limit : ℕ} {body rest : List UInt8} (hbody : newline ∉ body) (hle : body.length ≤ limit) :
    (readUntil limit [] (body ++ newline :: rest)).1 = body.length + 1 := by
  have htake : (body ++ newline :: rest).take (limit + 1) = body ++ newline :: rest.take (limit - body.length) := by
    rw [List.take_append, List.take_of_length_le (by omega), show limit + 1 - body.length = (limit - body.length) + 1
      by omega, List.take_succ_cons]
  have hfound : (body ++ newline :: rest.take (limit - body.length)).idxOf? newline = some body.length := by
    rw [List.idxOf?_eq_some_iff]
    refine ⟨by simp, by simp, fun j hj => ?_⟩
    rw [List.getElem_append_left hj]
    intro heq
    exact hbody (heq ▸ List.getElem_mem hj)
  simp only [readUntil, List.length_nil, Nat.sub_zero, htake, hfound]

theorem readUntil_long {limit : ℕ} {bytes : List UInt8} (hlong : limit < bytes.length) :
    (readUntil limit [] bytes).2 = true := by
  simp only [readUntil, List.length_nil, Nat.sub_zero]
  split
  · rfl
  · simp only [List.length_take, decide_eq_true_eq]
    omega

end Frames

section Requests

variable {s : Exchange} {call : RpcCall} {bytes rest : List UInt8}

/-- A serialized request: one line of UTF-8. -/
def Serialized (wire : List UInt8) : Prop :=
  newline ∉ wire ∧ (String.fromUTF8? ⟨(wire ++ [newline]).toArray⟩).isSome = true

theorem requestFrame_eq (hp : s.phase = .selecting) (h : requestFrame s call = some bytes) :
    ∃ wire, call.wire = some wire ∧ bytes = wire ++ [newline] ∧ bytes.length ≤ maxRpcFrameBytes := by
  unfold requestFrame at h
  split at h
  · rename_i id caller hphase
    obtain ⟨wire, hwire, rfl⟩ := Option.map_eq_some_iff.mp h
    refine ⟨wire, hwire, rfl, ?_⟩
    unfold Exchange.writeRequest at hphase
    simp only [hwire] at hphase
    split_ifs at hphase with hclosed hlarge
    · rw [hp] at hphase
      cases hphase
    · rw [Exchange.send_phase, hp] at hphase
      cases hphase
    · simpa using Nat.le_of_not_lt hlarge
  · cases h

/-- The daemon's reader takes every request that the client writes. -/
theorem request_accepted (hp : s.phase = .selecting) (h : requestFrame s call = some bytes)
    (hwire : ∀ wire, call.wire = some wire → Serialized wire) :
    ∃ text, readBoundedLine maxRpcFrameBytes (bytes ++ rest) = (.ok (some text), rest) := by
  obtain ⟨wire, hw, rfl, hle⟩ := requestFrame_eq hp h
  obtain ⟨hline, htext⟩ := hwire wire hw
  obtain ⟨text, htext⟩ := Option.isSome_iff_exists.mp htext
  have hused : (readUntil maxRpcFrameBytes [] (wire ++ [newline] ++ rest)).1 = (wire ++ [newline]).length := by
    rw [List.append_assoc, List.singleton_append, readUntil_line hline (by simp at hle; omega), List.length_append]
    rfl
  refine ⟨text, ?_⟩
  simp only [readBoundedLine, hused, List.take_left, List.drop_left]
  rw [boundedLine_of_le (by simp) hle htext]

end Requests

section Responses

variable {parse : String → Option Json} {s t u : Exchange} {bytes : List UInt8}

/-- A read of `bytes` has begun, and nothing else has happened. -/
structure Reading (s : Exchange) (bytes : List UInt8) (t : Exchange) : Prop where
  phase : t.phase = .selecting
  bytes : t.taken ++ t.unread = bytes
  line : newline ∉ t.taken
  short : t.taken.length ≤ maxRpcFrameBytes
  routed : t.routed = s.routed
  pending : t.pending = s.pending
  closed : t.closed = s.closed
  delivered : t.delivered = s.delivered

/-- What a read of one line leads to: more of it, the whole line, or an oversized frame. -/
theorem Reading.step {body : List UInt8} (h : Reading s (body ++ [newline]) t) (hbody : newline ∉ body) {available : ℕ}
    (hs : t.step parse (.read available) = some u) :
    Reading s (body ++ [newline]) u ∨ u = ({ t with unread := [] } : Exchange).finishRead parse (body ++ [newline]) ∨
      (maxRpcFrameBytes < (body ++ [newline]).length ∧ u.phase = .stopped ∧ u.routed = s.routed ∧
        u.delivered = s.delivered) := by
  simp only [Exchange.step] at hs
  split at hs
  swap
  · cases hs
  simp only [Option.some.injEq] at hs
  set used := (readUntil maxRpcFrameBytes t.taken (t.unread.take available)).1 with hused
  have hle : used ≤ (t.unread.take available).length := readUntil_used_le _ _ _
  have htake : (t.unread.take available).take used = t.unread.take used := by
    rw [List.take_take, min_eq_left]
    simp only [List.length_take] at hle
    omega
  have hcat : (t.taken ++ t.unread.take used) ++ t.unread.drop used = body ++ [newline] := by
    rw [List.append_assoc, List.take_append_drop, h.bytes]
  split_ifs at hs with hdone
  · have heq : readUntil maxRpcFrameBytes t.taken (t.unread.take available) = (used, true) := Prod.ext rfl hdone
    rcases readUntil_done heq with ⟨line, rest, hchunk, hline, hend⟩ | hbig
    · -- the first newline of the stream is the last byte of the frame
      have hpart : t.unread.take used = line ++ [newline] := by
        rw [← htake, hchunk, hend, ← List.singleton_append, ← List.append_assoc]
        exact List.take_left' (by simp)
      have hpieces := congrArg (pieces newline) hcat
      rw [hpart, ← List.append_assoc, List.append_assoc (t.taken ++ line), List.singleton_append,
        pieces_piece (by simp [h.line, hline]), pieces_piece hbody, pieces_nil, List.cons.injEq] at hpieces
      have hrest : t.unread.drop used = [] := by
        rw [← flatten_pieces (d := newline) (t.unread.drop used), hpieces.2]
        rfl
      right
      left
      rw [← hs, hrest]
      congr 1
      rw [hrest, List.append_nil] at hcat
      exact hcat
    · rw [htake] at hbig
      right
      right
      refine ⟨?_, ?_⟩
      · rw [← hcat, List.length_append]
        omega
      · rw [← hs, Exchange.finishRead, boundedLine_of_lt hbig]
        exact ⟨rfl, h.routed, h.delivered⟩
  · have heq : readUntil maxRpcFrameBytes t.taken (t.unread.take available) = (used, false) :=
      Prod.ext rfl (by simpa using hdone)
    obtain ⟨hline, hshort⟩ := readUntil_pending heq h.short
    rw [htake] at hline hshort
    left
    rw [← hs]
    exact ⟨h.phase, hcat, fun hm => (List.mem_append.mp hm).elim h.line hline, hshort, h.routed, h.pending, h.closed,
      h.delivered⟩

/-- Nothing of a frame is left over while it is being read. -/
theorem Reading.unread_ne_nil {body : List UInt8} (h : Reading s (body ++ [newline]) t) : t.unread ≠ [] := by
  intro hnil
  have hbytes := h.bytes
  rw [hnil, List.append_nil] at hbytes
  exact h.line (by simp [hbytes])

/-- Parsing the line gives the value back, up to the numbers within a result. -/
def ReadsBack (parse : String → Option Json) (line : String) (value : Json) : Prop :=
  ∃ raw, parse (line ++ "\n") = some raw ∧ ∀ key, key ≠ "result" → raw.get key = value.get key

/-- The ranges of a `u64` id and of an `i32` code. -/
def InRange (id : Option ℕ) (result : Except RpcError Json) : Prop :=
  (∀ n, id = some n → n < 2 ^ 64) ∧ ∀ error, result = .error error → -2 ^ 31 ≤ error.code ∧ error.code < 2 ^ 31

variable {line : String} {id : Option ℕ} {result : Except RpcError Json}

theorem responseValue_get (id : Option ℕ) (result : Except RpcError Json) :
    (responseValue id result).get "method" = none ∧ (responseValue id result).get "jsonrpc" = some (.string "2.0") ∧
      (responseValue id result).get "id" = some (id.elim .null fun id => .integer id) ∧
      (responseValue id result).get "error" =
        match result with
        | .ok _ => none
        | .error error => some error.toValue := by
  cases result <;> exact ⟨rfl, rfl, rfl, rfl⟩

theorem field_error {error : RpcError} (h : -2 ^ 31 ≤ error.code ∧ error.code < 2 ^ 31) :
    (RpcError.field (some error.toValue)).isSome = true := by
  have hcode : Json.asI32 (.integer error.code) = some error.code := if_pos h
  simp [RpcError.field, Json.optional, RpcError.toValue, RpcError.fromValue, Json.get, List.lookup_cons, hcode, Json.asStr]

theorem asU64_natCast {n : ℕ} (h : n < 2 ^ 64) : Json.asU64 (.integer n) = some n := by
  have hle : (0 : ℤ) ≤ n ∧ (n : ℤ) < 2 ^ 64 := ⟨Int.natCast_nonneg n, by exact_mod_cast h⟩
  rw [Json.asU64, if_pos hle, Int.toNat_natCast]

theorem fromValue_of_fields {raw version number : Json} {jsonrpc : String} {n : ℕ} {error : Option RpcError}
    (hversion : raw.get "jsonrpc" = some version) (hjsonrpc : version.asStr = some jsonrpc)
    (hnumber : raw.get "id" = some number) (hn : number.asU64 = some n)
    (hfield : RpcError.field (raw.get "error") = some error) :
    RpcResponse.fromValue raw = some ⟨jsonrpc, n, Json.optional (raw.get "result"), error⟩ := by
  simp only [RpcResponse.fromValue, hversion, hjsonrpc, hnumber, hn, hfield, Option.bind_eq_bind, Option.bind_some,
    Option.pure_def]

/-- A line that carries a response by its id is routed, and takes no other request from the table. -/
theorem routeResponse_of_fields {text : String} {raw number : Json} (hraw : parse text = some raw)
    (hmethod : raw.get "method" = none) (hnumber : raw.get "id" = some number)
    (hresponse : ∀ n, number.asU64 = some n → ∃ response, RpcResponse.fromValue raw = some response)
    (pending : PendingRpcResponses) :
    (routeResponse parse text pending).failed = false ∧
      ∀ other, number.asU64 ≠ some other → (routeResponse parse text pending).pending.lookup other = pending.lookup other := by
  cases hn : number.asU64 with
  | none => simp [routeResponse, hraw, hmethod, hnumber, hn]
  | some n =>
    obtain ⟨response, hresponse⟩ := hresponse n hn
    cases hlookup : pending.lookup n with
    | none => simp [routeResponse, hraw, hmethod, hnumber, hn, hlookup]
    | some caller =>
      simp only [routeResponse, hraw, hmethod, hnumber, Option.bind_some, hn, hlookup, hresponse]
      refine ⟨by simp, fun other hother => ?_⟩
      have hne : other ≠ n := fun heq => hother (by rw [heq])
      simp [hne]

theorem routeResponse_readsBack (hrange : InRange id result) (h : ReadsBack parse line (responseValue id result))
    (pending : PendingRpcResponses) :
    (routeResponse parse (line ++ "\n") pending).failed = false ∧
      ∀ other, some other ≠ id → (routeResponse parse (line ++ "\n") pending).pending.lookup other = pending.lookup other := by
  obtain ⟨raw, hraw, hget⟩ := h
  obtain ⟨hmethod, hjsonrpc, hid, herror⟩ := responseValue_get id result
  have hmethod' := (hget "method" (by decide)).trans hmethod
  have hjsonrpc' := (hget "jsonrpc" (by decide)).trans hjsonrpc
  have hid' := (hget "id" (by decide)).trans hid
  have herror' := (hget "error" (by decide)).trans herror
  have hfield : (RpcError.field (raw.get "error")).isSome = true := by
    rw [herror']
    cases result with
    | ok value => rfl
    | error error => exact field_error (hrange.2 error rfl)
  obtain ⟨error, hfield⟩ := Option.isSome_iff_exists.mp hfield
  have hnumber : (id.elim .null fun id => .integer id : Json).asU64 = id := by
    cases id with
    | none => rfl
    | some n => exact asU64_natCast (hrange.1 n rfl)
  have hrouted := routeResponse_of_fields hraw hmethod' hid'
    (fun n hn => ⟨_, fromValue_of_fields hjsonrpc' rfl hid' hn hfield⟩) pending
  refine ⟨hrouted.1, fun other hother => hrouted.2 other fun hsame => ?_⟩
  rw [hnumber] at hsame
  exact hother hsame.symm

theorem run_reads {I : Exchange → Prop} {reads : List ℕ} (h : Run (ExchangeStep parse) s (reads.map Event.read) t)
    (h0 : I s) (hs : ∀ t available u, I t → t.step parse (.read available) = some u → I u) : I t := by
  have hall : (∀ e ∈ reads.map Event.read, ∃ available, e = .read available) → I t := by
    apply h.history (I := fun events t => (∀ e ∈ events, ∃ available, e = .read available) → I t) (fun _ => h0)
    intro events t e u hI ⟨hstep⟩ hreads
    obtain ⟨available, rfl⟩ := hreads e (by simp)
    exact hs t available u (hI fun e he => hreads e (List.mem_append_left _ he)) hstep
  apply hall
  intro e he
  obtain ⟨available, -, rfl⟩ := List.mem_map.mp he
  exact ⟨available, rfl⟩

/-- However the frame arrives, the loop reads it as one line, goes on, and has taken
no other request off the table. -/
def Survives (parse : String → Option Json) (id : Option ℕ) (bytes : List UInt8) : Prop :=
  ∀ (s t : Exchange) (reads : List ℕ), s.phase = .selecting → s.taken = [] → s.unread = bytes →
    Run (ExchangeStep parse) s (reads.map Event.read) t →
      t.phase = .selecting ∧ (∀ other, some other ≠ id → t.pending.lookup other = s.pending.lookup other) ∧
        (t.unread = [] → t.routed = s.routed ++ [⟨bytes, s.pending, s.closed⟩])

/-- However the frame arrives, it is never routed, nobody is answered, and a loop
that has read all it can has stopped. -/
def EndsConnection (parse : String → Option Json) (bytes : List UInt8) : Prop :=
  ∀ (s t : Exchange) (reads : List ℕ), s.phase = .selecting → s.taken = [] → s.unread = bytes →
    Run (ExchangeStep parse) s (reads.map Event.read) t →
      t.routed = s.routed ∧ t.delivered = s.delivered ∧ (t.phase = .stopped ∨ t.phase = .selecting ∧ t.unread ≠ [])

theorem reading_start (hp : s.phase = .selecting) (ht : s.taken = []) (hu : s.unread = bytes) : Reading s bytes s :=
  ⟨hp, by simp [ht, hu], by simp [ht], by simp [ht], rfl, rfl, rfl, rfl⟩

@[simp] theorem send_pending (caller : Caller) (response : RpcResponse) :
    (s.send caller response).pending = s.pending := by
  unfold Exchange.send
  split_ifs <;> rfl

theorem finishRead_frame (hle : (frame line).length ≤ maxRpcFrameBytes)
    (hrouted : (routeResponse parse (line ++ "\n") s.pending).failed = false) :
    (s.finishRead parse (frame line)).phase = .selecting ∧ (s.finishRead parse (frame line)).unread = s.unread ∧
      (s.finishRead parse (frame line)).routed = s.routed ++ [⟨frame line, s.pending, s.closed⟩] ∧
      (s.finishRead parse (frame line)).pending = (routeResponse parse (line ++ "\n") s.pending).pending := by
  have hbounded := boundedLine_of_le (by simp [frame]) hle (fromUTF8?_frame line)
  simp only [Exchange.finishRead, hbounded, hrouted]
  split <;> simp

/-- The line has been routed, and nothing else has happened. -/
structure Finished (s : Exchange) (id : Option ℕ) (bytes : List UInt8) (t : Exchange) : Prop where
  phase : t.phase = .selecting
  unread : t.unread = []
  pending : ∀ other, some other ≠ id → t.pending.lookup other = s.pending.lookup other
  routed : t.routed = s.routed ++ [⟨bytes, s.pending, s.closed⟩]

theorem survives_of_le (hrange : InRange id result) (hline : newline ∉ line.toUTF8.data.toList)
    (hparse : ReadsBack parse line (responseValue id result)) (hle : (frame line).length ≤ maxRpcFrameBytes) :
    Survives parse id (frame line) := by
  intro s t reads hp ht hu hrun
  have hkeep : ∀ t available u, (Reading s (frame line) t ∨ Finished s id (frame line) t) →
      t.step parse (.read available) = some u → Reading s (frame line) u ∨ Finished s id (frame line) u := by
    intro t available u hI hs
    cases hI with
    | inl hreading =>
      rcases hreading.step hline hs with hmore | hwhole | ⟨hlong, -⟩
      · exact .inl hmore
      · have hroute := routeResponse_readsBack hrange hparse t.pending
        obtain ⟨hphase, hunread, hrouted, hpending⟩ :=
          finishRead_frame (s := { t with unread := [] }) hle hroute.1
        rw [← frame] at hwhole
        rw [← hwhole] at hphase hunread hrouted hpending
        refine .inr ⟨hphase, hunread, fun other hother => ?_, ?_⟩
        · rw [hpending, ← hreading.pending]
          exact hroute.2 other hother
        · rw [hrouted, hreading.routed, hreading.pending, hreading.closed]
      · exact absurd hle (Nat.not_le_of_lt hlong)
    | inr hdone => simp [Exchange.step, hdone.unread] at hs
  cases run_reads hrun (.inl (reading_start hp ht hu)) hkeep with
  | inl hreading =>
    refine ⟨hreading.phase, fun other _ => by rw [hreading.pending], fun hnil => ?_⟩
    exact absurd hnil hreading.unread_ne_nil
  | inr hdone => exact ⟨hdone.phase, hdone.pending, fun _ => hdone.routed⟩

theorem endsConnection_of_lt (hline : newline ∉ line.toUTF8.data.toList)
    (hlong : maxRpcFrameBytes < (frame line).length) : EndsConnection parse (frame line) := by
  intro s t reads hp ht hu hrun
  have hkeep : ∀ t available u, (Reading s (frame line) t ∨
      t.phase = .stopped ∧ t.routed = s.routed ∧ t.delivered = s.delivered) → t.step parse (.read available) = some u →
      Reading s (frame line) u ∨ u.phase = .stopped ∧ u.routed = s.routed ∧ u.delivered = s.delivered := by
    intro t available u hI hs
    cases hI with
    | inl hreading =>
      rcases hreading.step hline hs with hmore | hwhole | ⟨-, hstopped⟩
      · exact .inl hmore
      · right
        rw [hwhole, Exchange.finishRead, ← frame, boundedLine_of_lt hlong]
        exact ⟨rfl, hreading.routed, hreading.delivered⟩
      · exact .inr hstopped
    | inr hstopped => simp [Exchange.step, hstopped.1] at hs
  cases run_reads hrun (.inl (reading_start hp ht hu)) hkeep with
  | inl hreading => exact ⟨hreading.routed, hreading.delivered, .inr ⟨hreading.phase, hreading.unread_ne_nil⟩⟩
  | inr hstopped => exact ⟨hstopped.2.1, hstopped.2.2, .inl hstopped.1⟩

/-- The loop that is handed a whole frame of more than the limit stops. -/
theorem not_survives_of_lt (hline : newline ∉ line.toUTF8.data.toList)
    (hlong : maxRpcFrameBytes < (frame line).length) : ¬ Survives parse id (frame line) := by
  intro hsurvives
  have hne : frame line ≠ [] := by simp [frame]
  have hcan : ({ unread := frame line } : Exchange).step parse (.read (frame line).length) =
      some (({ unread := (frame line).drop (readUntil maxRpcFrameBytes [] (frame line)).1 } : Exchange).finishRead parse
        ((frame line).take (readUntil maxRpcFrameBytes [] (frame line)).1)) := by
    simp [Exchange.step, hne, List.length_pos_iff.mpr hne, readUntil_long hlong]
  have hrun : Run (ExchangeStep parse) _ ([] ++ [.read (frame line).length]) _ := .snoc .nil ⟨hcan⟩
  have hgoes := hsurvives { unread := frame line } _ [(frame line).length] rfl rfl rfl hrun
  have hends := endsConnection_of_lt hline hlong { unread := frame line } _ [(frame line).length] rfl rfl rfl hrun
  rcases Exchange.finishRead_cases parse _ _ with hstopped | ⟨-, -, hrouted, -⟩
  · rw [hstopped] at hgoes
    cases hgoes.1
  · rw [hends.1] at hrouted
    simp at hrouted

end Responses

section Claims

variable {parse : String → Option Json} {serialize : Json → String} {id : Option ℕ} {result : Except RpcError Json}

/-- The daemon's reader takes every request the client writes. The client survives a
response exactly when its line, with the newline, is within the limit; a longer one
ends the connection. -/
theorem frame_limits_agree_iff (hrange : InRange id result)
    (hline : newline ∉ (serialize (responseValue id result)).toUTF8.data.toList)
    (hparse : ReadsBack parse (serialize (responseValue id result)) (responseValue id result)) :
    (∀ (s : Exchange) (call : RpcCall) (bytes rest : List UInt8), s.phase = .selecting →
      requestFrame s call = some bytes → (∀ wire, call.wire = some wire → Serialized wire) →
      ∃ text, readBoundedLine maxRpcFrameBytes (bytes ++ rest) = (.ok (some text), rest)) ∧
    (Survives parse id (responseFrame serialize id result) ↔
      (serialize (responseValue id result)).utf8ByteSize + 1 ≤ maxRpcFrameBytes) ∧
    (maxRpcFrameBytes < (serialize (responseValue id result)).utf8ByteSize + 1 →
      EndsConnection parse (responseFrame serialize id result)) := by
  refine ⟨fun s call bytes rest hp h hwire => request_accepted hp h hwire, ⟨fun h => ?_, fun h => ?_⟩, fun h => ?_⟩
  · by_contra hlong
    refine not_survives_of_lt hline ?_ h
    rw [length_frame]
    omega
  · apply survives_of_le hrange hline hparse
    rw [length_frame]
    exact h
  · apply endsConnection_of_lt hline
    rw [length_frame]
    exact h

private def resultFront : String := "\x7b\"id\":1,\"jsonrpc\":\"2.0\",\"result\":\""

private def resultBack : String := "\"\x7d"

/-- The text of a response that returns plain letters for request 1. -/
private def lettersText (letters : String) : String := resultFront ++ letters ++ resultBack

private def lettersParse (letters text : String) : Option Json :=
  if text = lettersText letters ++ "\n" then some (responseValue (some 1) (.ok (.string letters))) else none

private theorem lettersParse_reads (letters : String) :
    ReadsBack (lettersParse letters) (lettersText letters) (responseValue (some 1) (.ok (.string letters))) :=
  ⟨_, if_pos rfl, fun _ _ => rfl⟩

private theorem letters_inRange (letters : String) : InRange (some 1) (.ok (.string letters)) :=
  ⟨fun n hn => by cases hn; decide, nofun⟩

private theorem lettersText_bytes (n : ℕ) : (lettersText (Text.letters n)).toUTF8.data.toList =
    resultFront.toUTF8.data.toList ++ List.replicate n 120 ++ resultBack.toUTF8.data.toList := by
  rw [← Text.letters_bytes]
  simp [lettersText, String.toByteArray_append]

private theorem lettersText_line (n : ℕ) : newline ∉ (lettersText (Text.letters n)).toUTF8.data.toList := by
  have hfront : newline ∉ resultFront.toUTF8.data.toList := by decide
  have hback : newline ∉ resultBack.toUTF8.data.toList := by decide
  have hletters : newline ∉ List.replicate n (120 : UInt8) := by
    rw [List.mem_replicate]
    exact fun h => absurd h.2 (by decide)
  rw [lettersText_bytes, List.mem_append, List.mem_append]
  exact not_or.mpr ⟨not_or.mpr ⟨hfront, hletters⟩, hback⟩

private theorem lettersText_length (n : ℕ) : (lettersText (Text.letters n)).utf8ByteSize = 34 + n + 2 := by
  have hfront : resultFront.toUTF8.data.toList.length = 34 := by decide
  have hback : resultBack.toUTF8.data.toList.length = 2 := by decide
  have hsize : (lettersText (Text.letters n)).utf8ByteSize = (lettersText (Text.letters n)).toUTF8.data.toList.length := rfl
  rw [hsize, lettersText_bytes, List.length_append, List.length_append, List.length_replicate, hfront, hback]

theorem frame_limits_agree_short :
    Survives (lettersParse (Text.letters 3)) (some 1)
      (responseFrame (fun _ => lettersText (Text.letters 3)) (some 1) (.ok (.string (Text.letters 3)))) := by
  have hfits : (lettersText (Text.letters 3)).utf8ByteSize + 1 ≤ maxRpcFrameBytes := by
    rw [lettersText_length]
    decide
  exact (frame_limits_agree_iff (letters_inRange (Text.letters 3)) (lettersText_line 3)
    (lettersParse_reads (Text.letters 3))).2.1.mpr hfits

private theorem long_response {n : ℕ} (hn : maxRpcFrameBytes ≤ n) (parse : String → Option Json) :
    ¬ Survives parse (some 1) (responseFrame (fun _ => lettersText (Text.letters n)) (some 1) (.ok (.string (Text.letters n)))) := by
  apply not_survives_of_lt (lettersText_line n)
  rw [length_frame, lettersText_length]
  omega

/-- A result of 1048576 letters ends the connection. -/
theorem large_result_ends_connection :
    ¬ Survives (lettersParse (Text.letters 1048576)) (some 1)
      (responseFrame (fun _ => lettersText (Text.letters 1048576)) (some 1) (.ok (.string (Text.letters 1048576)))) :=
  long_response (Nat.le_refl _) _

end Claims

end Lasper.Rpc
