import Lasper.Lib.Pieces
import Lasper.Lib.Runs
import Lasper.Rpc.Json

/-! The client's RPC loop. `exchange` selects between a sweep timer, the queue of
outgoing calls and a read of one line; whichever branch wins, the futures of
the others are dropped, and with them the bytes an unfinished read had already
taken from the socket. -/

namespace Lasper.Rpc

open Lib

def maxRpcFrameBytes : ℕ := 1024 * 1024

def newline : UInt8 := 10

/-- One oneshot channel, by the call that waits on it. -/
abbrev Caller := ℕ

abbrev PendingRpcResponses := Table ℕ Caller

/-! ### Reading a line -/

/-- One poll of `read_until` behind `take(limit + 1)`: how many bytes of `chunk` it consumes
after the `taken` ones, and whether it is done. -/
def readUntil (limit : ℕ) (taken chunk : List UInt8) : ℕ × Bool :=
  let available := chunk.take (limit + 1 - taken.length)
  match available.idxOf? newline with
  | some i => (i + 1, true)
  | none => (available.length, taken.length + available.length = limit + 1)

/-- What `read_bounded_line` makes of the bytes of a finished read; `none` at the end of the
stream, an error for an oversized frame or one that is not UTF-8. -/
def boundedLine (limit : ℕ) (bytes : List UInt8) : Except String (Option String) :=
  if bytes = [] then .ok none
  else if limit < bytes.length then .error s!"protocol frame exceeds {limit} bytes"
  else match String.fromUTF8? ⟨bytes.toArray⟩ with
    | some text => .ok (some text)
    | none => .error "invalid utf-8 sequence"

/-! ### Calls and responses -/

structure RpcCall where
  id : ℕ
  caller : Caller
  /-- The serialized request, if it serializes. -/
  wire : Option (List UInt8)

def oversizedResponse (id : ℕ) : RpcResponse :=
  ⟨"2.0", id, none, some ⟨-32603, s!"daemon request exceeds {maxRpcFrameBytes} bytes"⟩⟩

/-- The effect of routing one line. -/
structure Route where
  pending : PendingRpcResponses
  /-- The response and the caller whose sender it is given to. -/
  sent : Option (Caller × RpcResponse) := none
  event : Bool := false
  failed : Bool := false

section Routing
variable (parse : String → Option Json)

def routeResponse (line : String) (pending : PendingRpcResponses) : Route :=
  match parse line with
  | none => { pending := pending }
  | some raw =>
    if (raw.get "method").isSome ∧ (raw.get "id").isNone then { pending := pending, event := true }
    else match (raw.get "id").bind Json.asU64 with
      | none => { pending := pending }
      | some id => match pending.lookup id with
        | none => { pending := pending }
        | some caller => match RpcResponse.fromValue raw with
          | none => { pending := pending.erase id, failed := true }
          | some response => { pending := pending.erase id, sent := some (caller, response) }

end Routing

/-! ### The loop -/

inductive Phase where
  | selecting
  | writing (id : ℕ) (caller : Caller)
  | stopped
  deriving DecidableEq

/-- A line that was routed, and what the loop knew when it was. -/
structure Routed where
  line : List UInt8
  pending : PendingRpcResponses
  closed : List Caller

structure Exchange where
  /-- What the daemon has sent or will send and the loop has not consumed. -/
  unread : List UInt8
  /-- The local buffer of the read in progress. -/
  taken : List UInt8 := []
  pending : PendingRpcResponses := ∅
  phase : Phase := .selecting
  /-- Callers that dropped their receiver. -/
  closed : List Caller := []
  /-- Callers whose request was taken from the queue. -/
  accepted : List Caller := []
  delivered : List (Caller × RpcResponse) := []
  events : ℕ := 0
  routed : List Routed := []

inductive Event where
  | tick
  | request (call : RpcCall)
  | written (ok : Bool)
  | requestsClosed
  | read (available : ℕ)
  | readError
  | eof
  | cancel (caller : Caller)
  | shutdown

namespace Exchange

/-- `response_tx.send`: nothing arrives once the receiver is gone. -/
def send (s : Exchange) (caller : Caller) (response : RpcResponse) : Exchange :=
  if caller ∈ s.closed then s else { s with delivered := s.delivered ++ [(caller, response)] }

/-- `write_request`, up to the point where the bytes are being written. -/
def writeRequest (s : Exchange) (call : RpcCall) : Exchange :=
  if call.caller ∈ s.closed then s
  else match call.wire with
    | none => s
    | some line =>
      if maxRpcFrameBytes < line.length + 1 then s.send call.caller (oversizedResponse call.id)
      else { s with phase := .writing call.id call.caller }

section Loop
variable (parse : String → Option Json)

/-- The read branch with the bytes of a finished read. -/
def finishRead (s : Exchange) (bytes : List UInt8) : Exchange :=
  match boundedLine maxRpcFrameBytes bytes with
  | .error _ | .ok none => { s with phase := .stopped }
  | .ok (some line) =>
    let route := routeResponse parse line s.pending
    let routed : Exchange := { s with
      taken := []
      pending := route.pending
      events := s.events + if route.event then 1 else 0
      phase := if route.failed then .stopped else .selecting
      routed := s.routed ++ [⟨bytes, s.pending, s.closed⟩] }
    match route.sent with
    | some (caller, response) => routed.send caller response
    | none => routed

/-- One step of the loop or of its callers. -/
def step (s : Exchange) : Event → Option Exchange
  | .cancel caller => some { s with closed := caller :: s.closed }
  | .shutdown => some { s with phase := .stopped }
  | .written ok =>
    match s.phase with
    | .writing id caller =>
      if !ok then some { s with phase := .stopped }
      else if caller ∈ s.closed then some { s with phase := .selecting }
      else some { s with phase := .selecting, pending := s.pending.insert id caller }
    | _ => none
  | .tick =>
    if s.phase = .selecting then
      some { s with taken := [], pending := s.pending.retain fun caller => caller ∉ s.closed }
    else none
  | .request call =>
    -- every call brings its own channel
    if s.phase = .selecting ∧ call.caller ∉ s.accepted then
      some (writeRequest { s with taken := [], accepted := call.caller :: s.accepted } call)
    else none
  | .requestsClosed => if s.phase = .selecting then some { s with phase := .stopped } else none
  | .read available =>
    if s.phase = .selecting ∧ 0 < available ∧ s.unread ≠ [] then
      let (used, done) := readUntil maxRpcFrameBytes s.taken (s.unread.take available)
      let bytes := s.taken ++ s.unread.take used
      let s := { s with unread := s.unread.drop used }
      some (if done then finishRead parse s bytes else { s with taken := bytes })
    else none
  | .readError => if s.phase = .selecting then some { s with phase := .stopped } else none
  | .eof => if s.phase = .selecting ∧ s.unread = [] then some (finishRead parse s s.taken) else none

end Loop

end Exchange

inductive ExchangeStep (parse : String → Option Json) : Exchange → Event → Exchange → Prop
  | mk {s t : Exchange} {e : Event} (h : s.step parse e = some t) : ExchangeStep parse s e t

end Lasper.Rpc
