import Lasper.Lib.Checked
import Lasper.Sessions.Startup

/-! How a probe in a guest answers through a terminal. A header line begins the answer and
a result line ends it; what is between are fields. The bytes come in pieces, and after each
piece all that was received is looked at again. -/

namespace Lasper.Probe

open Lib Lib.Checked Sessions

abbrev Bytes := List UInt8

abbrev Probing := Checked SessionError

section Protocol

def maxProbeLineBytes : ℕ := 1024

/-- A header that is searched for is never empty. -/
structure ProbeProtocol where
  magic : Bytes
  label : String
  maximumOutput : ℕ
  magic_ne_nil : magic ≠ []

def ascii (text : String) : Bytes := text.toUTF8.toList

def waylandProtocol : ProbeProtocol where
  magic := ascii "LASPER_WAYLAND_PROBE_V1"
  label := "Wayland probe"
  maximumOutput := 8 * 1024
  magic_ne_nil := by decide +kernel

def x11Protocol : ProbeProtocol where
  magic := ascii "LASPER_X11_PROJECTION_PROBE_V1"
  label := "X11 projection probe"
  maximumOutput := 12 * 1024
  magic_ne_nil := by decide +kernel

structure CompleteFrame where
  body : Bytes
  result : Bytes
  stop : ℕ
  deriving DecidableEq

def newline : UInt8 := 10

def carriageReturn : UInt8 := 13

def ProbeProtocol.error (p : ProbeProtocol) (detail : String) : SessionError := { message := s!"{p.label} {detail}" }

def exceededOutput : String := "output exceeded its limit"

def exceededLine : String := "line exceeded its limit"

end Protocol

section Framing

/-- How long the line ending is that the bytes begin with. -/
def lineBreak (bytes : Bytes) : Option ℕ :=
  if [carriageReturn, newline].isPrefixOf bytes then some 2
  else if [newline].isPrefixOf bytes then some 1
  else none

def stripReturn (line : Bytes) : Bytes :=
  if line.getLast? = some carriageReturn then line.dropLast else line

def stripResult (line : Bytes) : Option Bytes :=
  if (ascii "RESULT=").isPrefixOf line then some (line.drop (ascii "RESULT=").length) else none

/-- The end of the first header whose line is complete. -/
def findHeader (magic bytes : Bytes) : List ℕ → Probing (Option ℕ)
  | [] => .ok none
  | offset :: offsets => do
    let window ← slice bytes offset (offset + magic.length)
    (if window ≠ magic then findHeader magic bytes offsets
      else do
        let after ← slice bytes (offset + magic.length) bytes.length
        (lineBreak after).elim (findHeader magic bytes offsets) fun size => .ok (some (offset + magic.length + size)))

variable (p : ProbeProtocol)

/-- Look at the lines one by one: the result, or where the last line begins. -/
def ProbeProtocol.scanLines (p : ProbeProtocol) (body : Bytes) : ℕ → ℕ → Probing (CompleteFrame ⊕ ℕ)
  | 0, _ => .error .exhausted
  | fuel + 1, offset => do
    let rest ← slice body offset body.length
    (rest.findIdx? (· = newline)).elim (.ok (.inr offset)) fun length => do
      let raw ← slice body offset (offset + length)
      let line := stripReturn raw
      (if maxProbeLineBytes < line.length then report (p.error exceededLine)
        else (stripResult line).elim (p.scanLines body fuel (offset + length + 1)) fun result => do
          let fields ← slice body 0 offset
          .ok (.inl ⟨fields, result, offset + length + 1⟩))

def ProbeProtocol.frame (bytes : Bytes) : Probing (Option CompleteFrame) := do
  let bytes ← slice bytes 0 (min bytes.length p.maximumOutput)
  let header ← findHeader p.magic bytes (List.range (bytes.length + 1 - p.magic.length))
  header.elim
    (if bytes.length = p.maximumOutput then report (p.error exceededOutput) else .ok none)
    fun start => do
      let body ← slice bytes start bytes.length
      let scanned ← p.scanLines body (body.length + 1) 0
      scanned.elim (fun found => .ok (some { found with stop := start + found.stop })) fun offset =>
        if maxProbeLineBytes < body.length - offset then report (p.error exceededLine)
        else if bytes.length = p.maximumOutput then report (p.error exceededOutput)
        else .ok none

/-- Take the chunks that arrive before the deadline, until the answer is complete. -/
def ProbeProtocol.collectOutput (p : ProbeProtocol) : Bytes → List Bytes → Probing Bytes
  | bytes, [] => .ok bytes
  | bytes, chunk :: chunks => do
    let remaining ← minus p.maximumOutput bytes.length
    let added ← slice chunk 0 (min chunk.length remaining)
    let bytes := bytes ++ added
    let frame ← p.frame bytes
    frame.elim (p.collectOutput bytes chunks) fun frame => .ok (bytes.take frame.stop)

def ProbeProtocol.collect (output : Option (List Bytes)) : Probing Bytes :=
  output.elim (report (p.error "output is unavailable")) (p.collectOutput [])

end Framing

section Fields

def hexDigit (n : ℕ) : Char := if n < 10 then Char.ofNat (48 + n) else Char.ofNat (87 + n)

def escapeDefault (byte : UInt8) : List Char :=
  if byte = 9 then ['\\', 't']
  else if byte = carriageReturn then ['\\', 'r']
  else if byte = newline then ['\\', 'n']
  else if byte = 34 ∨ byte = 39 ∨ byte = 92 then ['\\', Char.ofNat byte.toNat]
  else if 32 ≤ byte ∧ byte ≤ 126 then [Char.ofNat byte.toNat]
  else ['\\', 'x', hexDigit (byte.toNat / 16), hexDigit (byte.toNat % 16)]

def escaped (bytes : Bytes) (maximum : ℕ) (tail : Bool) : String :=
  if bytes = [] then "<empty>"
  else
    let start := if tail then bytes.length - maximum else 0
    let front := if 0 < start then "..." else ""
    let middle := String.ofList (((bytes.drop start).take maximum).flatMap escapeDefault)
    let back := if !tail && maximum < bytes.length then "..." else ""
    front ++ middle ++ back

abbrev Fields := List (Bytes × Bytes)

def swapRemove (fields : Fields) (index : ℕ) : Fields :=
  match fields.getLast? with
  | none => []
  | some last => (fields.set index last).dropLast

variable (p : ProbeProtocol)

def ProbeProtocol.parseFields (p : ProbeProtocol) : List Bytes → Fields → Probing Fields
  | [], fields => .ok fields
  | raw :: lines, fields =>
    let line := stripReturn raw
    if line = [] then p.parseFields lines fields
    else (line.findIdx? (· = 61)).elim (report (p.error "returned a malformed field")) fun separator =>
      let key := line.take separator
      if fields.any (·.1 = key) then report (p.error ("repeated " ++ escaped key 96 false))
      else p.parseFields lines (fields ++ [(key, line.drop (separator + 1))])

/-- Take the value of a field that must be there. -/
def ProbeProtocol.required (fields : Fields) (key : Bytes) : Probing (Bytes × Fields) :=
  match fields.findIdx? (·.1 = key) with
  | none => report (p.error ("is missing " ++ escaped key 96 false))
  | some index => .ok (((fields[index]?.map Prod.snd).getD []), swapRemove fields index)

def ProbeProtocol.finish (fields : Fields) : Probing Unit :=
  match fields with
  | [] => .ok ()
  | (key, _) :: _ => report (p.error ("returned an unknown field: " ++ escaped key 96 false))

/-- What a complete answer says. -/
def ProbeProtocol.conclude (complete : CompleteFrame) : Probing Fields := do
  let fields ← p.parseFields (complete.body.splitOn newline) []
  (if complete.result = ascii "READY" then .ok fields
    else if complete.result = ascii "ERROR" then do
      let (reason, others) ← p.required fields (ascii "ERROR")
      p.finish others
      report (p.error ("failed: " ++ escaped reason 512 false))
    else report (p.error "returned an invalid RESULT"))

def ProbeProtocol.incomplete (bytes : Bytes) : SessionError :=
  let reason := if (List.range bytes.length).any fun offset => p.magic.isPrefixOf (bytes.drop offset) then "protocol frame has no complete RESULT"
    else "protocol marker is missing"
  p.error ("result was incomplete (" ++ reason ++ "; captured output: " ++ escaped bytes 512 true ++ ")")

def ProbeProtocol.parse (bytes : Bytes) : Probing Fields := do
  let complete ← p.frame bytes
  complete.elim (report (p.incomplete bytes)) p.conclude

/-- What a probe's answer, received in these chunks, says. -/
def ProbeProtocol.read (chunks : List Bytes) : Probing Fields := do
  let bytes ← p.collect (some chunks)
  p.parse bytes

end Fields

end Lasper.Probe
