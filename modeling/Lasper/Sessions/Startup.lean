import Lasper.Lib.Text

/-! How a failed terminal startup crosses the descriptor channel. The daemon sends
a serialized error in one message; the client reads at most the length of its
buffer, and takes what it cannot parse for a plain text. -/

namespace Lasper.Sessions

open Lib

structure SessionError where
  message : String
  hint : Option String := none
  deriving DecidableEq

inductive TerminalOpenError
  | waylandPreparation (error : SessionError)
  | terminal (error : SessionError)
  deriving DecidableEq

def TerminalOpenError.intoSessionError : TerminalOpenError → SessionError
  | .waylandPreparation error | .terminal error => error

inductive WireTerminalFailurePhase
  | waylandPreparation
  | terminal
  deriving DecidableEq

structure WireTerminalStartupError where
  phase : WireTerminalFailurePhase
  message : String
  hint : Option String
  deriving DecidableEq

def TerminalOpenError.toWire (error : TerminalOpenError) : WireTerminalStartupError :=
  { phase := match error with
      | .waylandPreparation _ => .waylandPreparation
      | .terminal _ => .terminal
    message := error.intoSessionError.message
    hint := error.intoSessionError.hint }

def WireTerminalStartupError.into (error : WireTerminalStartupError) : TerminalOpenError :=
  let reason : SessionError :=
    match error.hint with
    | some hint => ⟨error.message, some hint⟩
    | none => ⟨error.message, none⟩
  match error.phase with
  | .waylandPreparation => .waylandPreparation reason
  | .terminal => .terminal reason

@[simp] theorem into_toWire (error : TerminalOpenError) : error.toWire.into = error := by
  cases error with
  | waylandPreparation reason => cases reason with | mk message hint => cases hint <;> rfl
  | terminal reason => cases reason with | mk message hint => cases hint <;> rfl

/-- The JSON texts of startup errors, and the standard library's words for bytes
that are not UTF-8. -/
structure StartupCodec where
  toText : WireTerminalStartupError → String
  fromText : String → Option WireTerminalStartupError
  utf8Error : ByteArray → String

/-- The receiver's buffer, in bytes. -/
def fdResponseBuffer : ℕ := 512

variable (codec : StartupCodec)

/-- `error.into()` of an I/O error. -/
def ioOpenError (message : String) : TerminalOpenError := .terminal { message := message }

def daemonFdError (message : String) : String :=
  "daemon error: " ++ String.ofList (Text.trim message.toList)

def receiveFdResponse (payload : ByteArray) : Except String String :=
  let received := payload.extract 0 fdResponseBuffer
  match String.fromUTF8? received with
  | some message => .ok message
  | none => .error (codec.utf8Error received)

def decodeTerminalStartupError (message : String) : TerminalOpenError :=
  match codec.fromText message with
  | some error => error.into
  | none => ioOpenError (daemonFdError message)

/-- The reply of `open` to a failed preparation. -/
def startupReply (error : TerminalOpenError) : ByteArray := (codec.toText error.toWire).toUTF8

/-- What `spawn_terminal` returns for a reply without descriptors. -/
def spawnTerminalFailure (payload : ByteArray) : TerminalOpenError :=
  match receiveFdResponse codec payload with
  | .ok message => decodeTerminalStartupError codec message
  | .error error => ioOpenError error

/-- The text that stands in for a reply that was cut short. -/
def cutReplyText (payload : ByteArray) : String :=
  match receiveFdResponse codec payload with
  | .ok message => daemonFdError message
  | .error error => error

section Startup

variable {codec : StartupCodec} {error : TerminalOpenError}

theorem fromUTF8?_toUTF8 (text : String) : String.fromUTF8? text.toUTF8 = some text := dif_pos text.isValidUTF8

theorem fromUTF8?_eq_some {bytes : ByteArray} {text : String} (h : String.fromUTF8? bytes = some text) :
    text.toUTF8 = bytes := by
  unfold String.fromUTF8? at h
  split at h
  · cases h
    rfl
  · cases h

/-- A reply that fits is read whole. -/
theorem receive_fitting {text : String} (hfits : text.utf8ByteSize ≤ fdResponseBuffer) :
    receiveFdResponse codec text.toUTF8 = .ok text := by
  have hwhole : text.toUTF8.extract 0 fdResponseBuffer = text.toUTF8 := by
    have hmax := ByteArray.extract_zero_max_size (a := text.toUTF8) (i := fdResponseBuffer)
    rwa [max_eq_left (show text.toUTF8.size ≤ fdResponseBuffer from hfits)] at hmax
  unfold receiveFdResponse
  rw [hwhole]
  simp only [fromUTF8?_toUTF8]

/-- What is left of a longer reply is a proper prefix of it. -/
theorem receive_cut {text message : String} (hlong : fdResponseBuffer < text.utf8ByteSize)
    (h : receiveFdResponse codec text.toUTF8 = .ok message) :
    ∃ rest : ByteArray, 0 < rest.size ∧ text.toUTF8 = message.toUTF8 ++ rest := by
  unfold receiveFdResponse at h
  dsimp only at h
  split at h
  · rename_i text' hcut
    cases h
    rw [fromUTF8?_eq_some hcut]
    refine ⟨text.toUTF8.extract fdResponseBuffer text.toUTF8.size, ?_, ?_⟩
    · have hsize : text.toUTF8.size = text.utf8ByteSize := rfl
      rw [ByteArray.size_extract]
      omega
    · rw [ByteArray.extract_append_extract]
      have hsize : text.toUTF8.size = text.utf8ByteSize := rfl
      rw [Nat.min_eq_left (Nat.zero_le _), max_eq_right (by omega), ByteArray.extract_zero_size]
  · cases h

/-- A reply that does not fit is taken for a plain text. -/
theorem failure_of_cut {text : String} (hlong : fdResponseBuffer < text.utf8ByteSize)
    (hcuts : ∀ (cut : String) (rest : ByteArray), 0 < rest.size → text.toUTF8 = cut.toUTF8 ++ rest →
      codec.fromText cut = none) :
    spawnTerminalFailure codec text.toUTF8 = ioOpenError (cutReplyText codec text.toUTF8) := by
  unfold spawnTerminalFailure cutReplyText
  cases hreceived : receiveFdResponse codec text.toUTF8 with
  | error error => rfl
  | ok message =>
    obtain ⟨rest, hrest, hsplit⟩ := receive_cut hlong hreceived
    simp only [decodeTerminalStartupError, hcuts message rest hrest hsplit]

theorem failure_of_fitting (hfits : (codec.toText error.toWire).utf8ByteSize ≤ fdResponseBuffer)
    (hround : codec.fromText (codec.toText error.toWire) = some error.toWire) :
    spawnTerminalFailure codec (startupReply codec error) = error := by
  unfold spawnTerminalFailure startupReply
  rw [receive_fitting hfits]
  simp only [decodeTerminalStartupError, hround, into_toWire]

end Startup

section Claims

variable {codec : StartupCodec} {error : TerminalOpenError}

/-- An error survives the channel exactly when its reply fits the buffer, a plain
failure apart whose message is the very text that stands in for its cut reply. A
reply that does not fit always reads as a plain failure. -/
theorem startup_error_survives_iff (hround : codec.fromText (codec.toText error.toWire) = some error.toWire)
    (hcuts : ∀ (cut : String) (rest : ByteArray), 0 < rest.size →
      (codec.toText error.toWire).toUTF8 = cut.toUTF8 ++ rest → codec.fromText cut = none) :
    (spawnTerminalFailure codec (startupReply codec error) = error ↔
      (codec.toText error.toWire).utf8ByteSize ≤ fdResponseBuffer ∨
        error = ioOpenError (cutReplyText codec (startupReply codec error))) ∧
    (fdResponseBuffer < (codec.toText error.toWire).utf8ByteSize →
      ∃ message, spawnTerminalFailure codec (startupReply codec error) = .terminal { message := message }) := by
  refine ⟨⟨fun hsame => ?_, fun h => ?_⟩, fun hlong => ⟨_, failure_of_cut hlong hcuts⟩⟩
  · by_cases hfits : (codec.toText error.toWire).utf8ByteSize ≤ fdResponseBuffer
    · exact .inl hfits
    · have hcut := failure_of_cut (Nat.lt_of_not_le hfits) hcuts
      exact .inr (hsame.symm.trans hcut)
  · by_cases hfits : (codec.toText error.toWire).utf8ByteSize ≤ fdResponseBuffer
    · exact failure_of_fitting hfits hround
    · have hcut := failure_of_cut (Nat.lt_of_not_le hfits) hcuts
      exact hcut.trans (h.resolve_left hfits).symm

/-- The texts of preparation failures without a hint, in plain letters. -/
private def preparationFront : String := "\x7b\"phase\":\"wayland_preparation\",\"message\":\""

private def preparationBack : String := "\"\x7d"

private def preparationText (message : String) : String := preparationFront ++ message ++ preparationBack

private def plainCodec (message : String) : StartupCodec where
  toText _ := preparationText message
  fromText text := if text = preparationText message then some ⟨.waylandPreparation, message, none⟩ else none
  utf8Error _ := "incomplete utf-8 byte sequence"

private theorem plainCodec_cut (message cut : String) (rest : ByteArray) (hrest : 0 < rest.size)
    (h : (preparationText message).toUTF8 = cut.toUTF8 ++ rest) : (plainCodec message).fromText cut = none := by
  refine if_neg fun hcut => ?_
  have hsize := congrArg ByteArray.size h
  rw [hcut, ByteArray.size_append] at hsize
  omega

private theorem plainCodec_round (message : String) :
    (plainCodec message).fromText (preparationText message) = some ⟨.waylandPreparation, message, none⟩ := if_pos rfl

private theorem startupReply_plain (message : String) (error : TerminalOpenError) :
    startupReply (plainCodec message) error = (preparationText message).toUTF8 := rfl

private theorem preparationText_size (message : String) :
    (preparationText message).utf8ByteSize = 42 + message.utf8ByteSize + 2 := by
  have hfront : preparationFront.utf8ByteSize = 42 := by decide +kernel
  have hback : preparationBack.utf8ByteSize = 2 := by decide +kernel
  unfold preparationText
  rw [String.utf8ByteSize_append, String.utf8ByteSize_append, hfront, hback]

private def preparationFailure (message : String) : TerminalOpenError := .waylandPreparation { message := message }

theorem startup_error_survives_short :
    spawnTerminalFailure (plainCodec "no such user")
      (startupReply (plainCodec "no such user") (preparationFailure "no such user")) =
        preparationFailure "no such user" := by
  have hfits : (preparationText "no such user").utf8ByteSize ≤ fdResponseBuffer := by
    rw [preparationText_size]
    decide
  exact (startup_error_survives_iff (plainCodec_round "no such user") (plainCodec_cut "no such user")).1.mpr
    (.inl hfits)

private theorem failure_of_letters {n : ℕ} (hn : fdResponseBuffer ≤ n) :
    spawnTerminalFailure (plainCodec (Text.letters n))
      (startupReply (plainCodec (Text.letters n)) (preparationFailure (Text.letters n))) ≠ preparationFailure (Text.letters n) := by
  have hlong : fdResponseBuffer < (preparationText (Text.letters n)).utf8ByteSize := by
    rw [preparationText_size, Text.letters_size]
    omega
  intro hsame
  have hcut := failure_of_cut hlong (plainCodec_cut (Text.letters n))
  rw [startupReply_plain, hcut] at hsame
  cases hsame

theorem long_preparation_failure_is_terminal :
    spawnTerminalFailure (plainCodec (Text.letters 512))
      (startupReply (plainCodec (Text.letters 512)) (preparationFailure (Text.letters 512))) ≠
        preparationFailure (Text.letters 512) :=
  failure_of_letters (Nat.le_refl 512)

end Claims

end Lasper.Sessions
