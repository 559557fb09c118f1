import Lasper.Lib.Scanning

/-! The embedded terminal between the pseudoterminal and its VT processor. What may still
become the sequence that enters the alternate screen is held back, and what is known about
the cursor is kept beside the processor, piece by piece of the output. -/

namespace Lasper.Terminal.Embedded

open Lib

/-- The VT processor and its screen. A step takes one byte and tells whether the style of the
cursor was asked for. -/
structure Vt (Core Style : Type) where
  step : Core → UInt8 → Core × Bool
  altScreen : Core → Bool
  atHome : Core → Bool
  gotoHome : Core → Core
  cursorStyle : Core → Style
  setCursorStyle : Style → Core → Core
  clearHistory : Core → Core
  altScreen_setCursorStyle : ∀ style core, altScreen (setCursorStyle style core) = altScreen core
  altScreen_clearHistory : ∀ core, altScreen (clearHistory core) = altScreen core
  atHome_setCursorStyle : ∀ style core, atHome (setCursorStyle style core) = atHome core
  atHome_clearHistory : ∀ core, atHome (clearHistory core) = atHome core

structure EmbeddedCursorState (Style : Type) where
  style : Style
  requested : Bool
  deriving DecidableEq

/-- A `TerminalCore` without its input buffer; `styleEvent` is the flag of its listener, and
`advanced` records every byte that `advance` was given. -/
structure Display (Core Style : Type) where
  core : Core
  suppressInitialLineBreaks : Bool := false
  clearPrimaryHistoryOnAltExit : Bool := false
  cursorStyleRequested : Bool := false
  savedPrimaryCursor : Option (EmbeddedCursorState Style) := none
  styleEvent : Bool := false
  advanced : List UInt8 := []

structure TerminalCore (Core Style : Type) where
  inputBuffer : List UInt8 := []
  display : Display Core Style

/-- `ESC [ ? 1 0 4 9 h` -/
def altScreenEnter : List UInt8 := [27, 91, 63, 49, 48, 52, 57, 104]

/-- Where the first window equal to the pattern begins. -/
def position (pattern bytes : List UInt8) : Option ℕ := bytes.tails.findIdx? pattern.isPrefixOf

def longestSuffixPrefix (bytes pattern : List UInt8) : ℕ :=
  ((List.range' 1 (min pattern.length bytes.length)).reverse.find?
    fun length => (pattern.take length).isSuffixOf bytes).getD 0

variable {Core Style : Type} (vt : Vt Core Style)

/-- One byte of the loop in `advance`, which skips a line break at home. -/
def feedByte (skip : Bool) (d : Display Core Style) (byte : UInt8) : Display Core Style :=
  if skip && byte = 10 && vt.atHome d.core then { d with advanced := d.advanced ++ [byte] }
  else
    let next := vt.step d.core byte
    { d with
      core := next.1
      styleEvent := d.styleEvent || next.2
      suppressInitialLineBreaks := d.suppressInitialLineBreaks && !(skip && !vt.atHome next.1)
      advanced := d.advanced ++ [byte] }

def feed (skip : Bool) (d : Display Core Style) (bytes : List UInt8) : Display Core Style :=
  bytes.foldl (feedByte vt skip) d

def consumeCursorStyleRequest (d : Display Core Style) : Display Core Style :=
  { d with cursorStyleRequested := d.cursorStyleRequested || d.styleEvent, styleEvent := false }

def cursorState (d : Display Core Style) : EmbeddedCursorState Style :=
  ⟨vt.cursorStyle d.core, d.cursorStyleRequested⟩

def restorePrimaryCursor (d : Display Core Style) : Display Core Style :=
  match d.savedPrimaryCursor with
  | none => d
  | some saved =>
    { d with
      core := vt.setCursorStyle saved.style d.core
      cursorStyleRequested := saved.requested
      savedPrimaryCursor := none }

def clearPrimaryHistory (d : Display Core Style) : Display Core Style :=
  if d.clearPrimaryHistoryOnAltExit then
    { d with core := vt.clearHistory d.core, clearPrimaryHistoryOnAltExit := false }
  else d

/-- The end of `advance`, by what the screen was at its start. -/
def settle (wasAltScreen : Bool) (d : Display Core Style) : Display Core Style :=
  if wasAltScreen && !vt.altScreen d.core then
    clearPrimaryHistory vt (restorePrimaryCursor vt (consumeCursorStyleRequest d))
  else consumeCursorStyleRequest d

def advance (d : Display Core Style) (bytes : List UInt8) : Display Core Style :=
  settle vt (vt.altScreen d.core) (feed vt d.suppressInitialLineBreaks d bytes)

/-- After the sequence that enters the alternate screen. -/
def enterAltScreen (wasAltScreen : Bool) (d : Display Core Style) : Display Core Style :=
  if !wasAltScreen && vt.altScreen d.core then
    { d with savedPrimaryCursor := some (cursorState vt d), core := vt.gotoHome d.core }
  else d

def advanceEntering (d : Display Core Style) (bytes : List UInt8) : Display Core Style :=
  enterAltScreen vt (vt.altScreen d.core) (advance vt d bytes)

/-- The loop of `process_input_buffer`, for so many rounds. -/
def processInputBuffer : ℕ → TerminalCore Core Style → Option (TerminalCore Core Style)
  | 0, _ => none
  | rounds + 1, t =>
    match position altScreenEnter t.inputBuffer with
    | some index =>
      let split := index + altScreenEnter.length
      processInputBuffer rounds
        ⟨t.inputBuffer.drop split, advanceEntering vt t.display (t.inputBuffer.take split)⟩
    | none =>
      let processLen := t.inputBuffer.length - longestSuffixPrefix t.inputBuffer altScreenEnter
      if processLen = 0 then some t
      else
        processInputBuffer rounds
          ⟨t.inputBuffer.drop processLen, advance vt t.display (t.inputBuffer.take processLen)⟩

/-- `process`, which leaves its loop after at most one round for each byte. -/
def process (t : TerminalCore Core Style) (data : List UInt8) : Option (TerminalCore Core Style) :=
  let buffer := t.inputBuffer ++ data
  processInputBuffer vt (buffer.length + 1) ⟨buffer, t.display⟩

/-- The calls in which a stream of output arrives. -/
def processAll (t : TerminalCore Core Style) (cut : List (List UInt8)) : Option (TerminalCore Core Style) :=
  cut.foldlM (process vt) t

end Lasper.Terminal.Embedded
