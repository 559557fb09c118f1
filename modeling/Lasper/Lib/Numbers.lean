import Lasper.Lib.Text

/-! Numbers and words in a text, as the standard library reads them. -/

namespace Lasper.Lib.Text

/-- The value of digits in base ten. -/
def decimalValue (digits : Text) : ℕ := digits.foldl (fun value c => 10 * value + (c.toNat - '0'.toNat)) 0

/-- A plus sign may stand before the digits. -/
def withoutPlus : Text → Text
  | '+' :: rest => rest
  | text => text

/-- A number below the bound. -/
def parseUnsigned (bound : ℕ) (text : Text) : Option ℕ :=
  if withoutPlus text ≠ [] ∧ (withoutPlus text).all Char.isDigit = true ∧ decimalValue (withoutPlus text) < bound then
    some (decimalValue (withoutPlus text))
  else none

def isAsciiWhitespace (c : Char) : Bool :=
  c = ' ' || c = '\t' || c = '\n' || c = '\r' || c = Char.ofNat 0x0C

/-- The words of a text. -/
def splitAsciiWhitespace (text : Text) : List Text := (text.splitOnP isAsciiWhitespace).filter (· ≠ [])

end Lasper.Lib.Text
