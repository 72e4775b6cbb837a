/-!
# Decimal numerals

* `Text.natural?` — reads a numeral below a bound: ASCII digits, a `+` allowed in front.
* `Text.uint32?`, `Text.uint16?`, `Text.uint8?` — numerals below the bounds of these words.
-/

namespace MatchTree.Text

/-- Whether the text is a non-empty run of ASCII digits. -/
def isNumeral (cs : List Char) : Bool := !cs.isEmpty && cs.all Char.isDigit

/-- Drops one leading plus sign. -/
def dropPlus : List Char → List Char
  | '+' :: cs => cs
  | cs => cs

/-- The value of a numeral below `bound`; leading zeros and one leading `+` are allowed. -/
def natural? (bound : Nat) (cs : List Char) : Option Nat :=
  let digits := dropPlus cs
  if isNumeral digits then
    let n := Nat.ofDigitChars 10 digits 0
    if n < bound then some n else none
  else none

/-- A 32-bit numeral. -/
def uint32? (cs : List Char) : Option UInt32 := (natural? UInt32.size cs).map UInt32.ofNat

/-- A 16-bit numeral. -/
def uint16? (cs : List Char) : Option UInt16 := (natural? UInt16.size cs).map UInt16.ofNat

/-- An 8-bit numeral. -/
def uint8? (cs : List Char) : Option UInt8 := (natural? UInt8.size cs).map UInt8.ofNat

end MatchTree.Text
