/-!
# Reading UTF-16 units

A sequence of 16-bit units is a text except where a surrogate stands alone.

* (pairs) a high surrogate directly before a low surrogate is one supplementary character;
* (loss) a surrogate outside such a pair reads as the replacement character.
-/

namespace ClassCensus.Text.Utf16

/-- A unit of the first half of a pair. -/
def isHighSurrogate (u : UInt16) : Bool :=
  0xD800 ≤ u && u < 0xDC00

/-- A unit of the second half of a pair. -/
def isLowSurrogate (u : UInt16) : Bool :=
  0xDC00 ≤ u && u < 0xE000

/-- The character of a unit that belongs to no pair. -/
def single (u : UInt16) : Char :=
  if isHighSurrogate u || isLowSurrogate u then '\uFFFD' else Char.ofNat u.toNat

/-- The character of a high and a low surrogate. -/
def pair (high low : UInt16) : Char :=
  Char.ofNat (0x10000 + (high.toNat - 0xD800) * 0x400 + (low.toNat - 0xDC00))

/-- The characters of units, after the characters `read` (latest first). -/
def charsOnto (read : List Char) : List UInt16 → List Char
  | [] => read.reverse
  | [u] => (single u :: read).reverse
  | u :: v :: units =>
    if isHighSurrogate u && isLowSurrogate v then charsOnto (pair u v :: read) units
    else charsOnto (single u :: read) (v :: units)

/-- The text of units. -/
def decodeLossy (units : List UInt16) : String :=
  String.ofList (charsOnto [] units)

end ClassCensus.Text.Utf16
