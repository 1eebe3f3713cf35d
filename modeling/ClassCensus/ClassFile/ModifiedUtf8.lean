import ClassCensus.ClassFile.Error
import ClassCensus.Text.Utf16
import ClassCensus.Text.Utf8

/-!
# Texts of class files

A class file spells a text in UTF-16 units, each in one, two or three bytes; the unit 0 takes two bytes, so no text
holds a zero byte.

* (plain) bytes that are ordinary UTF-8 without U+0000 are that text;
* (units) any other bytes must spell units, and the text is what the units read as, with the replacement character for
  every surrogate outside a pair.
-/

namespace ClassCensus.ModifiedUtf8

/-- The six bits of a byte that continues a unit; any other byte has none. -/
def continuation? (b : UInt8) : Option Nat :=
  if 0x80 ≤ b ∧ b ≤ 0xBF then some (b.toNat % 64) else none

/-- The units that bytes spell, from the position `position` on and after the units `read` (latest first). -/
def unitsOnto (position : Nat) (read : List UInt16) : List UInt8 → Except FormatError (List UInt16)
  | [] => .ok read.reverse
  | b :: bytes =>
    if 0x01 ≤ b ∧ b ≤ 0x7F then
      unitsOnto (position + 1) (b.toUInt16 :: read) bytes
    else if 0xC0 ≤ b ∧ b ≤ 0xDF then
      match bytes with
      | c :: bytes =>
        match continuation? c with
        | some low => unitsOnto (position + 2) (UInt16.ofNat (b.toNat % 32 * 64 + low) :: read) bytes
        | none => .error (.invalidTextSequence position)
      | [] => .error (.invalidTextSequence position)
    else if 0xE0 ≤ b ∧ b ≤ 0xEF then
      match bytes with
      | c :: d :: bytes =>
        match continuation? c, continuation? d with
        | some middle, some low =>
          unitsOnto (position + 3) (UInt16.ofNat ((b.toNat % 16 * 64 + middle) * 64 + low) :: read) bytes
        | _, _ => .error (.invalidTextSequence position)
      | _ => .error (.invalidTextSequence position)
    else .error (.invalidTextByte b position)

/-- The text of bytes that spell units. -/
def decodeUnits (bytes : List UInt8) : Except FormatError String :=
  Text.Utf16.decodeLossy <$> unitsOnto 0 [] bytes

/-- The text of the bytes of a text constant. -/
def decode (bytes : List UInt8) : Except FormatError String :=
  match Text.Utf8.decode bytes, bytes.contains 0 with
  | .ok text, false => .ok text
  | _, _ => decodeUnits bytes

end ClassCensus.ModifiedUtf8
