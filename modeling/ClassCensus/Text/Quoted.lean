import ClassCensus.Text.Printable

/-!
# Quoted text

Messages quote a text between double quotes. The quote and the backslash take a backslash, the four common
controls have a letter of their own, and every other character that does not print as itself is written as the
hexadecimal number of its code point.

* `quoteChar` writes one character, `quote` a whole text.
-/

namespace ClassCensus.Text

/-- A number in lower-case hexadecimal digits, without leading zeros. -/
def hex (n : Nat) : String :=
  String.ofList (Nat.toDigits 16 n)

/-- A number in lower-case hexadecimal digits, filled with zeros to at least `width` places. -/
def hexPadded (width n : Nat) : String :=
  let digits := Nat.toDigits 16 n
  String.ofList (List.replicate (width - digits.length) '0' ++ digits)

/-- A number in upper-case hexadecimal digits, filled with zeros to at least `width` places. -/
def hexUpperPadded (width n : Nat) : String :=
  (hexPadded width n).toUpper

/-- The form of one character inside a quoted text. -/
def quoteChar (c : Char) : List Char :=
  if c = '"' then ['\\', '"']
  else if c = '\\' then ['\\', '\\']
  else if c = '\t' then ['\\', 't']
  else if c = '\n' then ['\\', 'n']
  else if c = '\r' then ['\\', 'r']
  else if c = '\x00' then ['\\', '0']
  else if isPrintable c then [c]
  else "\\u\x7b".toList ++ Nat.toDigits 16 c.toNat ++ ['\x7d']

/-- A text between double quotes, with every character in its quoted form. -/
def quote (s : String) : String :=
  String.ofList ('"' :: s.toList.flatMap quoteChar ++ ['"'])

end ClassCensus.Text
