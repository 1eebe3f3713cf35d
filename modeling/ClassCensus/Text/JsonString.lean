import ClassCensus.Text.Quoted

/-!
# JSON strings

A JSON string stands between double quotes. The quote, the backslash and the controls below U+0020 are escaped, five
of the controls by a letter and the others by four hexadecimal digits; every other character stands for itself.

* `jsonChar` writes one character, `jsonString` a whole text.
-/

namespace ClassCensus.Text

/-- The form of one character inside a JSON string. -/
def jsonChar (c : Char) : List Char :=
  if c = '"' then ['\\', '"']
  else if c = '\\' then ['\\', '\\']
  else if c = '\x08' then ['\\', 'b']
  else if c = '\x0c' then ['\\', 'f']
  else if c = '\n' then ['\\', 'n']
  else if c = '\r' then ['\\', 'r']
  else if c = '\t' then ['\\', 't']
  else if c < ' ' then '\\' :: 'u' :: (hexPadded 4 c.toNat).toList
  else [c]

/-- A text as a JSON string. -/
def jsonString (s : String) : String :=
  String.ofList ('"' :: s.toList.flatMap jsonChar ++ ['"'])

end ClassCensus.Text
