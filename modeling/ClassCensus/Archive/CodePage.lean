/-!
# Names in code page 437

Archives write the names of their entries in UTF-8 or in code page 437, which agrees with ASCII below 128.

* (total) every byte string is a name; each byte is one character.
-/

namespace ClassCensus.Archive

/-- The characters of the bytes from 128 on. -/
def upperCodePage : String :=
  "ÇüéâäàåçêëèïîìÄÅÉæÆôöòûùÿÖÜ¢£¥₧ƒ" ++
  "áíóúñÑªº¿⌐¬½¼¡«»░▒▓│┤╡╢╖╕╣║╗╝╜╛┐" ++
  "└┴┬├─┼╞╟╚╔╩╦╠═╬╧╨╤╥╙╘╒╓╫╪┘┌█▄▌▐▀" ++
  "αßΓπΣσµτΦΘΩδ∞φε∩≡±≥≤⌠⌡÷≈°∙·√ⁿ²■\u00A0"

/-- The character of a byte. -/
def codePageChar (b : UInt8) : Char :=
  if b < 128 then Char.ofNat b.toNat else upperCodePage.toList.getD (b.toNat - 128) '\uFFFD'

/-- The text of a name in code page 437. -/
def codePageText (bytes : List UInt8) : String :=
  String.ofList (bytes.map codePageChar)

end ClassCensus.Archive
