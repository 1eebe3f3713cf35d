/-!
# Bytes of documents

Markup is found byte by byte; this module names the bytes that matter to it.
-/

namespace ClassCensus.Layout

/-- The byte of an ASCII character. -/
def ascii (c : Char) : UInt8 :=
  UInt8.ofNat c.toNat

/-- The bytes of an ASCII text. -/
def asciiText (text : String) : List UInt8 :=
  text.toList.map ascii

/-- The byte is a space, a tab or a part of a line break. -/
def isBlank (b : UInt8) : Bool :=
  b = 0x20 || b = 0x09 || b = 0x0D || b = 0x0A

/-- The bytes without the blanks at their end. -/
def trimEnd (bytes : List UInt8) : List UInt8 :=
  (bytes.reverse.dropWhile isBlank).reverse

end ClassCensus.Layout
