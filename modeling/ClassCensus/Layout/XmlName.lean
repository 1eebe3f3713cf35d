/-!
# Names in documents

The names of elements and attributes: a character that may start a name, then any that may stand in one. The classes
are those of XML 1.0, fifth edition.

* (tables) `nameStartRanges` and `nameOnlyRanges` list the two classes as closed ranges of code points.
-/

namespace ClassCensus.Layout

/-- The characters that may start a name. -/
def nameStartRanges : List (Char × Char) := [
  (':', ':'), ('A', 'Z'), ('_', '_'), ('a', 'z'), ('\u00C0', '\u00D6'), ('\u00D8', '\u00F6'), ('\u00F8', '\u02FF'),
  ('\u0370', '\u037D'), ('\u037F', '\u1FFF'), ('\u200C', '\u200D'), ('\u2070', '\u218F'), ('\u2C00', '\u2FEF'),
  ('\u3001', '\uD7FF'), ('\uF900', '\uFDCF'), ('\uFDF0', '\uFFFD'), (Char.ofNat 0x10000, Char.ofNat 0xEFFFF)]

/-- The characters that may stand in a name but not start it. -/
def nameOnlyRanges : List (Char × Char) := [
  ('-', '-'), ('.', '.'), ('0', '9'), ('\u00B7', '\u00B7'), ('\u0300', '\u036F'), ('\u203F', '\u2040')]

/-- The character lies in one of the ranges. -/
def inRanges (ranges : List (Char × Char)) (c : Char) : Bool :=
  ranges.any fun range => range.1 ≤ c && c ≤ range.2

/-- The character may start a name. -/
def isNameStart (c : Char) : Bool :=
  inRanges nameStartRanges c

/-- The character may stand in a name. -/
def isNameChar (c : Char) : Bool :=
  isNameStart c || inRanges nameOnlyRanges c

/-- The text is a name. -/
def isName (text : String) : Bool :=
  match text.toList with
  | [] => false
  | c :: rest => isNameStart c && rest.all isNameChar

end ClassCensus.Layout
