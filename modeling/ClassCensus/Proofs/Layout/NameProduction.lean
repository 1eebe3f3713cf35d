import ClassCensus.Layout.Character
import ClassCensus.Layout.XmlName
import ClassCensus.Proofs.Layout.DottedNames
import ClassCensus.Proofs.Text.Utf8

/-!
# The production of names

XML 1.0 gives the characters of names as productions over code points (`NameStartChar`, `NameChar`).  The tables of
ranges hold the same characters (`isNameStart_iff`, `isNameChar_iff`).  A `Name` is a text of the production; its bytes
have no mark of any kind in them (`Name.ascii_notMem`).
-/

namespace ClassCensus.Layout

open Text.Utf8 (encode)

/-- The characters that may start a name. -/
def NameStartChar (c : Char) : Prop :=
  c = ':' ∨ 'A' ≤ c ∧ c ≤ 'Z' ∨ c = '_' ∨ 'a' ≤ c ∧ c ≤ 'z' ∨ 0xC0 ≤ c.toNat ∧ c.toNat ≤ 0xD6 ∨
    0xD8 ≤ c.toNat ∧ c.toNat ≤ 0xF6 ∨ 0xF8 ≤ c.toNat ∧ c.toNat ≤ 0x2FF ∨ 0x370 ≤ c.toNat ∧ c.toNat ≤ 0x37D ∨
    0x37F ≤ c.toNat ∧ c.toNat ≤ 0x1FFF ∨ 0x200C ≤ c.toNat ∧ c.toNat ≤ 0x200D ∨
    0x2070 ≤ c.toNat ∧ c.toNat ≤ 0x218F ∨ 0x2C00 ≤ c.toNat ∧ c.toNat ≤ 0x2FEF ∨
    0x3001 ≤ c.toNat ∧ c.toNat ≤ 0xD7FF ∨ 0xF900 ≤ c.toNat ∧ c.toNat ≤ 0xFDCF ∨
    0xFDF0 ≤ c.toNat ∧ c.toNat ≤ 0xFFFD ∨ 0x10000 ≤ c.toNat ∧ c.toNat ≤ 0xEFFFF

/-- The characters that may stand in a name. -/
def NameChar (c : Char) : Prop :=
  NameStartChar c ∨ c = '-' ∨ c = '.' ∨ '0' ≤ c ∧ c ≤ '9' ∨ c.toNat = 0xB7 ∨ 0x300 ≤ c.toNat ∧ c.toNat ≤ 0x36F ∨
    0x203F ≤ c.toNat ∧ c.toNat ≤ 0x2040

private theorem le_iff_toNat {c d : Char} : c ≤ d ↔ c.toNat ≤ d.toNat :=
  UInt32.le_iff_toNat_le

/-- A character as a range of its own. -/
private theorem eq_iff_toNat {c d : Char} : c = d ↔ d.toNat ≤ c.toNat ∧ c.toNat ≤ d.toNat := by
  rw [← Char.toNat_inj]
  omega

theorem isNameStart_iff {c : Char} : isNameStart c = true ↔ NameStartChar c := by
  simp only [isNameStart, inRanges, nameStartRanges, NameStartChar, List.any_cons, List.any_nil, Bool.or_false,
    Bool.or_eq_true, Bool.and_eq_true, decide_eq_true_eq, le_iff_toNat, eq_iff_toNat (c := c)]
  rfl

theorem isNameChar_iff {c : Char} : isNameChar c = true ↔ NameChar c := by
  have point : c.toNat = 0xB7 ↔ 0xB7 ≤ c.toNat ∧ c.toNat ≤ 0xB7 := by omega
  simp only [isNameChar, isNameStart_iff, inRanges, nameOnlyRanges, NameChar, List.any_cons, List.any_nil,
    Bool.or_false, Bool.or_eq_true, Bool.and_eq_true, decide_eq_true_eq, le_iff_toNat, eq_iff_toNat (c := c), point]
  rfl

/-- A text of the production of names. -/
structure Name where
  first : Char
  others : List Char
  start : NameStartChar first
  all : ∀ c ∈ others, NameChar c

namespace Name

/-- The characters of a name. -/
def chars (name : Name) : List Char :=
  name.first :: name.others

/-- The name as a text. -/
def text (name : Name) : String :=
  String.ofList name.chars

theorem isName_text (name : Name) : isName name.text = true := by
  rw [text, chars, isName, String.toList_ofList]
  exact Bool.and_eq_true_iff.2
    ⟨isNameStart_iff.2 name.start, List.all_eq_true.2 fun c mem => isNameChar_iff.2 (name.all c mem)⟩

/-- A character that no name has does not occur in a name. -/
theorem notMem {c : Char} (name : Name) (outside : isNameChar c = false) : c ∉ name.chars := by
  intro mem
  have inside := isNameChar_of_mem name.isName_text c (by simpa [text] using mem)
  exact Bool.false_ne_true (outside.symm.trans inside)

theorem ascii_notMem {c : Char} (name : Name) (outside : c.toNat < 0x80 ∧ isNameChar c = false) :
    ascii c ∉ encode name.chars :=
  fun mem => name.notMem outside.2 ((Text.Utf8.mem_encode_iff outside.1).1 mem)

end Name

end ClassCensus.Layout
