import ClassCensus.ClassFile.Cursor

/-!
# Annotations and their element values

An annotation names its type and holds element values; an element value may hold further values or an annotation, so
both are decoded together.

* (kept) of a value only what can name a type is kept: the index of an enum type, of a class, or the values inside;
* (depth) decoding is recursion on the levels still allowed; an annotation inside a value and each value inside an
  annotation or an array cost one level, and the level after the last one fails before a byte is read.
-/

namespace ClassCensus

/-- The value of an annotation element. -/
inductive ElementValue where
  /-- A number or a text. -/
  | const
  | enum (type : UInt16)
  | classInfo (type : UInt16)
  /-- An annotation, by the index of its type and the values of its elements. -/
  | nested (type : UInt16) (elements : List ElementValue)
  | array (values : List ElementValue)

/-- An annotation attached to something: the index of its type and the values of its elements. -/
structure AnnotationUse where
  type : UInt16
  elements : List ElementValue

/-- The kinds of element values, told apart by their tags. -/
inductive ElementValue.Kind where
  | const
  | enum
  | classInfo
  | nested
  | array
deriving DecidableEq

/-- The tags of element values. -/
def ElementValue.kinds : List (Char × ElementValue.Kind) := [
  ('B', .const), ('C', .const), ('D', .const), ('F', .const), ('I', .const), ('J', .const), ('S', .const),
  ('Z', .const), ('s', .const), ('e', .enum), ('c', .classInfo), ('@', .nested), ('[', .array)]

/-- The kind of element value that a tag announces. -/
def ElementValue.Kind.ofTag? (tag : UInt8) : Option ElementValue.Kind :=
  (ElementValue.kinds.find? fun row => row.1.toNat = tag.toNat).map (·.2)

mutual

/-- The element value that comes next, if `levels` allow it. -/
def ElementValue.decoder : (levels : Nat) → Decoder ElementValue
  | 0 => do throw (.elementValuesTooDeep (← Decoder.offset))
  | levels + 1 => do
    let offset ← Decoder.offset
    let tag ← Decoder.u8
    match ElementValue.Kind.ofTag? tag with
    | some .const =>
      Decoder.skip 2
      return .const
    | some .enum =>
      let type ← Decoder.u16
      Decoder.skip 2
      return .enum type
    | some .classInfo => return .classInfo (← Decoder.u16)
    | some .nested =>
      let nested ← AnnotationUse.decoder levels
      return .nested nested.type nested.elements
    | some .array => return .array (← Decoder.table (ElementValue.decoder levels))
    | none => throw (.unknownElementTag tag offset)

/-- The annotation that comes next, if `levels` allow it. -/
def AnnotationUse.decoder : (levels : Nat) → Decoder AnnotationUse
  | 0 => do throw (.elementValuesTooDeep (← Decoder.offset))
  | levels + 1 => do
    let type ← Decoder.u16
    let elements ← Decoder.table do
      Decoder.skip 2
      ElementValue.decoder levels
    return ⟨type, elements⟩

end

/-- The number of levels of an outermost annotation or element value. -/
def elementLevels : Nat := maxNestingDepth + 1

/-- A table of annotations. -/
def AnnotationUse.tableDecoder : Decoder (List AnnotationUse) :=
  Decoder.table (AnnotationUse.decoder elementLevels)

/-- The tables of annotations of the parameters of a method, counted in one byte, as one table. -/
def AnnotationUse.parameterTableDecoder : Decoder (List AnnotationUse) := do
  let parameters ← Decoder.u8
  return (← Decoder.times parameters.toNat AnnotationUse.tableDecoder).flatten

/-- Passes over the part of a type annotation that says which type it is attached to. -/
def AnnotationUse.skipTarget : Decoder Unit := do
  let offset ← Decoder.offset
  let target ← Decoder.u8
  if target ≤ 0x01 ∨ target = 0x16 then Decoder.skip 1
  else if (0x10 ≤ target ∧ target ≤ 0x12) ∨ target = 0x17 ∨ (0x42 ≤ target ∧ target ≤ 0x46) then Decoder.skip 2
  else if 0x13 ≤ target ∧ target ≤ 0x15 then pure ()
  else if target = 0x40 ∨ target = 0x41 then Decoder.skip ((← Decoder.u16).toNat * 6)
  else if 0x47 ≤ target ∧ target ≤ 0x4B then Decoder.skip 3
  else throw (.unknownTypeTarget target offset)
  let pathLength ← Decoder.u8
  Decoder.skip (pathLength.toNat * 2)

/-- A table of type annotations. -/
def AnnotationUse.typeTableDecoder : Decoder (List AnnotationUse) :=
  Decoder.table do
    AnnotationUse.skipTarget
    AnnotationUse.decoder elementLevels

end ClassCensus
