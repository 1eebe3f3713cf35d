import ClassCensus.TypeText.Cursor

/-!
# Descriptors

A descriptor is the type of a field, or the types of the parameters and of the result of a method.

* (arrays) a type has at most 255 array dimensions (`maxDimensions`); the fault shows at the first bracket too many;
* (classes) `Descriptor.classNames` lists the classes named, left to right with repetitions; array brackets and
  primitive types name none.
-/

namespace ClassCensus

/-- The greatest number of array dimensions of a type. -/
def maxDimensions : Nat := 255

/-- The primitive types. -/
inductive PrimitiveType where
  | byte
  | char
  | double
  | float
  | int
  | long
  | short
  | boolean
deriving DecidableEq

/-- The primitive types and their letters. -/
def PrimitiveType.letters : List (Char × PrimitiveType) := [
  ('B', .byte), ('C', .char), ('D', .double), ('F', .float), ('I', .int), ('J', .long), ('S', .short),
  ('Z', .boolean)]

/-- The primitive type of a letter. -/
def PrimitiveType.ofLetter? (c : Char) : Option PrimitiveType :=
  letters.lookup c

/-- A type that is not an array type. -/
inductive ElementType where
  | primitive (type : PrimitiveType)
  | object (name : String)
deriving DecidableEq

/-- The type of a field: an element type under a number of array dimensions. -/
structure FieldType where
  dimensions : Nat
  element : ElementType
deriving DecidableEq

/-- A descriptor; the result of a method is absent if it returns nothing. -/
inductive Descriptor where
  | field (type : FieldType)
  | method (parameters : List FieldType) (result? : Option FieldType)
deriving DecidableEq

namespace TypeParser

/-- The array brackets ahead, as their number. -/
def dimensions : TypeParser Nat := fun cursor =>
  let brackets := (cursor.rest.takeWhile (· = '[')).length
  if brackets ≤ maxDimensions then .ok brackets ⟨cursor.position + brackets, cursor.rest.drop brackets⟩
  else .error .tooManyDimensions ⟨cursor.position + maxDimensions, cursor.rest.drop maxDimensions⟩

/-- The element type ahead. -/
def elementType : TypeParser ElementType := do
  match ← peek with
  | none => throw .endOfDescriptor
  | some c =>
    match PrimitiveType.ofLetter? c with
    | some type =>
      advance
      return .primitive type
    | none =>
      if c ≠ 'L' then throw .invalidType
      advance
      let name ← identifier (· = ';')
      advance
      return .object name

/-- The type of a field. -/
def fieldType : TypeParser FieldType := do
  let dimensions ← dimensions
  let element ← elementType
  return ⟨dimensions, element⟩

/-- The result of a method, after its parameters. -/
def result {α : Type} (type : TypeParser α) : TypeParser (Option α) := do
  if (← peek) = some 'V' then
    advance
    return none
  else return some (← type)

/-- A field descriptor or a method descriptor. -/
def descriptor (bound : Nat) : TypeParser Descriptor := do
  if (← peek) = some '(' then
    advance
    let parameters ← repeatWhile bound (· ≠ some ')') fieldType
    advance
    return .method parameters (← result fieldType)
  else return .field (← fieldType)

end TypeParser

/-- The class that a type names, if any. -/
def FieldType.className? (type : FieldType) : Option String :=
  match type.element with
  | .primitive _ => none
  | .object name => some name

/-- The types of a descriptor, from left to right. -/
def Descriptor.types : Descriptor → List FieldType
  | .field type => [type]
  | .method parameters result? => parameters ++ result?.toList

/-- The classes that a descriptor names, from left to right. -/
def Descriptor.classNames (d : Descriptor) : List String :=
  d.types.filterMap FieldType.className?

/-- The field type that a text spells. -/
def FieldType.parse (text : String) : Except FormatError FieldType :=
  TypeParser.parse (fun _ => TypeParser.fieldType) text

/-- The descriptor that a text spells. -/
def Descriptor.parse (text : String) : Except FormatError Descriptor :=
  TypeParser.parse TypeParser.descriptor text

end ClassCensus
