import ClassCensus.ClassFile.Attribute.Basic
import ClassCensus.ClassFile.Pool

/-!
# Reading attribute tables

A table is a count and that many attributes; an attribute is the index of its name, a length and a body of that
length.

* (bodies) the body is decoded from a cursor of its own, so nothing outside the declared length is read, and a decoded
  body must be used up;
* (names) an attribute of any other name is passed over, whatever its body holds;
* (depth) decoding is recursion on the levels of tables still allowed; the table after the last level fails before its
  count is read.
-/

namespace ClassCensus

namespace Attribute

/-- A row of the table of inner classes, with the name and the flags passed over. -/
def innerClassDecoder : Decoder InnerClass := do
  let inner ← Decoder.u16
  let outer ← Decoder.u16
  Decoder.skip 4
  return ⟨inner, outer⟩

/-- A row of the table of bootstrap methods. -/
def bootstrapMethodDecoder : Decoder BootstrapMethod := do
  let method ← Decoder.u16
  let arguments ← Decoder.u16List
  return ⟨method, arguments⟩

/-- A row of a table of local variables: the index of its type between fields that are passed over. -/
def localVariableDecoder : Decoder UInt16 := do
  Decoder.skip 6
  let type ← Decoder.u16
  Decoder.skip 2
  return type

/-- The type that a row of the table of handlers catches; 0 stands for every type. -/
def handlerDecoder : Decoder UInt16 := do
  Decoder.skip 6
  Decoder.u16

/-- A method body whose own attributes `nested` reads. -/
def codeDecoder (nested : Decoder (List Attribute)) : Decoder Attribute := do
  Decoder.skip 4
  let length ← Decoder.u32
  let code ← Decoder.bytes length.toNat
  let operands ← Decoder.ofExcept (poolOperands code)
  let catchTypes ← Decoder.table handlerDecoder
  let attributes ← nested
  return .code operands (catchTypes.filter (· ≠ 0)) attributes

/-- A record component whose attributes `nested` reads. -/
def componentDecoder (nested : Decoder (List Attribute)) : Decoder RecordComponent := do
  Decoder.skip 2
  let descriptor ← Decoder.u16
  let attributes ← nested
  return ⟨descriptor, attributes⟩

/-- The body of an attribute of a decoded kind, whose nested tables `nested` reads. -/
def bodyDecoder (nested : Decoder (List Attribute)) : AttributeKind → Decoder Attribute
  | .code => codeDecoder nested
  | .exceptions => return .exceptions (← Decoder.u16List)
  | .signature => return .signature (← Decoder.u16)
  | .annotations => return .annotations (← AnnotationUse.tableDecoder)
  | .parameterAnnotations => return .annotations (← AnnotationUse.parameterTableDecoder)
  | .typeAnnotations => return .annotations (← AnnotationUse.typeTableDecoder)
  | .annotationDefault => return .annotationDefault (← ElementValue.decoder elementLevels)
  | .innerClasses => return .innerClasses (← Decoder.table innerClassDecoder)
  | .enclosingMethod => return .enclosingMethod (← Decoder.u16) (← Decoder.u16)
  | .nestHost => return .nestHost (← Decoder.u16)
  | .nestMembers => return .nestMembers (← Decoder.u16List)
  | .permittedSubclasses => return .permittedSubclasses (← Decoder.u16List)
  | .record => return .record (← Decoder.table (componentDecoder nested))
  | .bootstrapMethods => return .bootstrapMethods (← Decoder.table bootstrapMethodDecoder)
  | .localVariables => return .localVariables (← Decoder.table localVariableDecoder)
  | .localVariableTypes => return .localVariableTypes (← Decoder.table localVariableDecoder)

/-- The attribute that comes next, if it is of a decoded kind. -/
def entryDecoder (pool : ConstantPool) (nested : Decoder (List Attribute)) : Decoder (Option Attribute) := do
  let name ← Decoder.ofExcept (pool.utf8 (← Decoder.u16))
  let length ← Decoder.u32
  let body ← Decoder.bytes length.toNat
  match AttributeKind.ofName? name with
  | none => return none
  | some kind =>
    let (decoded, after) ← Decoder.within (.inAttribute name) (Decoder.onBytes (bodyDecoder nested kind) body)
    if after.hasMore then throw (.unusedAttributeBytes name length.toNat after.offset)
    return some decoded

/-- The attribute table that comes next, if `levels` allow it. -/
def levelDecoder (pool : ConstantPool) : (levels : Nat) → Decoder (List Attribute)
  | 0 => throw .attributesTooDeep
  | levels + 1 => do
    let attributes ← Decoder.table (entryDecoder pool (levelDecoder pool levels))
    return attributes.filterMap id

/-- An outermost attribute table. -/
def tableDecoder (pool : ConstantPool) : Decoder (List Attribute) :=
  levelDecoder pool (maxNestingDepth + 1)

end Attribute

end ClassCensus
