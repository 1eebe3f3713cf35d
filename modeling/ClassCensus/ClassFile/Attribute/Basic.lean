import ClassCensus.ClassFile.ElementValue
import ClassCensus.ClassFile.Instruction

/-!
# Attributes

The attributes of classes, members, method bodies and record components that can name a type, reduced to the indices
of the constant pool that lead to the names. Every other attribute is passed over and has no form here.

* (nesting) a method body and a record component hold attribute tables of their own, so `Attribute` and
  `RecordComponent` are one mutual family;
* (names) `AttributeKind.ofName?` knows the names of the decoded attributes; several names share a kind.
-/

namespace ClassCensus

/-- A row of the table of inner classes; the outer class is 0 for local and anonymous classes. -/
structure InnerClass where
  inner : UInt16
  outer : UInt16
deriving DecidableEq

/-- A row of the table of bootstrap methods. -/
structure BootstrapMethod where
  method : UInt16
  arguments : List UInt16
deriving DecidableEq

mutual

/-- A decoded attribute. -/
inductive Attribute where
  /-- A method body: its pool operands, the types that its handlers catch, and its own attributes. -/
  | code (operands : List PoolOperand) (catchTypes : List UInt16) (attributes : List Attribute)
  | exceptions (classes : List UInt16)
  | signature (text : UInt16)
  /-- Any table of annotations. -/
  | annotations (annotations : List AnnotationUse)
  | annotationDefault (value : ElementValue)
  | innerClasses (classes : List InnerClass)
  /-- The enclosing class and method; the method is 0 outside of methods. -/
  | enclosingMethod (owner method : UInt16)
  | nestHost (host : UInt16)
  | nestMembers (classes : List UInt16)
  | permittedSubclasses (classes : List UInt16)
  | record (components : List RecordComponent)
  | bootstrapMethods (methods : List BootstrapMethod)
  /-- The descriptors of local variables. -/
  | localVariables (descriptors : List UInt16)
  /-- The signatures of local variables. -/
  | localVariableTypes (signatures : List UInt16)

/-- A component of a record. -/
structure RecordComponent where
  descriptor : UInt16
  attributes : List Attribute

end

/-- The kinds of attributes that are decoded, by the form of their bodies. -/
inductive AttributeKind where
  | code
  | exceptions
  | signature
  | annotations
  | parameterAnnotations
  | typeAnnotations
  | annotationDefault
  | innerClasses
  | enclosingMethod
  | nestHost
  | nestMembers
  | permittedSubclasses
  | record
  | bootstrapMethods
  | localVariables
  | localVariableTypes
deriving DecidableEq

/-- The names of the decoded attributes. -/
def AttributeKind.names : List (String × AttributeKind) := [
  ("Code", .code),
  ("Exceptions", .exceptions),
  ("Signature", .signature),
  ("RuntimeVisibleAnnotations", .annotations),
  ("RuntimeInvisibleAnnotations", .annotations),
  ("RuntimeVisibleParameterAnnotations", .parameterAnnotations),
  ("RuntimeInvisibleParameterAnnotations", .parameterAnnotations),
  ("RuntimeVisibleTypeAnnotations", .typeAnnotations),
  ("RuntimeInvisibleTypeAnnotations", .typeAnnotations),
  ("AnnotationDefault", .annotationDefault),
  ("InnerClasses", .innerClasses),
  ("EnclosingMethod", .enclosingMethod),
  ("NestHost", .nestHost),
  ("NestMembers", .nestMembers),
  ("PermittedSubclasses", .permittedSubclasses),
  ("Record", .record),
  ("BootstrapMethods", .bootstrapMethods),
  ("LocalVariableTable", .localVariables),
  ("LocalVariableTypeTable", .localVariableTypes)]

/-- The kind of the attributes of a name, if they are decoded. -/
def AttributeKind.ofName? (name : String) : Option AttributeKind :=
  AttributeKind.names.lookup name

end ClassCensus
