import ClassCensus.ClassFile.Basic

/-!
# Mention sites

A mention site is a place in a class file that holds an index of the constant pool and names types through it. Sites
are found by the shape of the class file alone; what a site names is a matter of the constant pool.

* (order) sites come in the order of the file: the operands of a method body, the types that its handlers catch, then
  its attributes; every other table row by row;
* (absence) an index 0 where the format allows it is no site: a catch-all handler, the outer class of a local class,
  the method around a class that is in none.
-/

namespace ClassCensus

/-- A place that names types, by the way in which its index is read. -/
inductive Site where
  /-- A class entry. -/
  | classEntry (index : UInt16)
  /-- The text of a descriptor. -/
  | descriptor (index : UInt16)
  /-- The text of a descriptor, or of the type of no value. -/
  | resultDescriptor (index : UInt16)
  /-- The text of a signature. -/
  | signature (index : UInt16)
  /-- A name with a descriptor. -/
  | typedName (index : UInt16)
  /-- Any constant that an instruction or a bootstrap method may load. -/
  | loadable (index : UInt16)
  /-- The operand of an instruction. -/
  | operand (operand : PoolOperand)
deriving DecidableEq

namespace Site

mutual

/-- The sites of an element value, after the sites `found` (latest first). -/
def ofValueOnto (found : List Site) : ElementValue → List Site
  | .const => found
  | .enum type => .descriptor type :: found
  | .classInfo type => .resultDescriptor type :: found
  | .nested type elements => ofValuesOnto (.descriptor type :: found) elements
  | .array values => ofValuesOnto found values

/-- The sites of element values, after the sites `found` (latest first). -/
def ofValuesOnto (found : List Site) : List ElementValue → List Site
  | [] => found
  | value :: values => ofValuesOnto (ofValueOnto found value) values

end

/-- The sites of an annotation, after the sites `found` (latest first). -/
def ofAnnotatedOnto (found : List Site) (use : AnnotationUse) : List Site :=
  ofValuesOnto (.descriptor use.type :: found) use.elements

/-- The site of an index that is 0 if there is nothing to name. -/
def optional (site : UInt16 → Site) (index : UInt16) : List Site :=
  if index = 0 then [] else [site index]

/-- The sites of a row of the table of inner classes. -/
def ofInnerClass (row : InnerClass) : List Site :=
  .classEntry row.inner :: optional .classEntry row.outer

/-- The sites of a row of the table of bootstrap methods. -/
def ofBootstrapMethod (row : BootstrapMethod) : List Site :=
  .loadable row.method :: row.arguments.map .loadable

mutual

/-- The sites of an attribute, after the sites `found` (latest first). -/
def ofAttributeOnto (found : List Site) : Attribute → List Site
  | .code operands catchTypes attributes =>
    ofAttributesOnto ((operands.map Site.operand ++ catchTypes.map Site.classEntry).reverse ++ found) attributes
  | .exceptions classes | .nestMembers classes | .permittedSubclasses classes =>
    (classes.map .classEntry).reverse ++ found
  | .signature text => .signature text :: found
  | .annotations uses => uses.foldl ofAnnotatedOnto found
  | .annotationDefault value => ofValueOnto found value
  | .innerClasses classes => (classes.flatMap ofInnerClass).reverse ++ found
  | .enclosingMethod owner method => (.classEntry owner :: optional .typedName method).reverse ++ found
  | .nestHost host => .classEntry host :: found
  | .record components => ofComponentsOnto found components
  | .bootstrapMethods methods => (methods.flatMap ofBootstrapMethod).reverse ++ found
  | .localVariables descriptors => (descriptors.map .descriptor).reverse ++ found
  | .localVariableTypes signatures => (signatures.map .signature).reverse ++ found

/-- The sites of attributes, after the sites `found` (latest first). -/
def ofAttributesOnto (found : List Site) : List Attribute → List Site
  | [] => found
  | a :: rest => ofAttributesOnto (ofAttributeOnto found a) rest

/-- The sites of record components, after the sites `found` (latest first). -/
def ofComponentsOnto (found : List Site) : List RecordComponent → List Site
  | [] => found
  | component :: components => ofComponentsOnto (ofComponentOnto found component) components

/-- The sites of a record component, after the sites `found` (latest first). -/
def ofComponentOnto (found : List Site) : RecordComponent → List Site
  | ⟨type, attributes⟩ => ofAttributesOnto (.descriptor type :: found) attributes

end

/-- The sites of attributes. -/
def ofAttributes (attributes : List Attribute) : List Site :=
  (ofAttributesOnto [] attributes).reverse

/-- The sites of a member: its descriptor and its attributes. -/
def ofMember (member : Member) : List Site :=
  .descriptor member.descriptor :: ofAttributes member.attributes

/-- The sites of the supertypes of a class. -/
def ofSupertypes (c : ClassFile) : List Site :=
  (c.superclass?.toList ++ c.interfaces).map .classEntry

end Site

end ClassCensus
