import ClassCensus.Mention.Site
import ClassCensus.NameSet

/-!
# References of a class

What each mention site names, and from that all classes that a class file refers to.

* (links) an index is followed when its site is resolved; a dangling or mistyped index on the way is a fault of the
  whole class;
* (faults) of several faults the first in the order of the file is reported, in the context of its member and its
  instruction;
* (result) names are in canonical form; `classReferences` leaves the platform out.
-/

namespace ClassCensus

namespace ConstantPool

/-- The class that the class entry in a slot names, if any. -/
def classEntryNames (pool : ConstantPool) (index : UInt16) : Except FormatError (List String) := do
  return (← entryClass? (← pool.className index)).toList

/-- The classes that the descriptor in a slot names. -/
def descriptorNames (pool : ConstantPool) (index : UInt16) : Except FormatError (List String) := do
  descriptorClasses (← pool.utf8 index)

/-- The classes that the descriptor in a slot names; `V`, the type of no value, names none. -/
def resultDescriptorNames (pool : ConstantPool) (index : UInt16) : Except FormatError (List String) := do
  let text ← pool.utf8 index
  if text = "V" then return [] else descriptorClasses text

/-- The classes that the signature in a slot names. -/
def signatureNames (pool : ConstantPool) (index : UInt16) : Except FormatError (List String) := do
  signatureClasses (← pool.utf8 index)

/-- The classes in the descriptor of the typed name in a slot. -/
def typedNameNames (pool : ConstantPool) (index : UInt16) : Except FormatError (List String) := do
  descriptorClasses (← pool.nameAndType index).2

/-- The classes that a member reference names: its owner and those of its descriptor. -/
def memberRefNames (pool : ConstantPool) (owner typedName : UInt16) : Except FormatError (List String) := do
  let ownerNames ← pool.classEntryNames owner
  let typeNames ← pool.typedNameNames typedName
  return ownerNames ++ typeNames

/-- The classes that a constant names where it is loaded; literals name none. -/
def loadableNames (pool : ConstantPool) (index : UInt16) : Except FormatError (List String) := do
  match ← pool.get index with
  | .classInfo _ => pool.classEntryNames index
  | .memberRef _ owner typedName => pool.memberRefNames owner typedName
  | .methodHandle _ reference =>
    match ← pool.get reference with
    | .memberRef _ owner typedName => pool.memberRefNames owner typedName
    | other => throw (.invalidHandleTarget index other)
  | .methodType descriptor => pool.descriptorNames descriptor
  | .dynamic _ typedName => pool.typedNameNames typedName
  | .invokeDynamic _ typedName => pool.typedNameNames typedName
  | _ => return []

/-- The classes that a site names. -/
def siteNames (pool : ConstantPool) : Site → Except FormatError (List String)
  | .classEntry index => pool.classEntryNames index
  | .descriptor index => pool.descriptorNames index
  | .resultDescriptor index => pool.resultDescriptorNames index
  | .signature index => pool.signatureNames index
  | .typedName index => pool.typedNameNames index
  | .loadable index => pool.loadableNames index
  | .operand operand => (pool.loadableNames operand.index).mapError (.inInstruction operand.opcode operand.pc)

/-- The classes that sites name, in order. -/
def sitesNames (pool : ConstantPool) (sites : List Site) : Except FormatError (List String) :=
  List.flatten <$> sites.mapM pool.siteNames

end ConstantPool

namespace ClassFile

/-- The classes that a member names; its own name is the context of its faults and has to be readable. -/
def memberNames (c : ClassFile) (table : MemberTable) (member : Member) : Except FormatError (List String) := do
  let name ← c.pool.utf8 member.name
  (c.pool.sitesNames (Site.ofMember member)).mapError (.inMember table name)

/-- The classes that a class file names, in the order of the file. -/
def mentionedNames (c : ClassFile) : Except FormatError (List String) := do
  let supertypes ← c.pool.sitesNames (Site.ofSupertypes c)
  let fields ← c.fields.mapM (c.memberNames .fields)
  let methods ← c.methods.mapM (c.memberNames .methods)
  let attributes ← c.pool.sitesNames (Site.ofAttributes c.attributes)
  return supertypes ++ fields.flatten ++ methods.flatten ++ attributes

/-- The classes that a class file refers to, those of the platform included. -/
def references (c : ClassFile) : Except FormatError NameSet := do
  return NameSet.ofList ((← c.mentionedNames).map canonicalName)

end ClassFile

/-- The classes outside the platform to which the class file in an image refers. -/
def classReferences (image : List UInt8) : Except FormatError NameSet := do
  let c ← ClassFile.decode image
  return (← c.references).withoutPlatform

end ClassCensus
