import ClassCensus.Mention.Reference
import ClassCensus.Proofs.Machine.ClassImage
import ClassCensus.Proofs.Machine.TypeText

/-!
# References without faults

The references of a class by the operations of a machine, and that no image makes the machine fault
(`classReferences_faultless`): it refuses what is refused without a machine, and finds the same references.

* (names) what a function finds is said where the function of that name without a machine is defined;
* (texts) lookups in a pool have no domain; what names classes in the text of a slot has one (`descriptorClasses`,
  `signatureClasses`, `entryClass?`), and everything above puts such names together;
* (indices) the slots of the pool of any image can be listed under indices of 16 bits.
-/

namespace ClassCensus.Machine

namespace ConstantPool

def classEntryNames (pool : ConstantPool) (index : UInt16) : Checked (List String) := do
  return (← entryClass? (← total (pool.className index))).toList

def descriptorNames (pool : ConstantPool) (index : UInt16) : Checked (List String) := do
  descriptorClasses (← total (pool.utf8 index))

def resultDescriptorNames (pool : ConstantPool) (index : UInt16) : Checked (List String) := do
  let text ← total (pool.utf8 index)
  if text = "V" then return [] else descriptorClasses text

def signatureNames (pool : ConstantPool) (index : UInt16) : Checked (List String) := do
  signatureClasses (← total (pool.utf8 index))

def typedNameNames (pool : ConstantPool) (index : UInt16) : Checked (List String) := do
  descriptorClasses (← total (pool.nameAndType index)).2

def memberRefNames (pool : ConstantPool) (owner typedName : UInt16) : Checked (List String) := do
  let ownerNames ← classEntryNames pool owner
  let typeNames ← typedNameNames pool typedName
  return ownerNames ++ typeNames

def loadableNames (pool : ConstantPool) (index : UInt16) : Checked (List String) := do
  match ← total (pool.get index) with
  | .classInfo _ => classEntryNames pool index
  | .memberRef _ owner typedName => memberRefNames pool owner typedName
  | .methodHandle _ reference =>
    match ← total (pool.get reference) with
    | .memberRef _ owner typedName => memberRefNames pool owner typedName
    | other => throw (.invalidHandleTarget index other)
  | .methodType descriptor => descriptorNames pool descriptor
  | .dynamic _ typedName => typedNameNames pool typedName
  | .invokeDynamic _ typedName => typedNameNames pool typedName
  | _ => return []

def siteNames (pool : ConstantPool) : Site → Checked (List String)
  | .classEntry index => classEntryNames pool index
  | .descriptor index => descriptorNames pool index
  | .resultDescriptor index => resultDescriptorNames pool index
  | .signature index => signatureNames pool index
  | .typedName index => typedNameNames pool index
  | .loadable index => loadableNames pool index
  | .operand operand => inContext (.inInstruction operand.opcode operand.pc) (loadableNames pool operand.index)

def sitesNames (pool : ConstantPool) (sites : List Site) : Checked (List String) :=
  List.flatten <$> sites.mapM (siteNames pool)

/-! ### Lookups -/

variable (pool : ConstantPool)

private theorem classEntryNames_eq (index : UInt16) :
    classEntryNames pool index = total (pool.classEntryNames index) := by
  simp only [classEntryNames, ClassCensus.ConstantPool.classEntryNames, entryClass?_eq, total_bind, total_pure]

private theorem descriptorNames_eq (index : UInt16) :
    descriptorNames pool index = total (pool.descriptorNames index) := by
  simp only [descriptorNames, ClassCensus.ConstantPool.descriptorNames, descriptorClasses_eq, total_bind]

private theorem resultDescriptorNames_eq (index : UInt16) :
    resultDescriptorNames pool index = total (pool.resultDescriptorNames index) := by
  rw [resultDescriptorNames, ClassCensus.ConstantPool.resultDescriptorNames, total_bind]
  refine bind_congr fun text => ?_
  rw [descriptorClasses_eq]
  split <;> rfl

private theorem signatureNames_eq (index : UInt16) :
    signatureNames pool index = total (pool.signatureNames index) := by
  simp only [signatureNames, ClassCensus.ConstantPool.signatureNames, signatureClasses_eq, total_bind]

private theorem typedNameNames_eq (index : UInt16) :
    typedNameNames pool index = total (pool.typedNameNames index) := by
  simp only [typedNameNames, ClassCensus.ConstantPool.typedNameNames, descriptorClasses_eq, total_bind]

private theorem memberRefNames_eq (owner typedName : UInt16) :
    memberRefNames pool owner typedName = total (pool.memberRefNames owner typedName) := by
  simp only [memberRefNames, ClassCensus.ConstantPool.memberRefNames, classEntryNames_eq, typedNameNames_eq, total_bind,
    total_pure]

private theorem loadableNames_eq (index : UInt16) :
    loadableNames pool index = total (pool.loadableNames index) := by
  rw [loadableNames, ClassCensus.ConstantPool.loadableNames, total_bind]
  refine bind_congr fun constant => ?_
  cases constant with
  | classInfo name => exact classEntryNames_eq pool index
  | memberRef kind owner typedName => exact memberRefNames_eq pool owner typedName
  | methodHandle kind reference =>
    refine (bind_congr fun target => ?_).trans (total_bind _ _).symm
    cases target with
    | memberRef kind owner typedName => exact memberRefNames_eq pool owner typedName
    | _ => rfl
  | methodType descriptor => exact descriptorNames_eq pool descriptor
  | dynamic bootstrap typedName => exact typedNameNames_eq pool typedName
  | invokeDynamic bootstrap typedName => exact typedNameNames_eq pool typedName
  | _ => rfl

private theorem siteNames_eq (site : Site) : siteNames pool site = total (pool.siteNames site) := by
  cases site with
  | classEntry index => exact classEntryNames_eq pool index
  | descriptor index => exact descriptorNames_eq pool index
  | resultDescriptor index => exact resultDescriptorNames_eq pool index
  | signature index => exact signatureNames_eq pool index
  | typedName index => exact typedNameNames_eq pool index
  | loadable index => exact loadableNames_eq pool index
  | operand operand =>
    rw [siteNames, ClassCensus.ConstantPool.siteNames, total_mapError, loadableNames_eq]

theorem sitesNames_eq (sites : List Site) : sitesNames pool sites = total (pool.sitesNames sites) := by
  rw [sitesNames, ClassCensus.ConstantPool.sitesNames, total_map, total_mapM, funext (siteNames_eq pool)]

end ConstantPool

namespace ClassFile

def memberNames (c : ClassFile) (table : MemberTable) (member : Member) : Checked (List String) := do
  let name ← total (c.pool.utf8 member.name)
  inContext (.inMember table name) (ConstantPool.sitesNames c.pool (Site.ofMember member))

def mentionedNames (c : ClassFile) : Checked (List String) := do
  let supertypes ← ConstantPool.sitesNames c.pool (Site.ofSupertypes c)
  let fields ← c.fields.mapM (memberNames c .fields)
  let methods ← c.methods.mapM (memberNames c .methods)
  let attributes ← ConstantPool.sitesNames c.pool (Site.ofAttributes c.attributes)
  return supertypes ++ fields.flatten ++ methods.flatten ++ attributes

def references (c : ClassFile) : Checked NameSet := do
  return NameSet.ofList ((← mentionedNames c).map canonicalName)

private theorem memberNames_eq (c : ClassFile) (table : MemberTable) (member : Member) :
    memberNames c table member = total (c.memberNames table member) := by
  simp only [memberNames, ClassCensus.ClassFile.memberNames, ConstantPool.sitesNames_eq, total_bind, total_mapError]

private theorem mentionedNames_eq (c : ClassFile) : mentionedNames c = total c.mentionedNames := by
  have members (table : MemberTable) : memberNames c table = fun member => total (c.memberNames table member) :=
    funext (memberNames_eq c table)
  simp only [mentionedNames, ClassCensus.ClassFile.mentionedNames, members, ConstantPool.sitesNames_eq, total_bind,
    total_mapM, total_pure]

/-- Collecting the references of a class never faults. -/
theorem references_eq (c : ClassFile) : references c = total c.references := by
  simp only [references, ClassCensus.ClassFile.references, mentionedNames_eq, total_bind, total_pure]

end ClassFile

def classReferences (image : List UInt8) : Checked NameSet := do
  let c ← ClassFile.decode image
  return (← ClassFile.references c).withoutPlatform

/-- The constants of the class file in an image, under indices of 16 bits. -/
def constants (image : List UInt8) : Checked (List (Nat × Constant)) := do
  let c ← ClassFile.decode image
  ConstantPool.listing c.pool

/-- No image makes the machine fault.  It ends with the references of the image or with a refusal, and with the same as
without the operations of a machine; and it lists the constants of every image that can be read. -/
theorem classReferences_faultless (image : List UInt8) :
    (classReferences image).run = .ok (ClassCensus.classReferences image) ∧
      (constants image).run = .ok ((fun c => c.pool.toList) <$> ClassCensus.ClassFile.decode image) := by
  constructor
  · have same : classReferences image = total (ClassCensus.classReferences image) := by
      simp only [classReferences, ClassCensus.classReferences, decode_eq, ClassFile.references_eq, total_bind,
        total_pure]
    rw [same]
    rfl
  · rw [constants, decode_eq]
    cases read : ClassCensus.ClassFile.decode image with
    | error e => rfl
    | ok c =>
      rw [total_ok, pure_bind, ConstantPool.listing_eq (size_le_of_decode read)]
      rfl

end ClassCensus.Machine
