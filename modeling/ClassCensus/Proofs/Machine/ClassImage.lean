import ClassCensus.Proofs.ClassFile.WrittenClass
import ClassCensus.Proofs.Machine.Instruction
import ClassCensus.Proofs.Machine.Pool

/-!
# Reading class files by offset

The readings of annotations, attributes, members and classes with the operations of a machine, and that they follow
those of `ClassFile.decode`; so decoding a class file has no fault, whatever the image is (`decode_eq`).

* (readings) each reading is named after the decoder that it follows and that says what is read;
* (bodies) an attribute is read from its own bytes, by a reader of its own;
* (method bodies) the length of a method body is read from a word of 32 bits, which bounds the positions in it.
-/

namespace ClassCensus.Machine

open View ImageReader

/-! ### Annotations -/

mutual

def ElementValue.reading : (levels : Nat) → ImageReading ElementValue
  | 0 => do throw (.elementValuesTooDeep (← get).offset)
  | levels + 1 => do
    let tag ← u8
    match ElementValue.Kind.ofTag? tag with
    | some .const =>
      skip 2
      return .const
    | some .enum =>
      let type ← u16
      skip 2
      return .enum type
    | some .classInfo => return .classInfo (← u16)
    | some .nested =>
      let nested ← AnnotationUse.reading levels
      return .nested nested.type nested.elements
    | some .array => return .array (← table (ElementValue.reading levels))
    | none => throw (.unknownElementTag tag (← lastOffset))

def AnnotationUse.reading : (levels : Nat) → ImageReading AnnotationUse
  | 0 => do throw (.elementValuesTooDeep (← get).offset)
  | levels + 1 => do
    let type ← u16
    let elements ← table do
      skip 2
      ElementValue.reading levels
    return ⟨type, elements⟩

end

namespace AnnotationUse

def tableReading : ImageReading (List AnnotationUse) :=
  table (AnnotationUse.reading elementLevels)

def parameterTableReading : ImageReading (List AnnotationUse) := do
  let parameters ← u8
  return (← times parameters.toNat tableReading).flatten

def skipTarget : ImageReading Unit := do
  let target ← u8
  if target ≤ 0x01 ∨ target = 0x16 then skip 1
  else if (0x10 ≤ target ∧ target ≤ 0x12) ∨ target = 0x17 ∨ (0x42 ≤ target ∧ target ≤ 0x46) then skip 2
  else if 0x13 ≤ target ∧ target ≤ 0x15 then pure ()
  else if target = 0x40 ∨ target = 0x41 then skip (← product (← u16).toNat 6)
  else if 0x47 ≤ target ∧ target ≤ 0x4B then skip 3
  else throw (.unknownTypeTarget target (← lastOffset))
  let pathLength ← u8
  skip (← product pathLength.toNat 2)

def typeTableReading : ImageReading (List AnnotationUse) :=
  table do
    skipTarget
    AnnotationUse.reading elementLevels

end AnnotationUse

/-! ### Attributes -/

namespace Attribute

def innerClassReading : ImageReading InnerClass := do
  let inner ← u16
  let outer ← u16
  skip 4
  return ⟨inner, outer⟩

def bootstrapMethodReading : ImageReading BootstrapMethod := do
  let method ← u16
  let arguments ← u16List
  return ⟨method, arguments⟩

def localVariableReading : ImageReading UInt16 := do
  skip 6
  let type ← u16
  skip 2
  return type

def handlerReading : ImageReading UInt16 := do
  skip 6
  u16

def codeReading (nested : ImageReading (List Attribute)) : ImageReading Attribute := do
  skip 4
  let length ← u32
  let code ← bytes length.toNat
  let operands ← Instruction.operandsIn code
  let catchTypes ← table handlerReading
  let attributes ← nested
  return .code operands (catchTypes.filter (· ≠ 0)) attributes

def componentReading (nested : ImageReading (List Attribute)) : ImageReading RecordComponent := do
  skip 2
  let descriptor ← u16
  let attributes ← nested
  return ⟨descriptor, attributes⟩

def bodyReading (nested : ImageReading (List Attribute)) : AttributeKind → ImageReading Attribute
  | .code => codeReading nested
  | .exceptions => return .exceptions (← u16List)
  | .signature => return .signature (← u16)
  | .annotations => return .annotations (← AnnotationUse.tableReading)
  | .parameterAnnotations => return .annotations (← AnnotationUse.parameterTableReading)
  | .typeAnnotations => return .annotations (← AnnotationUse.typeTableReading)
  | .annotationDefault => return .annotationDefault (← ElementValue.reading elementLevels)
  | .innerClasses => return .innerClasses (← table innerClassReading)
  | .enclosingMethod => return .enclosingMethod (← u16) (← u16)
  | .nestHost => return .nestHost (← u16)
  | .nestMembers => return .nestMembers (← u16List)
  | .permittedSubclasses => return .permittedSubclasses (← u16List)
  | .record => return .record (← table (componentReading nested))
  | .bootstrapMethods => return .bootstrapMethods (← table bootstrapMethodReading)
  | .localVariables => return .localVariables (← table localVariableReading)
  | .localVariableTypes => return .localVariableTypes (← table localVariableReading)

def entryReading (pool : ConstantPool) (nested : ImageReading (List Attribute)) :
    ImageReading (Option Attribute) := do
  let name ← total (pool.utf8 (← u16))
  let length ← u32
  let body ← bytes length.toNat
  match AttributeKind.ofName? name with
  | none => return none
  | some kind =>
    let (decoded, after) ← inContext (.inAttribute name) ((bodyReading nested kind).run ⟨body, 0⟩)
    if after.hasMore then throw (.unusedAttributeBytes name length.toNat after.offset)
    return some decoded

def levelReading (pool : ConstantPool) : (levels : Nat) → ImageReading (List Attribute)
  | 0 => throw .attributesTooDeep
  | levels + 1 => do
    let attributes ← table (entryReading pool (levelReading pool levels))
    return attributes.filterMap id

def tableReading (pool : ConstantPool) : ImageReading (List Attribute) :=
  levelReading pool (maxNestingDepth + 1)

end Attribute

/-! ### Classes -/

namespace ClassFile

open ClassCensus.ClassFile (magic leastMajorVersion)

def memberReading (pool : ConstantPool) (table : MemberTable) (number : Nat) : ImageReading Member := do
  let accessFlags ← u16
  let name ← u16
  let descriptor ← u16
  let attributes ← within (.inMemberNumber table number) (Attribute.tableReading pool)
  return ⟨accessFlags, name, descriptor, attributes⟩

def membersOnto (pool : ConstantPool) (table : MemberTable) (read : List Member) (number : Nat) :
    (count : Nat) → ImageReading (List Member)
  | 0 => return read.reverse
  | count + 1 => do
    let member ← memberReading pool table number
    membersOnto pool table (member :: read) (number + 1) count

def membersReading (pool : ConstantPool) (table : MemberTable) : ImageReading (List Member) := do
  let count ← u16
  membersOnto pool table [] 0 count.toNat

def structureReading (size : Nat) : ImageReading ClassFile := do
  let word ← within (fun _ => .tooShort size) u32
  if word ≠ magic then throw (.badMagic word)
  let minorVersion ← u16
  let majorVersion ← u16
  if majorVersion < leastMajorVersion then throw (.unsupportedVersion majorVersion minorVersion)
  let pool ← ConstantPool.reading
  let accessFlags ← u16
  let thisClass ← u16
  let superclass ← u16
  let interfaces ← u16List
  let fields ← membersReading pool .fields
  let methods ← membersReading pool .methods
  let attributes ← Attribute.tableReading pool
  return {
    minorVersion, majorVersion, pool, accessFlags, thisClass, interfaces, fields, methods, attributes
    superclass? := if superclass = 0 then none else some superclass }

def reading (size : Nat) : ImageReading ClassFile := do
  let c ← structureReading size
  let after ← get
  if after.hasMore then throw (.trailingBytes (← after.remaining))
  return c

def decode (image : List UInt8) : Checked ClassFile :=
  (reading image.length).run' ⟨image, 0⟩

end ClassFile

/-! ### Annotations follow -/

section

variable {image : List UInt8}

private theorem follows_levels (levels : Nat) :
    (onImage image).Follows (ElementValue.reading levels) (ElementValue.decoder levels) ∧
      (onImage image).Follows (AnnotationUse.reading levels) (AnnotationUse.decoder levels) := by
  induction levels with
  | zero => exact ⟨fun _ _ => rfl, fun _ _ => rfl⟩
  | succ levels ih =>
    obtain ⟨value, use⟩ := ih
    constructor
    · intro cursor valid
      refine followsAt_offset ((follows_u8 cursor valid).bind fun tag after run valid => ?_)
      generalize ElementValue.Kind.ofTag? tag = kind
      match kind with
      | some .const => exact ((follows_skip 2).bind fun _ => .pure _) after valid
      | some .enum => exact (follows_u16.bind fun _ => (follows_skip 2).bind fun _ => .pure _) after valid
      | some .classInfo => exact (follows_u16.bind fun _ => .pure _) after valid
      | some .nested => exact (use.bind fun _ => .pure _) after valid
      | some .array => exact ((follows_table value).bind fun _ => .pure _) after valid
      | none => exact followsAt_refused run
    · exact follows_u16.bind fun _ => (follows_table ((follows_skip 2).bind fun _ => value)).bind fun _ => .pure _

private theorem follows_skipTarget : (onImage image).Follows AnnotationUse.skipTarget
    ClassCensus.AnnotationUse.skipTarget := by
  have path : (onImage image).Follows (do let length ← u8; skip (← product length.toNat 2))
      (do let length ← Decoder.u8; Decoder.skip (length.toNat * 2)) := by
    refine follows_u8.bind fun length => ?_
    have small := length.toNat_lt
    exact .operation (guarded_eq (by unfold wordSize; omega)) (follows_skip _)
  intro cursor valid
  refine followsAt_offset ((follows_u8 cursor valid).bind fun target after run valid => ?_)
  refine .ite (fun _ => ((follows_skip 1).bind fun _ => path) after valid) fun _ => ?_
  refine .ite (fun _ => ((follows_skip 2).bind fun _ => path) after valid) fun _ => ?_
  refine .ite (fun _ => path after valid) fun _ => ?_
  refine .ite (fun _ => ?_) fun _ => ?_
  · refine (follows_u16.bind fun entries => ?_) after valid
    have small := entries.toNat_lt
    exact .operation (guarded_eq (by unfold wordSize; omega)) ((follows_skip _).bind fun _ => path)
  refine .ite (fun _ => ((follows_skip 3).bind fun _ => path) after valid) fun _ => ?_
  rw [← bind_assoc]
  exact (followsAt_refused run).bind fun _ _ none _ => nomatch none

/-! ### Attributes follow -/

private theorem follows_code {nested : ImageReading (List Attribute)} {d : Decoder (List Attribute)}
    (h : (onImage image).Follows nested d) :
    (onImage image).Follows (Attribute.codeReading nested) (ClassCensus.Attribute.codeDecoder d) := by
  refine (follows_skip 4).bind fun _ => follows_u32.bind fun length cursor valid => ?_
  refine (follows_bytes length.toNat cursor valid).bind fun code after run valid => ?_
  obtain ⟨-, ⟨-, all⟩, -⟩ := (Decoder.reads_bytes _ cursor code after).1 run
  have size : code.length < 2 ^ 32 := all ▸ length.toNat_lt
  have handler : (onImage image).Follows Attribute.handlerReading ClassCensus.Attribute.handlerDecoder :=
    (follows_skip 6).bind fun _ => follows_u16
  rw [Instruction.operandsIn_eq size]
  exact ((follows_total _).bind fun _ => (follows_table handler).bind fun _ => h.bind fun _ => .pure _) after valid

private theorem follows_body {nested : ImageReading (List Attribute)} {d : Decoder (List Attribute)}
    (h : (onImage image).Follows nested d) (kind : AttributeKind) :
    (onImage image).Follows (Attribute.bodyReading nested kind) (ClassCensus.Attribute.bodyDecoder d kind) := by
  have uses : (onImage image).Follows AnnotationUse.tableReading ClassCensus.AnnotationUse.tableDecoder :=
    follows_table (follows_levels elementLevels).2
  have localVariable : (onImage image).Follows Attribute.localVariableReading
      ClassCensus.Attribute.localVariableDecoder :=
    (follows_skip 6).bind fun _ => follows_u16.bind fun _ => (follows_skip 2).bind fun _ => .pure _
  cases kind with
  | code => exact follows_code h
  | exceptions => exact follows_u16List.bind fun _ => .pure _
  | signature => exact follows_u16.bind fun _ => .pure _
  | annotations => exact uses.bind fun _ => .pure _
  | parameterAnnotations =>
    exact (follows_u8.bind fun n => (follows_times uses n.toNat).bind fun _ => .pure _).bind fun _ => .pure _
  | typeAnnotations =>
    exact (follows_table (follows_skipTarget.bind fun _ => (follows_levels elementLevels).2)).bind fun _ => .pure _
  | annotationDefault => exact (follows_levels elementLevels).1.bind fun _ => .pure _
  | innerClasses =>
    exact (follows_table (follows_u16.bind fun _ => follows_u16.bind fun _ => (follows_skip 4).bind fun _ =>
      .pure _)).bind fun _ => .pure _
  | enclosingMethod => exact follows_u16.bind fun _ => follows_u16.bind fun _ => .pure _
  | nestHost => exact follows_u16.bind fun _ => .pure _
  | nestMembers => exact follows_u16List.bind fun _ => .pure _
  | permittedSubclasses => exact follows_u16List.bind fun _ => .pure _
  | record =>
    exact (follows_table ((follows_skip 2).bind fun _ => follows_u16.bind fun _ => h.bind fun _ =>
      .pure _)).bind fun _ => .pure _
  | bootstrapMethods =>
    exact (follows_table (follows_u16.bind fun _ => follows_u16List.bind fun _ => .pure _)).bind fun _ => .pure _
  | localVariables => exact (follows_table localVariable).bind fun _ => .pure _
  | localVariableTypes => exact (follows_table localVariable).bind fun _ => .pure _

private theorem follows_entry {pool : ConstantPool} {nested : ImageReading (List Attribute)}
    {d : Decoder (List Attribute)} (h : ∀ image, (onImage image).Follows nested d) :
    (onImage image).Follows (Attribute.entryReading pool nested) (ClassCensus.Attribute.entryDecoder pool d) := by
  refine follows_u16.bind fun index => (follows_total _).bind fun name => follows_u32.bind fun length =>
    (follows_bytes length.toNat).bind fun body => ?_
  cases AttributeKind.ofName? name with
  | none => exact .pure _
  | some kind =>
    intro cursor valid
    refine followsAt_within_onBytes (follows_body (h body) kind) _ fun decoded inner inside => ?_
    dsimp only
    rw [hasMore_eq inside]
    exact .ite (fun _ => rfl) fun _ => .pure _ valid

private theorem follows_level (pool : ConstantPool) (levels : Nat) :
    ∀ image, (onImage image).Follows (Attribute.levelReading pool levels)
      (ClassCensus.Attribute.levelDecoder pool levels) := by
  induction levels with
  | zero => exact fun _ => follows_throw _
  | succ levels ih => exact fun image => (follows_table (follows_entry ih)).bind fun _ => .pure _

/-! ### Classes follow -/

private theorem follows_member (pool : ConstantPool) (table : MemberTable) (number : Nat) :
    (onImage image).Follows (ClassFile.memberReading pool table number)
      (ClassCensus.ClassFile.memberDecoder pool table number) :=
  follows_u16.bind fun _ => follows_u16.bind fun _ => follows_u16.bind fun _ =>
    (follows_within (follows_level pool (maxNestingDepth + 1) image) _).bind fun _ => .pure _

private theorem follows_membersOnto (pool : ConstantPool) (table : MemberTable) (read : List Member) (number n : Nat) :
    (onImage image).Follows (ClassFile.membersOnto pool table read number n)
      (ClassCensus.ClassFile.membersOnto pool table read number n) := by
  induction n generalizing read number with
  | zero => exact .pure _
  | succ n ih => exact (follows_member pool table number).bind fun m => ih (m :: read) (number + 1)

private theorem follows_structure (size : Nat) : (onImage image).Follows (ClassFile.structureReading size)
    (ClassCensus.ClassFile.structureDecoder size) := by
  have members (pool : ConstantPool) (table : MemberTable) :
      (onImage image).Follows (ClassFile.membersReading pool table)
      (ClassCensus.ClassFile.membersDecoder pool table) :=
    follows_u16.bind fun count => follows_membersOnto pool table [] 0 count.toNat
  refine (follows_within follows_u32 _).bind fun word => .ite (fun _ _ _ => rfl) fun _ => ?_
  refine follows_u16.bind fun minor => follows_u16.bind fun major => .ite (fun _ _ _ => rfl) fun _ => ?_
  refine ConstantPool.follows_reading.bind fun pool => follows_u16.bind fun _ => follows_u16.bind fun _ =>
    follows_u16.bind fun _ => follows_u16List.bind fun _ => ?_
  exact (members pool .fields).bind fun _ => (members pool .methods).bind fun _ =>
    (follows_level pool (maxNestingDepth + 1) image).bind fun _ => .pure _

private theorem follows_class (size : Nat) :
    (onImage image).Follows (ClassFile.reading size) (ClassCensus.ClassFile.decoder size) := by
  intro cursor valid
  refine (follows_structure size cursor valid).bind fun c after _ valid => .get ?_
  show (onImage image).FollowsAt _ (if after.hasMore then _ else _) after
  rw [hasMore_eq valid]
  exact .ite (fun _ => .operation (remaining_eq valid) rfl) fun _ => .pure _ valid

end

/-- Decoding an image never faults. -/
theorem decode_eq (image : List UInt8) : ClassFile.decode image = total (ClassCensus.ClassFile.decode image) :=
  run_eq (follows_class image.length)

/-- The slots of a pool that has been read are counted by 16 bits. -/
theorem size_le_of_decode {image : List UInt8} {c : ClassFile} (h : ClassCensus.ClassFile.decode image = .ok c) :
    c.pool.size ≤ 2 ^ 16 := by
  obtain ⟨raw, -, -, rfl⟩ := ClassCensus.ClassFile.decode_eq_ok_iff_spells.1 h
  have fits : raw.pool.slots.length < 65535 := raw.pool.fits
  show (Constant.unusable :: raw.pool.slots).toArray.size ≤ 2 ^ 16
  rw [List.size_toArray, List.length_cons]
  omega

end ClassCensus.Machine
