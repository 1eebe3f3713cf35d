import ClassCensus.ClassFile.Attribute.Decoder

/-!
# Class files

A class file is a header, a constant pool, the supertypes, the fields, the methods and the attributes of a class, in
this order and with nothing after them.

* (versions) the least version with this form is 45, and no later version is refused;
* (whole) `ClassFile.decode` reads a whole image and refuses bytes after the class.
-/

namespace ClassCensus

/-- A field or a method. -/
structure Member where
  accessFlags : UInt16
  name : UInt16
  descriptor : UInt16
  attributes : List Attribute

/-- The parts of a class file. -/
structure ClassFile where
  minorVersion : UInt16
  majorVersion : UInt16
  pool : ConstantPool
  accessFlags : UInt16
  thisClass : UInt16
  /-- The root class and module descriptions have none. -/
  superclass? : Option UInt16
  interfaces : List UInt16
  fields : List Member
  methods : List Member
  attributes : List Attribute

namespace ClassFile

/-- The word at the start of every class file. -/
def magic : UInt32 := 0xCAFEBABE

/-- The least major version of a class file. -/
def leastMajorVersion : UInt16 := 45

/-- The members of a table. -/
def members (table : MemberTable) : ClassFile → List Member :=
  match table with
  | .fields => ClassFile.fields
  | .methods => ClassFile.methods

/-- The member that comes next, the `number`-th of a table. -/
def memberDecoder (pool : ConstantPool) (table : MemberTable) (number : Nat) : Decoder Member := do
  let accessFlags ← Decoder.u16
  let name ← Decoder.u16
  let descriptor ← Decoder.u16
  let attributes ← Decoder.within (.inMemberNumber table number) (Attribute.tableDecoder pool)
  return ⟨accessFlags, name, descriptor, attributes⟩

/-- The members with the numbers from `number` on, `count` in all, after the members `read` (latest first). -/
def membersOnto (pool : ConstantPool) (table : MemberTable) (read : List Member) (number : Nat) :
    (count : Nat) → Decoder (List Member)
  | 0 => return read.reverse
  | count + 1 => do
    let member ← memberDecoder pool table number
    membersOnto pool table (member :: read) (number + 1) count

/-- A table of members. -/
def membersDecoder (pool : ConstantPool) (table : MemberTable) : Decoder (List Member) := do
  let count ← Decoder.u16
  membersOnto pool table [] 0 count.toNat

/-- The class at the start of an image of `size` bytes. -/
def structureDecoder (size : Nat) : Decoder ClassFile := do
  let word ← Decoder.within (fun _ => .tooShort size) Decoder.u32
  if word ≠ magic then throw (.badMagic word)
  let minorVersion ← Decoder.u16
  let majorVersion ← Decoder.u16
  if majorVersion < leastMajorVersion then throw (.unsupportedVersion majorVersion minorVersion)
  let pool ← ConstantPool.decoder
  let accessFlags ← Decoder.u16
  let thisClass ← Decoder.u16
  let superclass ← Decoder.u16
  let interfaces ← Decoder.u16List
  let fields ← membersDecoder pool .fields
  let methods ← membersDecoder pool .methods
  let attributes ← Attribute.tableDecoder pool
  return {
    minorVersion, majorVersion, pool, accessFlags, thisClass, interfaces, fields, methods, attributes
    superclass? := if superclass = 0 then none else some superclass }

/-- The class in an image of `size` bytes, with nothing after it. -/
def decoder (size : Nat) : Decoder ClassFile := do
  let c ← structureDecoder size
  let after ← get
  if after.hasMore then throw (.trailingBytes after.remaining)
  return c

/-- The class file that an image holds. -/
def decode (image : List UInt8) : Except FormatError ClassFile :=
  (decoder image.length).decode image

/-- The name of the class. -/
def name (c : ClassFile) : Except FormatError String :=
  c.pool.className c.thisClass

end ClassFile

end ClassCensus
