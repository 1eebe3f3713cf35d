import ClassCensus.ClassFile.Basic
import ClassCensus.Proofs.ClassFile.WrittenAttribute
import ClassCensus.Proofs.ClassFile.WrittenPool

/-!
# Class files as they are written

A `WrittenClass` is a class file with everything its bytes say, the fields that reading passes over included.  Its flags
and its indices are arbitrary; `WrittenClass.Fits` holds the limits: the least version, the counts, the lengths, the
names of attributes and how deep they are nested.

Reading a class file accepts exactly the images of the written classes that keep the limits, and gives the class that
they stand for (`ClassFile.decode_eq_ok_iff_written`).
-/

namespace ClassCensus

/-- A field or a method as it is written. -/
structure WrittenMember where
  accessFlags : UInt16
  name : UInt16
  descriptor : UInt16
  attributes : List WrittenAttribute

/-- Outermost tables of attributes. -/
def WrittenAttribute.outerFormat (pool : ConstantPool) : Format (List WrittenAttribute) (List Attribute) :=
  WrittenAttribute.levelFormat pool (maxNestingDepth + 1)

/-- Fields and methods of a class with a given pool. -/
def WrittenMember.format (pool : ConstantPool) : Format WrittenMember Member where
  Fits m := (WrittenAttribute.outerFormat pool).Fits m.attributes
  encode m := word16 m.accessFlags ++ (word16 m.name ++ (word16 m.descriptor ++
    (WrittenAttribute.outerFormat pool).encode m.attributes))
  view m := ⟨m.accessFlags, m.name, m.descriptor, (WrittenAttribute.outerFormat pool).view m.attributes⟩

/-- A class file as it is written. -/
structure WrittenClass where
  minorVersion : UInt16
  majorVersion : UInt16
  pool : WrittenPool
  accessFlags : UInt16
  thisClass : UInt16
  /-- The index of the superclass, or 0. -/
  superclass : UInt16
  interfaces : List UInt16
  fields : List WrittenMember
  methods : List WrittenMember
  attributes : List WrittenAttribute

namespace WrittenClass

/-- The version is known, the tables can be counted, and so can everything in them. -/
def Fits (c : WrittenClass) : Prop :=
  45 ≤ c.majorVersion ∧ Format.words.Fits c.interfaces ∧ (WrittenMember.format c.pool.view).table.Fits c.fields ∧
    (WrittenMember.format c.pool.view).table.Fits c.methods ∧
    (WrittenAttribute.outerFormat c.pool.view).Fits c.attributes

/-- The image of a class file. -/
def encode (c : WrittenClass) : List UInt8 :=
  word32 0xCAFEBABE ++ (word16 c.minorVersion ++ (word16 c.majorVersion ++ (c.pool.encode ++ (word16 c.accessFlags ++
    (word16 c.thisClass ++ (word16 c.superclass ++ (Format.words.encode c.interfaces ++
      ((WrittenMember.format c.pool.view).table.encode c.fields ++
        ((WrittenMember.format c.pool.view).table.encode c.methods ++
          (WrittenAttribute.outerFormat c.pool.view).encode c.attributes)))))))))

/-- The class file that is read. -/
def view (c : WrittenClass) : ClassFile where
  minorVersion := c.minorVersion
  majorVersion := c.majorVersion
  pool := c.pool.view
  accessFlags := c.accessFlags
  thisClass := c.thisClass
  superclass? := if c.superclass = 0 then none else some c.superclass
  interfaces := c.interfaces
  fields := (WrittenMember.format c.pool.view).table.view c.fields
  methods := (WrittenMember.format c.pool.view).table.view c.methods
  attributes := (WrittenAttribute.outerFormat c.pool.view).view c.attributes

/-- Class files. -/
def format : Format WrittenClass ClassFile where
  Fits := Fits
  encode := encode
  view := view

end WrittenClass

namespace ClassFile

open Decoder

/-! ### Members -/

theorem reads_member (pool : ConstantPool) (table : MemberTable) (number : Nat) :
    (memberDecoder pool table number).Reads (WrittenMember.format pool).Spells := by
  have attributes := reads_within (.inMemberNumber table number) (reads_level pool (maxNestingDepth + 1))
  refine (reads_u16.bind fun accessFlags => reads_u16.bind fun name => reads_u16.bind fun descriptor =>
    attributes.map_spells (Member.mk accessFlags name descriptor)).congr fun bytes m => ?_
  constructor
  · intro h
    obtain ⟨_, accessFlags, rfl, _, ⟨_, name, rfl, _, ⟨_, descriptor, rfl, _, ⟨⟨as, fits⟩, rfl, rfl⟩, rfl⟩, rfl⟩,
        rfl⟩ := h
    exact ⟨⟨accessFlags, name, descriptor, as⟩, fits, rfl, rfl⟩
  · intro h
    obtain ⟨⟨accessFlags, name, descriptor, as⟩, fits, rfl, rfl⟩ := h
    exact ⟨_, accessFlags, rfl, _, ⟨_, name, rfl, _, ⟨_, descriptor, rfl, _, ⟨⟨as, fits⟩, rfl, rfl⟩, rfl⟩, rfl⟩, rfl⟩

/-- The number of a member, which only faults tell, does not change what is read. -/
private theorem reads_membersOnto (pool : ConstantPool) (table : MemberTable) (read : List Member) (number n : Nat) :
    (membersOnto pool table read number n).Reads fun bytes ms =>
      ∃ l, ((WrittenMember.format pool).repeated n).Spells bytes l ∧ ms = read.reverse ++ l := by
  induction n generalizing read number with
  | zero => exact Reads.nil_repeated _ read
  | succ n ih => exact Reads.cons_repeated (reads_member pool table number) fun m => ih (m :: read) (number + 1)

theorem reads_members (pool : ConstantPool) (table : MemberTable) :
    (membersDecoder pool table).Reads (WrittenMember.format pool).table.Spells :=
  Reads.counted fun n => (reads_membersOnto pool table [] 0 n).congr fun bytes ms => by simp

/-! ### Classes -/

/-- The tables after the header of a class. -/
private theorem reads_tables (pool : ConstantPool)
    (make : List UInt16 → List Member → List Member → List Attribute → ClassFile) : (do
      let interfaces ← u16List
      let fields ← membersDecoder pool .fields
      let methods ← membersDecoder pool .methods
      let attributes ← Attribute.tableDecoder pool
      return make interfaces fields methods attributes : Decoder ClassFile).Reads fun bytes c =>
        ∃ is fs ms as, (Format.words.Fits is ∧ (WrittenMember.format pool).table.Fits fs ∧
          (WrittenMember.format pool).table.Fits ms ∧ (WrittenAttribute.outerFormat pool).Fits as) ∧
          bytes = Format.words.encode is ++ ((WrittenMember.format pool).table.encode fs ++
            ((WrittenMember.format pool).table.encode ms ++ (WrittenAttribute.outerFormat pool).encode as)) ∧
          c = make is ((WrittenMember.format pool).table.view fs) ((WrittenMember.format pool).table.view ms)
            ((WrittenAttribute.outerFormat pool).view as) := by
  have attributes := reads_level pool (maxNestingDepth + 1)
  refine (reads_u16List.bind fun is => (reads_members pool .fields).bind fun fs => (reads_members pool .methods).bind
    fun ms => attributes.map_spells (make is fs ms)).congr fun bytes c => ?_
  constructor
  · intro h
    obtain ⟨_, _, ⟨is, hi, rfl, rfl⟩, _, ⟨_, _, ⟨fs, hf, rfl, rfl⟩, _, ⟨_, _, ⟨ms, hm, rfl, rfl⟩, _, ⟨⟨as, ha⟩, rfl,
        rfl⟩, rfl⟩, rfl⟩, rfl⟩ := h
    exact ⟨is, fs, ms, as, ⟨hi, hf, hm, ha⟩, rfl, rfl⟩
  · intro h
    obtain ⟨is, fs, ms, as, ⟨hi, hf, hm, ha⟩, rfl, rfl⟩ := h
    exact ⟨_, _, ⟨is, hi, rfl, rfl⟩, _, ⟨_, _, ⟨fs, hf, rfl, rfl⟩, _, ⟨_, _, ⟨ms, hm, rfl, rfl⟩, _,
      ⟨⟨as, ha⟩, rfl, rfl⟩, rfl⟩, rfl⟩, rfl⟩

/-- Reading a class takes exactly the image of a written class that keeps the limits. -/
theorem reads_structure (size : Nat) : (structureDecoder size).Reads WrittenClass.format.Spells := by
  unfold structureDecoder
  refine ((reads_within _ reads_u32).bind fun word => reads_unless _ <| reads_u16.bind fun minor =>
    reads_u16.bind fun major => reads_unless _ <| ConstantPool.reads_pool.bind fun pool =>
      reads_u16.bind fun flags => reads_u16.bind fun name => reads_u16.bind fun super =>
        reads_tables pool fun is fs ms as => ⟨minor, major, pool, flags, name,
          if super = 0 then none else some super, is, fs, ms, as⟩).congr fun bytes c => ?_
  constructor
  · intro h
    obtain ⟨_, word, rfl, _, ⟨hword, _, minor, rfl, _, ⟨_, major, rfl, _, ⟨hmajor, _, _, ⟨pool, -, rfl, rfl⟩, _, ⟨_,
        flags, rfl, _, ⟨_, name, rfl, _, ⟨_, super, rfl, _, ⟨is, fs, ms, as, fits, rfl, rfl⟩, rfl⟩, rfl⟩, rfl⟩,
        rfl⟩, rfl⟩, rfl⟩, rfl⟩ := h
    obtain rfl : word = magic := not_not.1 hword
    exact ⟨⟨minor, major, pool, flags, name, super, is, fs, ms, as⟩, ⟨UInt16.not_lt.1 hmajor, fits⟩, rfl, rfl⟩
  · intro h
    obtain ⟨⟨minor, major, pool, flags, name, super, is, fs, ms, as⟩, ⟨hmajor, fits⟩, rfl, rfl⟩ := h
    exact ⟨_, magic, rfl, _, ⟨not_not.2 rfl, _, minor, rfl, _, ⟨_, major, rfl, _, ⟨UInt16.not_lt.2 hmajor, _, _,
      ⟨pool, trivial, rfl, rfl⟩, _, ⟨_, flags, rfl, _, ⟨_, name, rfl, _, ⟨_, super, rfl, _,
        ⟨is, fs, ms, as, fits, rfl, rfl⟩, rfl⟩, rfl⟩, rfl⟩, rfl⟩, rfl⟩, rfl⟩, rfl⟩

/-- A class file is a class with nothing after it. -/
theorem decoder_eq_ok_iff {size : Nat} {cursor after : Cursor} {c : ClassFile} :
    decoder size cursor = .ok c after ↔ structureDecoder size cursor = .ok c after ∧ after.rest = [] := by
  unfold decoder
  rw [bind_eq_ok_iff]
  constructor
  · intro h
    obtain ⟨a, middle, h, h'⟩ := h
    obtain ⟨hr, rfl, rfl⟩ := refuse_eq_ok_iff.1 h'
    exact ⟨h, hr⟩
  · intro h
    obtain ⟨h, hr⟩ := h
    exact ⟨c, after, h, refuse_eq_ok_iff.2 ⟨hr, rfl, rfl⟩⟩

theorem decode_eq_ok_iff_spells {image : List UInt8} {c : ClassFile} :
    decode image = .ok c ↔ WrittenClass.format.Spells image c := by
  unfold decode
  rw [Decoder.decode_eq_ok_iff]
  simp only [decoder_eq_ok_iff, reads_structure image.length _ _ _]
  constructor
  · intro h
    obtain ⟨after, ⟨taken, spelt, e, -⟩, hr⟩ := h
    rw [hr, List.append_nil] at e
    obtain rfl : image = taken := e
    exact spelt
  · intro spelt
    exact ⟨⟨0 + image.length, []⟩, ⟨image, spelt, (List.append_nil image).symm, rfl⟩, rfl⟩

/-- The images that are accepted are those of the written classes that keep the limits, and what is read is what they
stand for. -/
theorem decode_eq_ok_iff_written (image : List UInt8) (c : ClassFile) :
    decode image = .ok c ↔ ∃ raw : WrittenClass, raw.Fits ∧ raw.encode = image ∧ raw.view = c :=
  decode_eq_ok_iff_spells

/-- The least image: an empty pool and empty tables. -/
example : ∃ c, decode [0xCA, 0xFE, 0xBA, 0xBE, 0, 0, 0, 52, 0, 1, 0, 0, 0, 0, 0, 0, 0, 0, 0, 0, 0, 0, 0, 0] = .ok c :=
  ⟨_, rfl⟩

end ClassFile

end ClassCensus
