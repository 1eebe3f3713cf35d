import ClassCensus.ClassFile.Cursor
import ClassCensus.ClassFile.ModifiedUtf8

/-!
# Constant pools

The constants of a class file, addressed by slot. Entries are stored as read and resolved on demand, so a dangling
link is a fault of the look-up that follows it.

* (slots) reading fills exactly the declared number of slots: slot 0 is unusable, and so is the slot after each
  eight-byte constant;
* (look-ups) `get` refuses unusable slots and slots outside the pool; `utf8`, `className` and `nameAndType` also refuse
  an entry of another kind.
-/

namespace ClassCensus

/-- The slots of a constant pool. -/
structure ConstantPool where
  entries : Array Constant
deriving DecidableEq

namespace ConstantPool

/-- The text constant that comes next, for the slot `slot`. -/
def textConstant (slot : Nat) : Decoder Constant := do
  let length ← Decoder.u16
  let bytes ← Decoder.bytes length.toNat
  match ModifiedUtf8.decode bytes with
  | .ok text => return .utf8 text
  | .error e => throw (.inPoolEntry slot e)

/-- The constant that comes next, for the slot `slot`. -/
def constant (slot : Nat) : Decoder Constant := do
  let offset ← Decoder.offset
  let tag ← Decoder.u8
  match tag.toNat with
  | 1 => textConstant slot
  | 3 => return .integer (← Decoder.i32)
  | 4 => return .float (← Decoder.u32)
  | 5 => return .long (← Decoder.u64).toInt64
  | 6 => return .double (← Decoder.u64)
  | 7 => return .classInfo (← Decoder.u16)
  | 8 => return .string (← Decoder.u16)
  | 9 => return .memberRef .field (← Decoder.u16) (← Decoder.u16)
  | 10 => return .memberRef .method (← Decoder.u16) (← Decoder.u16)
  | 11 => return .memberRef .interfaceMethod (← Decoder.u16) (← Decoder.u16)
  | 12 => return .nameAndType (← Decoder.u16) (← Decoder.u16)
  | 15 => return .methodHandle (← Decoder.u8) (← Decoder.u16)
  | 16 => return .methodType (← Decoder.u16)
  | 17 => return .dynamic (← Decoder.u16) (← Decoder.u16)
  | 18 => return .invokeDynamic (← Decoder.u16) (← Decoder.u16)
  | 19 | 20 =>
    Decoder.skip 2
    return .undecoded tag
  | _ => throw (.unknownConstantTag tag slot offset)

/-- Fills `slots` more slots after `entries`. -/
def fill (entries : Array Constant) : (slots : Nat) → Decoder (Array Constant)
  | 0 => return entries
  | slots + 1 => do
    let entry ← constant entries.size
    if entry.isWide then
      match slots with
      | 0 => throw (.wideConstantOverrun entries.size)
      | slots + 1 => fill ((entries.push entry).push .unusable) slots
    else fill (entries.push entry) slots

/-- A two-byte count of slots and the entries that fill them. -/
def decoder : Decoder ConstantPool := do
  let count ← Decoder.u16
  match count.toNat with
  | 0 => throw .emptyPool
  | slots + 1 => return ⟨← fill #[.unusable] slots⟩

/-- The number of slots. -/
def size (pool : ConstantPool) : Nat :=
  pool.entries.size

/-- There is no slot beside slot 0. -/
def isEmpty (pool : ConstantPool) : Bool :=
  pool.size ≤ 1

/-- The slots that hold an entry, in order. -/
def toList (pool : ConstantPool) : List (Nat × Constant) :=
  (pool.entries.toList.zipIdx.map Prod.swap).filter fun slot => slot.2 ≠ .unusable

/-- The entry in a slot. -/
def get (pool : ConstantPool) (index : UInt16) : Except FormatError Constant :=
  match pool.entries[index.toNat]? with
  | none | some .unusable => .error (.invalidIndex index pool.size)
  | some entry => .ok entry

/-- The text in a slot. -/
def utf8 (pool : ConstantPool) (index : UInt16) : Except FormatError String := do
  match ← pool.get index with
  | .utf8 text => return text
  | other => throw (.mistypedEntry index .utf8 other)

/-- The name that the class entry in a slot points to. -/
def className (pool : ConstantPool) (index : UInt16) : Except FormatError String := do
  match ← pool.get index with
  | .classInfo name => pool.utf8 name
  | other => throw (.mistypedEntry index .classInfo other)

/-- The name and the descriptor that the entry in a slot points to. -/
def nameAndType (pool : ConstantPool) (index : UInt16) : Except FormatError (String × String) := do
  match ← pool.get index with
  | .nameAndType name descriptor => return (← pool.utf8 name, ← pool.utf8 descriptor)
  | other => throw (.mistypedEntry index .nameAndType other)

end ConstantPool

end ClassCensus
