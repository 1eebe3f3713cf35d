import ClassCensus.ClassFile.Constant

/-!
# Faults of class files

`FormatError` lists what can be wrong with a class file image, a descriptor or a signature, down to the place where it
shows; `FormatError.message` is the text of each fault.

* (contexts) the constructors `in…` wrap the fault of a part with the name of the part, so the outermost part comes
  first in the text.
-/

namespace ClassCensus

/-- The greatest depth of attribute tables, and of annotations and their element values. -/
def maxNestingDepth : Nat := 255

/-- The two tables of members of a class. -/
inductive MemberTable where
  | fields
  | methods
deriving DecidableEq

/-- The word for one member of a table. -/
def MemberTable.memberName : MemberTable → String
  | .fields => "field"
  | .methods => "method"

/-- The kind of entry that a look-up asks for. -/
inductive ExpectedConstant where
  | utf8
  | classInfo
  | nameAndType
deriving DecidableEq

/-- The words for the kind of entry that a look-up asks for. -/
def ExpectedConstant.describe : ExpectedConstant → String
  | .utf8 => "Utf8"
  | .classInfo => "a Class"
  | .nameAndType => "a NameAndType"

/-- What is wrong at a position of a descriptor or signature. -/
inductive TypeFault where
  | trailingCharacters
  | unterminatedIdentifier
  | tooManyDimensions
  | invalidType
  | endOfDescriptor
  | invalidTypeSignature
  | endOfSignature
  | malformedClassType
  | argumentsTooDeep
  | unterminatedArguments
  | unterminatedParameters
deriving DecidableEq

/-- The words for a fault of a descriptor or signature. -/
def TypeFault.describe : TypeFault → String
  | .trailingCharacters => "unexpected trailing characters"
  | .unterminatedIdentifier => "unterminated identifier"
  | .tooManyDimensions => "too many array dimensions"
  | .invalidType => "invalid type"
  | .endOfDescriptor => "unexpected end of descriptor"
  | .invalidTypeSignature => "invalid type signature"
  | .endOfSignature => "unexpected end of signature"
  | .malformedClassType => "malformed class type signature"
  | .argumentsTooDeep => "type arguments nested too deeply"
  | .unterminatedArguments => "unterminated type arguments"
  | .unterminatedParameters => "unterminated type parameters"

/-- A fault of a class file image, a descriptor or a signature. -/
inductive FormatError where
  | endOfData (needed offset available : Nat)
  | emptyPool
  | unknownConstantTag (tag : UInt8) (entry offset : Nat)
  /-- The eight-byte constant `entry` would take a slot after the last one. -/
  | wideConstantOverrun (entry : Nat)
  | invalidTextSequence (position : Nat)
  | invalidTextByte (byte : UInt8) (position : Nat)
  | inPoolEntry (entry : Nat) (cause : FormatError)
  | invalidIndex (index : UInt16) (slots : Nat)
  | mistypedEntry (index : UInt16) (expected : ExpectedConstant) (found : Constant)
  | instructionOverrun (opcode : UInt8) (pc : Nat)
  /-- A table switch whose greatest key is below its least key. -/
  | emptySwitchRange (pc : Nat)
  | negativeSwitchPairs (pc : Nat)
  | truncatedSwitch (position : Nat)
  | invalidWideTarget (opcode : UInt8) (pc : Nat)
  | truncatedWide (pc : Nat)
  | unknownOpcode (opcode : UInt8) (pc : Nat)
  | attributesTooDeep
  | elementValuesTooDeep (offset : Nat)
  | unknownElementTag (tag : UInt8) (offset : Nat)
  | unknownTypeTarget (target : UInt8) (offset : Nat)
  /-- The body of an attribute goes on after its last field. -/
  | unusedAttributeBytes (name : String) (declared used : Nat)
  | inAttribute (name : String) (cause : FormatError)
  | tooShort (size : Nat)
  | badMagic (word : UInt32)
  | unsupportedVersion (major minor : UInt16)
  | trailingBytes (count : Nat)
  | inMemberNumber (table : MemberTable) (number : Nat) (cause : FormatError)
  | typeText (fault : TypeFault) (position : Nat) (text : String)
  | emptyClassName
  /-- A method handle that names something other than a member. -/
  | invalidHandleTarget (index : UInt16) (found : Constant)
  | inMember (table : MemberTable) (name : String) (cause : FormatError)
  | inInstruction (opcode : UInt8) (pc : Nat) (cause : FormatError)
deriving DecidableEq

/-- The text of a fault. -/
def FormatError.message : FormatError → String
  | .endOfData needed offset available =>
    s!"unexpected end of data: needed {needed} bytes at offset {offset}, {available} available"
  | .emptyPool => "constant pool count must be at least 1"
  | .unknownConstantTag tag entry offset =>
    s!"unknown constant pool tag {tag.toNat} at entry #{entry} (offset {offset})"
  | .wideConstantOverrun entry => s!"8-byte constant at entry #{entry} overruns the pool"
  | .invalidTextSequence position => s!"invalid modified UTF-8 sequence at byte {position}"
  | .invalidTextByte byte position =>
    s!"invalid modified UTF-8 byte 0x{Text.hexUpperPadded 2 byte.toNat} at {position}"
  | .inPoolEntry entry cause => s!"constant pool entry #{entry}: {cause.message}"
  | .invalidIndex index slots => s!"invalid constant pool index #{index.toNat} (pool has {slots} slots)"
  | .mistypedEntry index expected found => s!"entry #{index.toNat} is not {expected.describe}: {found.describe}"
  | .instructionOverrun opcode pc =>
    s!"instruction 0x{Text.hexPadded 2 opcode.toNat} at pc {pc} runs past the end of the code"
  | .emptySwitchRange pc => s!"tableswitch at pc {pc} has high < low"
  | .negativeSwitchPairs pc => s!"lookupswitch at pc {pc} has negative npairs"
  | .truncatedSwitch position => s!"switch operands truncated at code offset {position}"
  | .invalidWideTarget opcode pc => s!"invalid wide target 0x{Text.hexPadded 2 opcode.toNat} at pc {pc}"
  | .truncatedWide pc => s!"truncated wide instruction at pc {pc}"
  | .unknownOpcode opcode pc => s!"unknown opcode 0x{Text.hexPadded 2 opcode.toNat} at pc {pc}"
  | .attributesTooDeep => s!"attributes nested more than {maxNestingDepth} deep"
  | .elementValuesTooDeep offset => s!"element values nested more than {maxNestingDepth} deep at offset {offset}"
  | .unknownElementTag tag offset =>
    s!"unknown element value tag 0x{Text.hexPadded 2 tag.toNat} at offset {offset}"
  | .unknownTypeTarget target offset =>
    s!"unknown type annotation target 0x{Text.hexPadded 2 target.toNat} at offset {offset}"
  | .unusedAttributeBytes name declared used =>
    s!"{name} attribute declares {declared} bytes but only {used} were used"
  | .inAttribute name cause => s!"in {name} attribute: {cause.message}"
  | .tooShort size => s!"too short to be a class file ({size} bytes)"
  | .badMagic word => s!"bad magic 0x{Text.hexUpperPadded 8 word.toNat}"
  | .unsupportedVersion major minor => s!"unsupported class file version {major.toNat}.{minor.toNat}"
  | .trailingBytes count => s!"{count} trailing bytes after the class structure"
  | .inMemberNumber table number cause => s!"{table.memberName} #{number}: {cause.message}"
  | .typeText fault position text => s!"{fault.describe} at position {position} in {Text.quote text}"
  | .emptyClassName => "empty class name"
  | .invalidHandleTarget index found => s!"method handle #{index.toNat} points at {found.describe}"
  | .inMember table name cause => s!"{table.memberName} {name}: {cause.message}"
  | .inInstruction opcode pc cause => s!"opcode 0x{Text.hexPadded 2 opcode.toNat} at pc {pc}: {cause.message}"

end ClassCensus
