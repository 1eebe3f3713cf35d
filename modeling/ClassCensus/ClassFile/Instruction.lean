import ClassCensus.ClassFile.Cursor

/-!
# Instructions

A method body is a sequence of instructions, each an opcode and its operands. Nothing is interpreted: the walk steps
from opcode to opcode and keeps the operands that index the constant pool.

* (layout) `operandLayout?` gives the operands of every opcode; two opcodes carry a table whose length the operands
  state, and one widens the operands of the opcode after it;
* (alignment) the operands of a switch start at the next multiple of four from the start of the body;
* (walk) `poolOperands` is linear in the body and stops at the first fault.
-/

namespace ClassCensus

/-- How the bytes after an opcode are laid out. -/
inductive OperandLayout where
  /-- A fixed number of bytes without an index of the constant pool. -/
  | fixed (length : Nat)
  /-- An index of the constant pool in `width` bytes, and other operands up to `length` bytes. -/
  | indexed (width length : Nat)
  | tableSwitch
  | lookupSwitch
  | wide
deriving DecidableEq

/-- The opcodes in ascending order, as closed ranges of one layout. -/
def operandLayouts : List (UInt8 × UInt8 × OperandLayout) := [
  (0x00, 0x0F, .fixed 0), (0x10, 0x10, .fixed 1), (0x11, 0x11, .fixed 2), (0x12, 0x12, .indexed 1 1),
  (0x13, 0x14, .indexed 2 2), (0x15, 0x19, .fixed 1), (0x1A, 0x35, .fixed 0), (0x36, 0x3A, .fixed 1),
  (0x3B, 0x83, .fixed 0), (0x84, 0x84, .fixed 2), (0x85, 0x98, .fixed 0), (0x99, 0xA8, .fixed 2),
  (0xA9, 0xA9, .fixed 1), (0xAA, 0xAA, .tableSwitch), (0xAB, 0xAB, .lookupSwitch), (0xAC, 0xB1, .fixed 0),
  (0xB2, 0xB8, .indexed 2 2), (0xB9, 0xBA, .indexed 2 4), (0xBB, 0xBB, .indexed 2 2), (0xBC, 0xBC, .fixed 1),
  (0xBD, 0xBD, .indexed 2 2), (0xBE, 0xBF, .fixed 0), (0xC0, 0xC1, .indexed 2 2), (0xC2, 0xC3, .fixed 0),
  (0xC4, 0xC4, .wide), (0xC5, 0xC5, .indexed 2 3), (0xC6, 0xC7, .fixed 2), (0xC8, 0xC9, .fixed 4),
  (0xCA, 0xCA, .fixed 0), (0xFE, 0xFF, .fixed 0)]

/-- The layout of the operands of an opcode, if it is an opcode. -/
def operandLayout? (opcode : UInt8) : Option OperandLayout :=
  (operandLayouts.find? fun row => row.1 ≤ opcode && opcode ≤ row.2.1).map (·.2.2)

/-- An instruction whose operands index the constant pool. -/
structure PoolOperand where
  pc : Nat
  opcode : UInt8
  index : UInt16
deriving DecidableEq

namespace Instruction

/-- The bytes between the opcode of a switch at `pc` and its operands. -/
def switchPadding (pc : Nat) : Nat :=
  3 - pc % 4

/-- The signed word at a position of the bytes after an opcode at `pc`. -/
def switchWord (pc : Nat) (bytes : List UInt8) (position : Nat) : Except FormatError Int32 :=
  let word := (bytes.drop position).take 4
  if word.length = 4 then .ok (UInt32.ofNat (bigEndian word)).toInt32
  else .error (.truncatedSwitch (pc + 1 + position))

/-- The operands of an opcode after a widening opcode take as many bytes, that opcode included. -/
def wideLength? (opcode : UInt8) : Option Nat :=
  if opcode = 0x84 then some 5
  else if (0x15 ≤ opcode ∧ opcode ≤ 0x19) ∨ (0x36 ≤ opcode ∧ opcode ≤ 0x3A) ∨ opcode = 0xA9 then some 3
  else none

/-- The number of bytes that the operands of the layout take after an opcode at `pc` that `bytes` follow. -/
def operandLength (pc : Nat) (bytes : List UInt8) : OperandLayout → Except FormatError Nat
  | .fixed length => .ok length
  | .indexed _ length => .ok length
  | .tableSwitch => do
    let padding := switchPadding pc
    let low ← switchWord pc bytes (padding + 4)
    let high ← switchWord pc bytes (padding + 8)
    if high < low then throw (.emptySwitchRange pc)
    return padding + 12 + 4 * (high.toInt - low.toInt + 1).toNat
  | .lookupSwitch => do
    let padding := switchPadding pc
    let pairs ← switchWord pc bytes (padding + 4)
    if pairs < 0 then throw (.negativeSwitchPairs pc)
    return padding + 8 + 8 * pairs.toInt.toNat
  | .wide =>
    match bytes with
    | [] => .error (.truncatedWide pc)
    | opcode :: _ =>
      match wideLength? opcode with
      | some length => .ok length
      | none => .error (.invalidWideTarget opcode pc)

/-- The index of the constant pool among the operands `operands`. -/
def poolIndex? (operands : List UInt8) : OperandLayout → Option UInt16
  | .indexed width _ => some (UInt16.ofNat (bigEndian (operands.take width)))
  | _ => none

/-- The operands of the instruction at `pc`, with the index among them. -/
def operandsAt (pc : Nat) (opcode : UInt8) (bytes : List UInt8) :
    Except FormatError (List UInt8 × Option UInt16) := do
  let some layout := operandLayout? opcode | throw (.unknownOpcode opcode pc)
  let length ← operandLength pc bytes layout
  let operands := bytes.take length
  if operands.length < length then throw (.instructionOverrun opcode pc)
  return (operands, poolIndex? operands layout)

/-- The pool operands of the body from `pc` on, after the operands `found` (latest first). -/
def poolOperandsOnto (pc : Nat) (found : List PoolOperand) : List UInt8 → Except FormatError (List PoolOperand)
  | [] => .ok found.reverse
  | opcode :: bytes =>
    match operandsAt pc opcode bytes with
    | .error e => .error e
    | .ok (operands, index?) =>
      poolOperandsOnto (pc + 1 + operands.length) ((index?.map fun index => ⟨pc, opcode, index⟩).toList ++ found)
        (bytes.drop operands.length)
termination_by bytes => bytes.length

end Instruction

/-- The pool operands of a body, in order. -/
def poolOperands (code : List UInt8) : Except FormatError (List PoolOperand) :=
  Instruction.poolOperandsOnto 0 [] code

end ClassCensus
