import ClassCensus.ClassFile.Instruction
import ClassCensus.Proofs.ClassFile.Spelling
import ClassCensus.Proofs.Outcome
import Mathlib.Data.FinEnum

/-!
# Instructions as they are written

A `WrittenInstruction` is an instruction of a method body with all its operands, in the forms of the instruction set.

* (forms) the instructions of one form share their operands and differ in the opcode (`takesNothing` and its like);
  the opcodes up to 0xCA, 0xFE and 0xFF are those of instructions, and no others (`exists_fits_iff`);
* (place) `WrittenInstruction.Fits pc` says that the instruction may stand at `pc`; the place matters for switches,
  whose operands are aligned (`Aligns`);
* (one instruction) the operands that are read at a place are those of an instruction that fits there
  (`operandsAt_eq_ok_iff`);
* (bodies) the walk accepts exactly the bodies that are written as one instruction after another, and finds the indices
  among their operands (`poolOperands_eq_ok_iff_written`).
-/

namespace ClassCensus

open Instruction

/-! ### Forms -/

/-- An instruction with its operands; the opcode is told where several instructions have one form. -/
inductive WrittenInstruction where
  | plain (opcode : UInt8)
  | pushByte (value : UInt8)
  | pushShort (value : UInt16)
  /-- Pushes a constant of the pool, by an index of one byte. -/
  | pushConstant (index : UInt8)
  /-- Works on a constant of the pool. -/
  | onConstant (opcode : UInt8) (index : UInt16)
  | invokeInterface (index : UInt16) (count zero : UInt8)
  | invokeDynamic (index : UInt16) (zeros : UInt16)
  | newArray (elementType : UInt8)
  | newNestedArray (index : UInt16) (dimensions : UInt8)
  /-- Loads a local variable, stores to it or returns to the address in it. -/
  | onLocal (opcode : UInt8) (slot : UInt8)
  | increment (slot amount : UInt8)
  | jump (opcode : UInt8) (offset : UInt16)
  | farJump (opcode : UInt8) (offset : UInt32)
  /-- The form of `onLocal` for any slot. -/
  | wideOnLocal (opcode : UInt8) (slot : UInt16)
  /-- The form of `increment` for any slot and amount. -/
  | wideIncrement (slot amount : UInt16)
  | tableSwitch (padding : List UInt8) (otherwise : UInt32) (low high : Int32) (targets : List UInt32)
  | lookupSwitch (padding : List UInt8) (otherwise : UInt32) (pairs : List (UInt32 × UInt32))

namespace WrittenInstruction

/-- The opcodes of instructions without operands: constants in the opcode, slots in the opcode, elements of arrays, the
stack, arithmetic, conversions and comparisons, returns, monitors, and what is reserved for debuggers. -/
def takesNothing (opcode : UInt8) : Bool :=
  opcode ≤ 0x0F || (0x1A ≤ opcode && opcode ≤ 0x35) || (0x3B ≤ opcode && opcode ≤ 0x83) ||
    (0x85 ≤ opcode && opcode ≤ 0x98) || (0xAC ≤ opcode && opcode ≤ 0xB1) ||
    opcode ∈ [0xBE, 0xBF, 0xC2, 0xC3, 0xCA, 0xFE, 0xFF]

/-- The opcodes of loads, of stores and of the return from a subroutine. -/
def takesLocal (opcode : UInt8) : Bool :=
  (0x15 ≤ opcode && opcode ≤ 0x19) || (0x36 ≤ opcode && opcode ≤ 0x3A) || opcode = 0xA9

/-- The opcodes of conditions, jumps and calls of subroutines. -/
def takesOffset (opcode : UInt8) : Bool :=
  (0x99 ≤ opcode && opcode ≤ 0xA8) || opcode = 0xC6 || opcode = 0xC7

/-- The opcodes of a jump and of a call of a subroutine with offsets of four bytes. -/
def takesFarOffset (opcode : UInt8) : Bool :=
  opcode = 0xC8 || opcode = 0xC9

/-- The opcodes of instructions whose only operand is an index of two bytes: constants, fields and methods, and the
types of objects, arrays and casts. -/
def takesIndex (opcode : UInt8) : Bool :=
  opcode = 0x13 || opcode = 0x14 || (0xB2 ≤ opcode && opcode ≤ 0xB8) || opcode ∈ [0xBB, 0xBD, 0xC0, 0xC1]

def opcode : WrittenInstruction → UInt8
  | .plain opcode | .onConstant opcode _ | .onLocal opcode _ | .jump opcode _ | .farJump opcode _ => opcode
  | .pushByte _ => 0x10
  | .pushShort _ => 0x11
  | .pushConstant _ => 0x12
  | .increment _ _ => 0x84
  | .tableSwitch .. => 0xAA
  | .lookupSwitch .. => 0xAB
  | .invokeInterface .. => 0xB9
  | .invokeDynamic .. => 0xBA
  | .newArray _ => 0xBC
  | .wideOnLocal _ _ | .wideIncrement _ _ => 0xC4
  | .newNestedArray _ _ => 0xC5

/-- The bytes of a row of a look-up switch. -/
def encodePair (pair : UInt32 × UInt32) : List UInt8 :=
  word32 pair.1 ++ word32 pair.2

/-- The bytes after the opcode. -/
def operands : WrittenInstruction → List UInt8
  | .plain _ => []
  | .pushByte operand | .pushConstant operand | .newArray operand | .onLocal _ operand => [operand]
  | .increment slot amount => [slot] ++ [amount]
  | .pushShort operand | .onConstant _ operand | .jump _ operand => word16 operand
  | .invokeInterface index count zero => word16 index ++ ([count] ++ [zero])
  | .invokeDynamic index zeros => word16 index ++ word16 zeros
  | .newNestedArray index dimensions => word16 index ++ [dimensions]
  | .farJump _ offset => word32 offset
  | .wideOnLocal opcode slot => opcode :: word16 slot
  | .wideIncrement slot amount => 0x84 :: (word16 slot ++ word16 amount)
  | .tableSwitch padding otherwise low high targets =>
    padding ++ (word32 otherwise ++ (word32 low.toUInt32 ++ (word32 high.toUInt32 ++ targets.flatMap word32)))
  | .lookupSwitch padding otherwise pairs =>
    padding ++ (word32 otherwise ++ (word32 (UInt32.ofNat pairs.length) ++ pairs.flatMap encodePair))

def encode (i : WrittenInstruction) : List UInt8 :=
  i.opcode :: i.operands

theorem add_length_encode (pc : Nat) (i : WrittenInstruction) :
    pc + i.encode.length = pc + 1 + i.operands.length := by
  rw [encode, List.length_cons, Nat.add_assoc, Nat.add_comm 1]

/-- The index of the constant pool among the operands, if there is one. -/
def index? : WrittenInstruction → Option UInt16
  | .pushConstant index => some index.toUInt16
  | .onConstant _ index | .invokeInterface index _ _ | .invokeDynamic index _ | .newNestedArray index _ => some index
  | _ => none

/-- Behind an opcode at `pc` and this padding stands a multiple of four, the next one. -/
def Aligns (pc : Nat) (padding : List UInt8) : Prop :=
  padding.length < 4 ∧ 4 ∣ pc + 1 + padding.length

/-- The opcode has the form, and a switch is aligned and has a target for each number from `low` to `high`, or rows that
can be counted. -/
def Fits (pc : Nat) : WrittenInstruction → Prop
  | .plain opcode => takesNothing opcode
  | .onConstant opcode _ => takesIndex opcode
  | .onLocal opcode _ | .wideOnLocal opcode _ => takesLocal opcode
  | .jump opcode _ => takesOffset opcode
  | .farJump opcode _ => takesFarOffset opcode
  | .tableSwitch padding _ low high targets =>
    Aligns pc padding ∧ low ≤ high ∧ (targets.length : Int) = high.toInt - low.toInt + 1
  | .lookupSwitch padding _ pairs => Aligns pc padding ∧ pairs.length < 2 ^ 31
  | .pushByte _ | .pushShort _ | .pushConstant _ | .invokeInterface .. | .invokeDynamic .. | .newArray _
  | .newNestedArray .. | .increment .. | .wideIncrement .. => True

end WrittenInstruction

/-! ### Layouts -/

/-- The layout of the operands of an opcode, told from the forms. -/
private def HasLayout (opcode : UInt8) : OperandLayout → Prop
  | .fixed length =>
    (length = 0 ∧ WrittenInstruction.takesNothing opcode) ∨
      (length = 1 ∧ (opcode = 0x10 ∨ opcode = 0xBC ∨ WrittenInstruction.takesLocal opcode)) ∨
      (length = 2 ∧ (opcode = 0x11 ∨ opcode = 0x84 ∨ WrittenInstruction.takesOffset opcode)) ∨
      (length = 4 ∧ WrittenInstruction.takesFarOffset opcode)
  | .indexed width length =>
    (width = 1 ∧ length = 1 ∧ opcode = 0x12) ∨ (width = 2 ∧ length = 2 ∧ WrittenInstruction.takesIndex opcode) ∨
      (width = 2 ∧ length = 3 ∧ opcode = 0xC5) ∨ (width = 2 ∧ length = 4 ∧ (opcode = 0xB9 ∨ opcode = 0xBA))
  | .tableSwitch => opcode = 0xAA
  | .lookupSwitch => opcode = 0xAB
  | .wide => opcode = 0xC4

private instance (opcode : UInt8) : (layout : OperandLayout) → Decidable (HasLayout opcode layout)
  | .fixed _ | .indexed _ _ => inferInstanceAs (Decidable (_ ∨ _))
  | .tableSwitch | .lookupSwitch | .wide => inferInstanceAs (Decidable (_ = _))

private theorem hasLayout_of_layout {opcode : UInt8} {layout : OperandLayout}
    (h : operandLayout? opcode = some layout) : HasLayout opcode layout := by
  have rows : ∀ opcode : UInt8, (operandLayout? opcode).all fun layout => decide (HasLayout opcode layout) := by
    decide +kernel
  simpa [h] using rows opcode

private theorem layout_of_hasLayout {opcode : UInt8} {layout : OperandLayout} (h : HasLayout opcode layout) :
    operandLayout? opcode = some layout := by
  have rows : ∀ opcode : UInt8,
      (WrittenInstruction.takesNothing opcode → operandLayout? opcode = some (.fixed 0)) ∧
      (WrittenInstruction.takesLocal opcode → operandLayout? opcode = some (.fixed 1)) ∧
      (WrittenInstruction.takesOffset opcode → operandLayout? opcode = some (.fixed 2)) ∧
      (WrittenInstruction.takesFarOffset opcode → operandLayout? opcode = some (.fixed 4)) ∧
      (WrittenInstruction.takesIndex opcode → operandLayout? opcode = some (.indexed 2 2)) := by
    decide +kernel
  obtain ⟨nothing, slot, offset, far, index⟩ := rows opcode
  cases layout with
  | fixed length =>
    rcases h with ⟨rfl, h⟩ | ⟨rfl, rfl | rfl | h⟩ | ⟨rfl, rfl | rfl | h⟩ | ⟨rfl, h⟩
    · exact nothing h
    · rfl
    · rfl
    · exact slot h
    · rfl
    · rfl
    · exact offset h
    · exact far h
  | indexed width length =>
    rcases h with ⟨rfl, rfl, rfl⟩ | ⟨rfl, rfl, h⟩ | ⟨rfl, rfl, rfl⟩ | ⟨rfl, rfl, rfl | rfl⟩
    · rfl
    · exact index h
    all_goals rfl
  | tableSwitch | lookupSwitch | wide =>
    obtain rfl := h
    rfl

/-! ### One instruction -/

namespace WrittenInstruction

/-- The layout of the operands of an instruction. -/
private def layout : WrittenInstruction → OperandLayout
  | .plain _ => .fixed 0
  | .pushByte _ | .newArray _ | .onLocal _ _ => .fixed 1
  | .pushShort _ | .increment _ _ | .jump _ _ => .fixed 2
  | .farJump _ _ => .fixed 4
  | .pushConstant _ => .indexed 1 1
  | .onConstant _ _ => .indexed 2 2
  | .newNestedArray _ _ => .indexed 2 3
  | .invokeInterface _ _ _ | .invokeDynamic _ _ => .indexed 2 4
  | .wideOnLocal _ _ | .wideIncrement _ _ => .wide
  | .tableSwitch .. => .tableSwitch
  | .lookupSwitch .. => .lookupSwitch

private theorem hasLayout_layout {pc : Nat} {i : WrittenInstruction} (h : i.Fits pc) : HasLayout i.opcode i.layout := by
  cases i <;> simp_all [HasLayout, layout, opcode, Fits]

private theorem poolIndex?_operands (i : WrittenInstruction) : poolIndex? i.operands i.layout = i.index? := by
  have word (index : UInt16) (behind : List UInt8) :
      some (UInt16.ofNat (bigEndian ((word16 index ++ behind).take 2))) = some index := by
    rw [List.take_left' (length_word16 index), bigEndian_word16, UInt16.ofNat_toNat]
  cases i with
  | onConstant opcode index =>
    have index := word index []
    rwa [List.append_nil] at index
  | invokeInterface index count zero => exact word index _
  | invokeDynamic index zeros => exact word index _
  | newNestedArray index dimensions => exact word index _
  | pushConstant index => simp [poolIndex?, operands, layout, index?, bigEndian]
  | _ => rfl

/-- The bytes between a switch and its operands are as many as align them. -/
private theorem aligns_iff {pc : Nat} {padding : List UInt8} :
    Aligns pc padding ↔ padding.length = switchPadding pc := by
  unfold Aligns switchPadding
  omega

end WrittenInstruction

/-! ### Switches -/

private theorem switchWord_eq_ok_iff {pc position : Nat} {bytes : List UInt8} {w : Int32} :
    switchWord pc bytes position = .ok w ↔ (bytes.drop position).take 4 = word32 w.toUInt32 := by
  rw [word32, eq_bigEndianBytes_iff w.toUInt32.toNat_lt]
  simp only [switchWord]
  split
  · next whole =>
    have small : bigEndian ((bytes.drop position).take 4) < 4294967296 := by
      have := bigEndian_lt ((bytes.drop position).take 4)
      rwa [whole] at this
    rw [Except.ok.injEq, and_iff_right whole]
    constructor
    · rintro rfl
      simp [Nat.mod_eq_of_lt small]
    · intro e
      rw [e]
      simp
  · next short => simp only [short, reduceCtorEq, false_and]

/-- The word that is read at a place is the one that is written there. -/
private theorem switchWord_append_iff {pc position : Nat} {front behind : List UInt8} {v : UInt32} {w : Int32}
    (place : front.length = position) :
    switchWord pc (front ++ (word32 v ++ behind)) position = .ok w ↔ v = w.toUInt32 := by
  rw [switchWord_eq_ok_iff, List.drop_left' place, List.take_left' (length_word32 v)]
  constructor
  · exact word32_injective
  · rintro rfl
    rfl

section

variable {pc n : Nat} {bytes padding behind : List UInt8} {otherwise u v : UInt32} {w : Int32}

/-- Behind the word for all other values stands the first word that counts. -/
private theorem switchWord_first_iff (aligned : padding.length = switchPadding pc) :
    switchWord pc (padding ++ (word32 otherwise ++ (word32 v ++ behind))) (switchPadding pc + 4) = .ok w ↔
      v = w.toUInt32 := by
  rw [← List.append_assoc]
  exact switchWord_append_iff (by simp [aligned])

private theorem switchWord_second_iff (aligned : padding.length = switchPadding pc) :
    switchWord pc (padding ++ (word32 otherwise ++ (word32 u ++ (word32 v ++ behind)))) (switchPadding pc + 8) = .ok w ↔
      v = w.toUInt32 := by
  rw [← List.append_assoc, ← List.append_assoc]
  exact switchWord_append_iff (by simp [aligned])

private theorem tableSwitchLength_eq_ok_iff : operandLength pc bytes .tableSwitch = .ok n ↔ ∃ low high,
    switchWord pc bytes (switchPadding pc + 4) = .ok low ∧ switchWord pc bytes (switchPadding pc + 8) = .ok high ∧
      low ≤ high ∧ switchPadding pc + 12 + 4 * (high.toInt - low.toInt + 1).toNat = n := by
  simp only [operandLength, Except.bind_eq_ok_iff, Except.refuse_eq_ok_iff, Int32.not_lt, pure, Except.pure,
    Except.ok.injEq, exists_and_left]

private theorem lookupSwitchLength_eq_ok_iff : operandLength pc bytes .lookupSwitch = .ok n ↔ ∃ count,
    switchWord pc bytes (switchPadding pc + 4) = .ok count ∧ 0 ≤ count ∧
      switchPadding pc + 8 + 8 * count.toInt.toNat = n := by
  simp only [operandLength, Except.bind_eq_ok_iff, Except.refuse_eq_ok_iff, Int32.not_lt, pure, Except.pure,
    Except.ok.injEq]

/-- The words of counts are those of signed numbers that are not negative. -/
private theorem count_iff : (UInt32.ofNat n = w.toUInt32 ∧ n < 2 ^ 31) ↔ 0 ≤ w ∧ w.toInt.toNat = n := by
  constructor
  · rintro ⟨same, few⟩
    obtain rfl : Int32.ofNat n = w := by
      rw [← Int32.toInt32_toUInt32 w, ← same, ← Int32.toUInt32_ofNat', Int32.toInt32_toUInt32]
    rw [Int32.le_iff_toInt_le, Int32.toInt_ofNat_of_lt few]
    simp
  · rintro ⟨sign, rfl⟩
    have few : w.toInt.toNat < 2 ^ 31 := by
      have := w.toInt_lt
      omega
    refine ⟨?_, few⟩
    rw [← UInt32.toNat_inj, Int32.toNat_toUInt32_of_le sign, UInt32.toNat_ofNat_of_lt' (few.trans (by decide))]
    rfl

end

/-! ### Reading one instruction -/

private theorem wideLength?_eq_some_iff {opcode : UInt8} {n : Nat} :
    wideLength? opcode = some n ↔ (opcode = 0x84 ∧ 5 = n) ∨ (WrittenInstruction.takesLocal opcode ∧ 3 = n) := by
  have rows : ∀ opcode : UInt8, wideLength? opcode =
      if opcode = 0x84 then some 5 else if WrittenInstruction.takesLocal opcode then some 3 else none := by
    decide +kernel
  rw [rows opcode]
  by_cases widened : opcode = 0x84
  · have other : WrittenInstruction.takesLocal 0x84 = false := by decide
    simp only [widened, other, if_true, Option.some.injEq, true_and, Bool.false_eq_true, false_and, or_false]
  · simp only [widened, if_false, false_and, false_or, Option.ite_none_right_eq_some, Option.some.injEq]

private theorem wideLength_eq_ok_iff {pc n : Nat} {bytes : List UInt8} : operandLength pc bytes .wide = .ok n ↔
    ∃ target behind, bytes = target :: behind ∧ wideLength? target = some n := by
  cases bytes with
  | nil => simp [operandLength]
  | cons target behind => cases h : wideLength? target <;> simp [operandLength, h]

namespace WrittenInstruction

private theorem spans_encodePair : Spans encodePair 8 :=
  spans_word32.append spans_word32

/-- An instruction takes the bytes that it is written with, whatever follows. -/
private theorem operandLength_operands {pc : Nat} {i : WrittenInstruction} (h : i.Fits pc) (rest : List UInt8) :
    operandLength pc (i.operands ++ rest) i.layout = .ok i.operands.length := by
  cases i with
  | wideOnLocal opcode slot =>
    have length := wideLength?_eq_some_iff.2 (.inr ⟨h, rfl⟩)
    simp [layout, operands, operandLength, length]
  | wideIncrement slot amount =>
    have length := wideLength?_eq_some_iff.2 (.inl ⟨rfl, rfl⟩)
    simp [layout, operands, operandLength, length]
  | tableSwitch padding otherwise low high targets =>
    obtain ⟨aligned, ordered, count⟩ := h
    rw [aligns_iff] at aligned
    simp only [operands, List.append_assoc]
    refine tableSwitchLength_eq_ok_iff.2 ⟨low, high, (switchWord_first_iff aligned).2 rfl,
      (switchWord_second_iff aligned).2 rfl, ordered, ?_⟩
    simp only [List.length_append, length_word32, spans_word32.length_flatMap, aligned]
    omega
  | lookupSwitch padding otherwise pairs =>
    obtain ⟨aligned, few⟩ := h
    rw [aligns_iff] at aligned
    obtain ⟨sign, count⟩ := count_iff.1 ⟨(Int32.toUInt32_ofNat' (n := pairs.length)).symm, few⟩
    simp only [operands, List.append_assoc]
    refine lookupSwitchLength_eq_ok_iff.2 ⟨_, (switchWord_first_iff aligned).2 Int32.toUInt32_ofNat'.symm, sign, ?_⟩
    simp only [List.length_append, length_word32, spans_encodePair.length_flatMap, aligned]
    omega
  | _ => simp [layout, operands, operandLength]

section

variable {pc : Nat} {opcode : UInt8} {operands rest : List UInt8}

/-- The bytes are the operands of an instruction that fits at `pc`. -/
private def IsOperands (pc : Nat) (opcode : UInt8) (layout : OperandLayout) (operands : List UInt8) : Prop :=
  ∃ i : WrittenInstruction, i.Fits pc ∧ i.opcode = opcode ∧ i.layout = layout ∧ i.operands = operands

private theorem isOperands_fixed (known : HasLayout opcode (.fixed operands.length)) :
    IsOperands pc opcode (.fixed operands.length) operands := by
  rcases known with ⟨size, h⟩ | ⟨size, h⟩ | ⟨size, h⟩ | ⟨size, h⟩ <;> rw [size]
  · obtain rfl := List.length_eq_zero_iff.1 size
    exact ⟨.plain opcode, h, rfl, rfl, rfl⟩
  · obtain ⟨b, rfl⟩ := (spans_byte operands).1 size
    rcases h with rfl | rfl | h
    · exact ⟨.pushByte b, trivial, rfl, rfl, rfl⟩
    · exact ⟨.newArray b, trivial, rfl, rfl, rfl⟩
    · exact ⟨.onLocal opcode b, h, rfl, rfl, rfl⟩
  · rcases h with rfl | rfl | h
    · obtain ⟨w, rfl⟩ := (spans_word16 operands).1 size
      exact ⟨.pushShort w, trivial, rfl, rfl, rfl⟩
    · obtain ⟨⟨slot, amount⟩, rfl⟩ := ((spans_byte.append spans_byte) operands).1 size
      exact ⟨.increment slot amount, trivial, rfl, rfl, rfl⟩
    · obtain ⟨w, rfl⟩ := (spans_word16 operands).1 size
      exact ⟨.jump opcode w, h, rfl, rfl, rfl⟩
  · obtain ⟨w, rfl⟩ := (spans_word32 operands).1 size
    exact ⟨.farJump opcode w, h, rfl, rfl, rfl⟩

private theorem isOperands_indexed {width : Nat} (known : HasLayout opcode (.indexed width operands.length)) :
    IsOperands pc opcode (.indexed width operands.length) operands := by
  rcases known with ⟨rfl, size, rfl⟩ | ⟨rfl, size, h⟩ | ⟨rfl, size, rfl⟩ | ⟨rfl, size, h⟩ <;> rw [size]
  · obtain ⟨b, rfl⟩ := (spans_byte operands).1 size
    exact ⟨.pushConstant b, trivial, rfl, rfl, rfl⟩
  · obtain ⟨w, rfl⟩ := (spans_word16 operands).1 size
    exact ⟨.onConstant opcode w, h, rfl, rfl, rfl⟩
  · obtain ⟨⟨w, b⟩, rfl⟩ := ((spans_word16.append spans_byte) operands).1 size
    exact ⟨.newNestedArray w b, trivial, rfl, rfl, rfl⟩
  · rcases h with rfl | rfl
    · obtain ⟨⟨w, count, zero⟩, rfl⟩ := ((spans_word16.append (spans_byte.append spans_byte)) operands).1 size
      exact ⟨.invokeInterface w count zero, trivial, rfl, rfl, rfl⟩
    · obtain ⟨⟨w, zeros⟩, rfl⟩ := ((spans_word16.append spans_word16) operands).1 size
      exact ⟨.invokeDynamic w zeros, trivial, rfl, rfl, rfl⟩

private theorem isOperands_wide (size : operandLength pc (operands ++ rest) .wide = .ok operands.length) :
    IsOperands pc 0xC4 .wide operands := by
  obtain ⟨target, behind, e, h⟩ := wideLength_eq_ok_iff.1 size
  rw [wideLength?_eq_some_iff] at h
  obtain ⟨b, operands, rfl⟩ := List.exists_cons_of_ne_nil (List.ne_nil_of_length_pos (l := operands) (by omega))
  obtain rfl := (List.cons.inj e).1
  rcases h with ⟨rfl, length⟩ | ⟨h, length⟩
  · obtain ⟨⟨slot, amount⟩, rfl⟩ := ((spans_word16.append spans_word16) operands).1 (Nat.succ.inj length).symm
    exact ⟨.wideIncrement slot amount, trivial, rfl, rfl, rfl⟩
  · obtain ⟨w, rfl⟩ := (spans_word16 operands).1 (Nat.succ.inj length).symm
    exact ⟨.wideOnLocal b w, h, rfl, rfl, rfl⟩

private theorem isOperands_tableSwitch (size : operandLength pc (operands ++ rest) .tableSwitch = .ok operands.length) :
    IsOperands pc 0xAA .tableSwitch operands := by
  obtain ⟨low, high, first, second, ordered, size⟩ := tableSwitchLength_eq_ok_iff.1 size
  have parts := (spans_bytes (switchPadding pc)).append (spans_word32.append (spans_word32.append
    (spans_word32.append (spans_word32.flatMap (high.toInt - low.toInt + 1).toNat))))
  obtain ⟨⟨⟨padding, aligned⟩, otherwise, u, v, targets, count⟩, rfl⟩ := (parts operands).1 (by omega)
  simp only [List.append_assoc] at first second
  obtain rfl := (switchWord_first_iff aligned).1 first
  obtain rfl := (switchWord_second_iff aligned).1 second
  have order := Int32.le_iff_toInt_le.1 ordered
  exact ⟨.tableSwitch padding otherwise low high targets, ⟨aligns_iff.2 aligned, ordered, by omega⟩, rfl, rfl, rfl⟩

private theorem isOperands_lookupSwitch
    (size : operandLength pc (operands ++ rest) .lookupSwitch = .ok operands.length) :
    IsOperands pc 0xAB .lookupSwitch operands := by
  obtain ⟨count, first, sign, size⟩ := lookupSwitchLength_eq_ok_iff.1 size
  have parts := (spans_bytes (switchPadding pc)).append (spans_word32.append
    (spans_word32.append (spans_encodePair.flatMap count.toInt.toNat)))
  obtain ⟨⟨⟨padding, aligned⟩, otherwise, v, pairs, rows⟩, rfl⟩ := (parts operands).1 (by omega)
  simp only [List.append_assoc] at first
  obtain ⟨written, few⟩ := count_iff.2 ⟨sign, rows.symm⟩
  obtain rfl := ((switchWord_first_iff aligned).1 first).trans written.symm
  exact ⟨.lookupSwitch padding otherwise pairs, ⟨aligns_iff.2 aligned, few⟩, rfl, rfl, rfl⟩

/-- Bytes of the length that a layout asks for are the operands of an instruction. -/
private theorem isOperands_of_length {layout : OperandLayout} (known : HasLayout opcode layout)
    (size : operandLength pc (operands ++ rest) layout = .ok operands.length) :
    IsOperands pc opcode layout operands := by
  cases layout with
  | fixed n =>
    obtain rfl := Except.ok.inj size
    exact isOperands_fixed known
  | indexed width n =>
    obtain rfl := Except.ok.inj size
    exact isOperands_indexed known
  | wide =>
    obtain rfl : opcode = 0xC4 := known
    exact isOperands_wide size
  | tableSwitch =>
    obtain rfl : opcode = 0xAA := known
    exact isOperands_tableSwitch size
  | lookupSwitch =>
    obtain rfl : opcode = 0xAB := known
    exact isOperands_lookupSwitch size

end

end WrittenInstruction

namespace Instruction

/-- The bytes that the operands at a place take are those of a layout. -/
private theorem operandsAt_eq_ok_iff_layout {pc : Nat} {opcode : UInt8} {bytes operands : List UInt8}
    {index? : Option UInt16} : operandsAt pc opcode bytes = .ok (operands, index?) ↔
      ∃ layout rest, operandLayout? opcode = some layout ∧ bytes = operands ++ rest ∧
        operandLength pc bytes layout = .ok operands.length ∧ poolIndex? operands layout = index? := by
  unfold operandsAt
  cases operandLayout? opcode with
  | none => simp [throw, throwThe, MonadExceptOf.throw]
  | some layout =>
    simp only [Except.bind_eq_ok_iff, Except.refuse_eq_ok_iff, Option.some.injEq, pure, Except.pure, Except.ok.injEq,
      Prod.mk.injEq]
    constructor
    · rintro ⟨n, length, whole, rfl, rfl⟩
      have size : (bytes.take n).length = n := by
        rw [List.length_take] at whole ⊢
        omega
      exact ⟨layout, bytes.drop n, rfl, (List.take_append_drop n bytes).symm, by rw [length, size], rfl⟩
    · rintro ⟨_, rest, rfl, rfl, length, rfl⟩
      exact ⟨_, length, by simp, by simp, by simp⟩

end Instruction

/-- The operands that are read at a place are those of an instruction that fits there, in front of any bytes. -/
theorem operandsAt_eq_ok_iff {pc : Nat} {opcode : UInt8} {bytes operands : List UInt8} {index? : Option UInt16} :
    operandsAt pc opcode bytes = .ok (operands, index?) ↔
      ∃ (i : WrittenInstruction) (rest : List UInt8), i.Fits pc ∧ opcode :: bytes = i.encode ++ rest ∧
        i.operands = operands ∧ i.index? = index? := by
  rw [operandsAt_eq_ok_iff_layout]
  constructor
  · rintro ⟨layout, rest, known, rfl, length, rfl⟩
    obtain ⟨i, fits, rfl, rfl, rfl⟩ := WrittenInstruction.isOperands_of_length (hasLayout_of_layout known) length
    exact ⟨i, rest, fits, rfl, rfl, i.poolIndex?_operands.symm⟩
  · rintro ⟨i, rest, fits, e, rfl, rfl⟩
    obtain ⟨rfl, rfl⟩ := List.cons.inj e
    exact ⟨i.layout, rest, layout_of_hasLayout (WrittenInstruction.hasLayout_layout fits), rfl,
      WrittenInstruction.operandLength_operands fits rest, i.poolIndex?_operands⟩

namespace WrittenInstruction

/-- The opcodes up to 0xCA and the last two are those of instructions. -/
theorem exists_fits_iff {pc : Nat} {opcode : UInt8} :
    (∃ i : WrittenInstruction, i.Fits pc ∧ i.opcode = opcode) ↔ opcode ≤ 0xCA ∨ 0xFE ≤ opcode := by
  have rows : ∀ opcode : UInt8, (operandLayout? opcode).isSome = true ↔ opcode ≤ 0xCA ∨ 0xFE ≤ opcode := by
    decide +kernel
  rw [← rows opcode, Option.isSome_iff_exists]
  constructor
  · rintro ⟨i, fits, rfl⟩
    exact ⟨i.layout, layout_of_hasLayout (hasLayout_layout fits)⟩
  · rintro ⟨layout, known⟩
    have known := hasLayout_of_layout known
    have aligned : Aligns pc (List.replicate (switchPadding pc) 0) := aligns_iff.2 (by simp)
    have zeros (n : Nat) : (List.replicate n (0 : UInt8)).length = n := List.length_replicate
    cases layout with
    | fixed n =>
      rw [← zeros n] at known
      obtain ⟨i, fits, e, -, -⟩ := isOperands_fixed known
      exact ⟨i, fits, e⟩
    | indexed width n =>
      rw [← zeros n] at known
      obtain ⟨i, fits, e, -, -⟩ := isOperands_indexed known
      exact ⟨i, fits, e⟩
    | wide => exact ⟨.wideIncrement 0 0, trivial, Eq.symm known⟩
    | tableSwitch =>
      exact ⟨.tableSwitch (List.replicate (switchPadding pc) 0) 0 0 0 [0], ⟨aligned, by decide, rfl⟩, Eq.symm known⟩
    | lookupSwitch =>
      exact ⟨.lookupSwitch (List.replicate (switchPadding pc) 0) 0 [], ⟨aligned, by decide⟩, Eq.symm known⟩

/-- The opcodes of the instructions that have an index of the constant pool among their operands. -/
theorem isSome_index?_iff {pc : Nat} {i : WrittenInstruction} (fits : i.Fits pc) : i.index?.isSome = true ↔
    (0x12 ≤ i.opcode ∧ i.opcode ≤ 0x14) ∨ (0xB2 ≤ i.opcode ∧ i.opcode ≤ 0xBB) ∨
      i.opcode ∈ [0xBD, 0xC0, 0xC1, 0xC5] := by
  have rows : ∀ opcode : UInt8, (operandLayout? opcode).any (fun layout => (poolIndex? [] layout).isSome) = true ↔
      (0x12 ≤ opcode ∧ opcode ≤ 0x14) ∨ (0xB2 ≤ opcode ∧ opcode ≤ 0xBB) ∨ opcode ∈ [0xBD, 0xC0, 0xC1, 0xC5] := by
    decide +kernel
  rw [← rows, layout_of_hasLayout (hasLayout_layout fits)]
  cases i <;> simp [index?, layout, poolIndex?]

end WrittenInstruction

/-! ### Bodies -/

namespace WrittenInstruction

/-- The instructions fit one behind the other, the first of them at `pc`. -/
def FitFrom (pc : Nat) : List WrittenInstruction → Prop
  | [] => True
  | i :: is => i.Fits pc ∧ FitFrom (pc + i.encode.length) is

/-- The operand that indexes the constant pool, of an instruction at `pc`. -/
def poolOperand? (pc : Nat) (i : WrittenInstruction) : Option PoolOperand :=
  i.index?.map fun index => ⟨pc, i.opcode, index⟩

/-- The operands that index the constant pool, in order, where the first instruction stands at `pc`. -/
def poolOperandsFrom (pc : Nat) : List WrittenInstruction → List PoolOperand
  | [] => []
  | i :: is => (i.poolOperand? pc).toList ++ poolOperandsFrom (pc + i.encode.length) is

/-- Bodies written as instructions, of which the walk keeps the operands that index the constant pool. -/
def bodyFormat : Format (List WrittenInstruction) (List PoolOperand) where
  Fits := FitFrom 0
  encode is := is.flatMap encode
  view := poolOperandsFrom 0

end WrittenInstruction

section

open WrittenInstruction

variable {pc : Nat} {found : List PoolOperand}

/-- The walk goes on behind an instruction that fits, with the operand of it that it keeps. -/
private theorem poolOperandsOnto_encode {i : WrittenInstruction} (fits : i.Fits pc) (rest : List UInt8) :
    poolOperandsOnto pc found (i.encode ++ rest) =
      poolOperandsOnto (pc + i.encode.length) ((i.poolOperand? pc).toList ++ found) rest := by
  have read := operandsAt_eq_ok_iff.2 ⟨i, rest, fits, rfl, rfl, rfl⟩
  rw [add_length_encode, encode, List.cons_append, poolOperandsOnto.eq_def]
  simp only [List.append_eq] at read
  simp only [read, List.drop_left, poolOperand?]

/-- The walk accepts instructions that fit one behind the other. -/
private theorem poolOperandsOnto_flatMap_encode {is : List WrittenInstruction} (fit : FitFrom pc is) :
    poolOperandsOnto pc found (is.flatMap encode) = .ok (found.reverse ++ poolOperandsFrom pc is) := by
  induction is generalizing pc found with
  | nil => simp [poolOperandsOnto, poolOperandsFrom]
  | cons i is ih =>
    rw [List.flatMap_cons, poolOperandsOnto_encode fit.1, ih fit.2, poolOperandsFrom, List.reverse_append,
      List.append_assoc]
    cases i.poolOperand? pc <;> rfl

/-- What the walk accepts is written as instructions that fit one behind the other. -/
private theorem exists_written {bytes : List UInt8} {all : List PoolOperand}
    (accepted : poolOperandsOnto pc found bytes = .ok all) :
    ∃ is, FitFrom pc is ∧ is.flatMap encode = bytes := by
  fun_induction poolOperandsOnto pc found bytes with
  | case1 => exact ⟨[], trivial, rfl⟩
  | case2 => cases accepted
  | case3 pc found opcode bytes operands index? read ih =>
    obtain ⟨i, rest, fits, e, rfl, rfl⟩ := operandsAt_eq_ok_iff.1 read
    obtain ⟨is, fit, written⟩ := ih accepted
    obtain ⟨rfl, rfl⟩ := List.cons.inj e
    rw [List.append_eq, List.drop_left] at written
    exact ⟨i :: is, ⟨fits, (add_length_encode pc i).symm ▸ fit⟩, by rw [List.flatMap_cons, written]; rfl⟩

end

/-- The walk accepts exactly the bodies that are written as one instruction behind the other, and finds the indices of
the constant pool among their operands. -/
theorem poolOperands_eq_ok_iff_written {code : List UInt8} {found : List PoolOperand} :
    poolOperands code = .ok found ↔ WrittenInstruction.bodyFormat.Spells code found := by
  constructor
  · intro accepted
    obtain ⟨is, fit, rfl⟩ := exists_written accepted
    exact ⟨is, fit, rfl, Except.ok.inj ((poolOperandsOnto_flatMap_encode fit).symm.trans accepted)⟩
  · rintro ⟨is, fit, rfl, rfl⟩
    exact poolOperandsOnto_flatMap_encode fit

end ClassCensus
