import ClassCensus.ClassFile.Instruction
import ClassCensus.Proofs.Machine.Operation
import ClassCensus.Proofs.Outcome

/-!
# Walking a method body by position

The walk over the instructions of a body with the operations of a machine: a position `pc` in the body, opcodes and
operands addressed one by one, and the length of a switch computed from the words in it.

* (lengths) the words of a switch are any signed words of 32 bits, so its length takes up to 36 bits; from a position
  below 2^32 the sums, products and differences on the way stay inside of 64-bit words (`length_eq`);
* (operands) operands are addressed only after the instruction has been found to end inside of the body
  (`operandOf_eq`);
* (walk) on a body shorter than 2^32 the walk is `poolOperands` and has no fault (`operandsIn_eq`); every round moves
  forward, so one round more than there are bytes is never used up.
-/

namespace ClassCensus.Machine.Instruction

open ClassCensus.Instruction (switchPadding switchWord wideLength? operandLength poolIndex? operandsAt)

/-- The place of the operands of a switch at `pc`: the next multiple of four. -/
def switchOperands (pc : Nat) : Checked Nat := do
  let place ← plus pc 4
  return place &&& (wordSize - 4)

/-- The signed word at a place of the body. -/
def wordAt (code : List UInt8) (place : Nat) : Checked Int32 := do
  let stop ← plus place 4
  if stop > code.length then throw (.truncatedSwitch place)
  let word ← slice code place 4
  return (UInt32.ofNat (bigEndian (← items word 0 4))).toInt32

/-- The number of bytes of the table switch at `pc`. -/
def tableSwitchLength (code : List UInt8) (pc : Nat) : Checked Nat := do
  let base ← switchOperands pc
  let low ← wordAt code (← plus base 4)
  let high ← wordAt code (← plus base 8)
  if high < low then throw (.emptySwitchRange pc)
  let span ← signed (high.toInt - low.toInt)
  let entries ← unsigned (← signed (span + 1))
  let stop ← plus (← plus base 12) (← product entries 4)
  minus stop pc

/-- The number of bytes of the look-up switch at `pc`. -/
def lookupSwitchLength (code : List UInt8) (pc : Nat) : Checked Nat := do
  let base ← switchOperands pc
  let pairs ← wordAt code (← plus base 4)
  if pairs < 0 then throw (.negativeSwitchPairs pc)
  let stop ← plus (← plus base 8) (← product (← unsigned pairs.toInt) 8)
  minus stop pc

/-- The number of bytes of the instruction at `pc` with operands of the layout. -/
def lengthOf (code : List UInt8) (pc : Nat) : OperandLayout → Checked Nat
  | .fixed operands | .indexed _ operands => plus 1 operands
  | .tableSwitch => tableSwitchLength code pc
  | .lookupSwitch => lookupSwitchLength code pc
  | .wide =>
    match code[pc + 1]? with
    | none => throw (.truncatedWide pc)
    | some target =>
      match wideLength? target with
      | none => throw (.invalidWideTarget target pc)
      | some operands => plus 1 operands

/-- The number of bytes of the instruction at `pc`. -/
def length (code : List UInt8) (pc : Nat) : Checked Nat := do
  let opcode ← item code pc
  match operandLayout? opcode with
  | none => throw (.unknownOpcode opcode pc)
  | some layout => lengthOf code pc layout

/-- The pool operand of the instruction at `pc`. -/
def operandOf (code : List UInt8) (pc : Nat) (opcode : UInt8) : Checked (Option PoolOperand) := do
  match operandLayout? opcode with
  | some (.indexed width _) =>
    let index ← items code (pc + 1) width
    let pc ← narrow 32 pc
    return some ⟨pc, opcode, UInt16.ofNat (bigEndian index)⟩
  | _ => return none

/-- The pool operands of the body from `pc` on, after the operands `found` (latest first). -/
def operandsFrom (code : List UInt8) (pc : Nat) (found : List PoolOperand) :
    (rounds : Nat) → Checked (List PoolOperand)
  | 0 => fault .endless
  | rounds + 1 => do
    if pc < code.length then
      let opcode ← item code pc
      let length ← length code pc
      let stop ← plus pc length
      if stop > code.length then throw (.instructionOverrun opcode pc)
      let operand? ← operandOf code pc opcode
      operandsFrom code stop (operand?.toList ++ found) rounds
    else return found.reverse

/-- The pool operands of a body, in order. -/
def operandsIn (code : List UInt8) : Checked (List PoolOperand) :=
  operandsFrom code 0 [] (code.length + 1)

/-! ### Lengths -/

private theorem and_shiftLeft (n mask shift : Nat) : n &&& mask <<< shift = (n >>> shift &&& mask) <<< shift := by
  apply Nat.eq_of_testBit_eq
  intro i
  by_cases high : shift ≤ i
  · simp [Nat.testBit_shiftLeft, high, Nat.add_sub_cancel' high]
  · simp [Nat.testBit_shiftLeft, high]

/-- The mask clears the last two bits. -/
private theorem and_mask {n : Nat} (word : n < wordSize) : n &&& (wordSize - 4) = n / 4 * 4 := by
  have mask : wordSize - 4 = (2 ^ 62 - 1) <<< 2 := by decide
  have high : n >>> 2 < 2 ^ 62 := by
    rw [Nat.shiftRight_eq_div_pow]
    unfold wordSize at word
    omega
  rw [mask, and_shiftLeft, Nat.and_two_pow_sub_one_of_lt_two_pow high, Nat.shiftLeft_eq, Nat.shiftRight_eq_div_pow]

private theorem switchOperands_eq {pc : Nat} (small : pc < 2 ^ 32) :
    switchOperands pc = pure (pc + 1 + switchPadding pc) := by
  have inside : pc + 4 < wordSize := by
    unfold wordSize
    omega
  have place : (pc + 4) / 4 * 4 = pc + 1 + switchPadding pc := by
    rw [switchPadding]
    omega
  rw [switchOperands, plus, guarded_eq inside, pure_bind, and_mask inside, place]

section

variable {code bytes : List UInt8} {pc : Nat} {opcode : UInt8}

private theorem drop_succ (ahead : code.drop pc = opcode :: bytes) : code.drop (pc + 1) = bytes := by
  rw [← List.drop_drop, ahead, List.drop_one, List.tail_cons]

private theorem length_eq_add (ahead : code.drop pc = opcode :: bytes) : code.length = pc + 1 + bytes.length := by
  have length := congrArg List.length ahead
  rw [List.length_drop, List.length_cons] at length
  omega

/-- A word is there for the machine exactly if it is there for the walk. -/
private theorem wordAt_eq (ahead : code.drop pc = opcode :: bytes) {position : Nat}
    (small : pc + 1 + position + 4 < wordSize) :
    wordAt code (pc + 1 + position) = total (switchWord pc bytes position) := by
  have size := length_eq_add ahead
  have word : code.drop (pc + 1 + position) = bytes.drop position := by
    rw [← List.drop_drop, drop_succ ahead]
  rw [wordAt, plus, guarded_eq small, pure_bind, switchWord]
  dsimp only
  by_cases inside : pc + 1 + position + 4 ≤ code.length
  · have whole : ((bytes.drop position).take 4).length = 4 := by
      rw [List.length_take, List.length_drop]
      omega
    rw [if_neg (Nat.not_lt.2 inside), if_pos whole, slice, guarded_eq inside, pure_bind, word, items_all whole]
    rfl
  · have short : ((bytes.drop position).take 4).length ≠ 4 := by
      rw [List.length_take, List.length_drop]
      omega
    rw [if_pos (Nat.not_le.1 inside), if_neg short]
    rfl

/-- Apart from the switches and the widening opcode, operands take four bytes at most, an index among them included. -/
private def isShort : OperandLayout → Bool
  | .fixed operands => operands ≤ 4
  | .indexed width operands => width ≤ operands && operands ≤ 4
  | _ => true

private theorem isShort_of_layout {layout : OperandLayout} (h : operandLayout? opcode = some layout) :
    isShort layout = true := by
  obtain ⟨row, found, rfl⟩ := Option.map_eq_some_iff.1 h
  have rows : ∀ row ∈ operandLayouts, isShort row.2.2 = true := by decide
  exact rows row (List.mem_of_find?_eq_some found)

/-- The sums of offsets and small numbers are words. -/
private theorem plus_eq (size : code.length < 2 ^ 32) (ahead : code.drop pc = opcode :: bytes) {n : Nat}
    (few : n ≤ 12) :
    plus (pc + 1 + switchPadding pc) n = pure (pc + 1 + (switchPadding pc + n)) := by
  have inside := length_eq_add ahead
  have padding : switchPadding pc ≤ 3 := by rw [switchPadding]; omega
  rw [plus, guarded_eq (by unfold wordSize; omega), Nat.add_assoc]

/-- A switch of up to 2^32 rows ends at a word, and behind the place where it begins. -/
private theorem stop_eq {rows width start padding : Nat} (size : pc < 2 ^ 32) (few : rows ≤ 2 ^ 32) (narrow : width ≤ 8)
    (front : start ≤ 12) (short : padding ≤ 3) :
    (do let stop ← plus (pc + 1 + (padding + start)) (← product rows width); minus stop pc) =
      pure (1 + (padding + start + width * rows)) := by
  have room : rows * width ≤ 2 ^ 32 * 8 := Nat.mul_le_mul few narrow
  rw [product, guarded_eq (by unfold wordSize; omega), pure_bind, plus, guarded_eq (by unfold wordSize; omega),
    pure_bind, minus, guarded_eq (by omega), Nat.mul_comm width]
  congr 1
  omega

private theorem lookupSwitchLength_eq (size : code.length < 2 ^ 32) (ahead : code.drop pc = opcode :: bytes) :
    lookupSwitchLength code pc = (1 + ·) <$> total (operandLength pc bytes .lookupSwitch) := by
  have inside := length_eq_add ahead
  have padding : switchPadding pc ≤ 3 := by rw [switchPadding]; omega
  rw [lookupSwitchLength, switchOperands_eq (by omega), pure_bind, plus_eq size ahead (by decide), pure_bind,
    wordAt_eq ahead (by unfold wordSize; omega), plus_eq size ahead (by decide)]
  simp only [operandLength, total_bind, map_bind]
  refine bind_congr fun pairs => ?_
  by_cases negative : pairs < 0
  · rw [if_pos negative, if_pos negative]
    rfl
  · have sign : 0 ≤ pairs.toInt := by
      rw [Int32.lt_iff_toInt_lt] at negative
      simpa using negative
    have word : pairs.toInt < 2 ^ 31 := pairs.toInt_lt
    rw [if_neg negative, if_neg negative, pure_bind, unsigned, guarded_eq sign, pure_bind,
      stop_eq (by omega) (by omega) (by decide) (by decide) padding]
    rfl

private theorem tableSwitchLength_eq (size : code.length < 2 ^ 32) (ahead : code.drop pc = opcode :: bytes) :
    tableSwitchLength code pc = (1 + ·) <$> total (operandLength pc bytes .tableSwitch) := by
  have inside := length_eq_add ahead
  have padding : switchPadding pc ≤ 3 := by rw [switchPadding]; omega
  rw [tableSwitchLength, switchOperands_eq (by omega), pure_bind, plus_eq size ahead (by decide), pure_bind,
    wordAt_eq ahead (by unfold wordSize; omega), plus_eq size ahead (by decide)]
  simp only [operandLength, total_bind, map_bind]
  refine bind_congr fun low => ?_
  rw [pure_bind, wordAt_eq ahead (by unfold wordSize; omega), plus_eq size ahead (by decide)]
  refine bind_congr fun high => ?_
  by_cases empty : high < low
  · rw [if_pos empty, if_pos empty]
    rfl
  · have order : low.toInt ≤ high.toInt := by
      rw [Int32.lt_iff_toInt_lt] at empty
      exact Int.not_lt.1 empty
    have least : -2 ^ 31 ≤ low.toInt := low.le_toInt
    have greatest : high.toInt < 2 ^ 31 := high.toInt_lt
    rw [if_neg empty, if_neg empty, signed, guarded_eq (by omega), pure_bind, signed, guarded_eq (by omega), pure_bind,
      unsigned, guarded_eq (by omega), pure_bind, pure_bind,
      stop_eq (by omega) (by omega) (by decide) (by decide) padding]
    rfl

private theorem wideLength?_le {target : UInt8} {operands : Nat} (h : wideLength? target = some operands) :
    operands ≤ 5 := by
  unfold wideLength? at h
  split at h
  · cases h; decide
  · split at h
    · cases h; decide
    · cases h

private theorem lengthOf_eq (size : code.length < 2 ^ 32) (ahead : code.drop pc = opcode :: bytes)
    {layout : OperandLayout} (short : isShort layout) :
    lengthOf code pc layout = (1 + ·) <$> total (operandLength pc bytes layout) := by
  cases layout with
  | fixed operands =>
    have few : operands ≤ 4 := by simpa [isShort] using short
    exact guarded_eq (by unfold wordSize; omega)
  | indexed width operands =>
    have few : operands ≤ 4 := by
      simp only [isShort, Bool.and_eq_true, decide_eq_true_eq] at short
      exact short.2
    exact guarded_eq (by unfold wordSize; omega)
  | tableSwitch => exact tableSwitchLength_eq size ahead
  | lookupSwitch => exact lookupSwitchLength_eq size ahead
  | wide =>
    have next : code[pc + 1]? = bytes.head? := by
      rw [← List.head?_drop, drop_succ ahead]
    rw [lengthOf, next]
    cases bytes with
    | nil => rfl
    | cons target behind =>
      rw [List.head?_cons, operandLength]
      dsimp only
      cases wide : wideLength? target with
      | none => rfl
      | some operands =>
        have few := wideLength?_le wide
        exact guarded_eq (by unfold wordSize; omega)

/-- The machine computes the number of bytes of an instruction, or refuses it, as the walk does. -/
private theorem length_eq (size : code.length < 2 ^ 32) (ahead : code.drop pc = opcode :: bytes) :
    length code pc = match operandLayout? opcode with
      | none => throw (.unknownOpcode opcode pc)
      | some layout => (1 + ·) <$> total (operandLength pc bytes layout) := by
  rw [length, item_eq ahead, pure_bind]
  split
  case h_1 => rfl
  case h_2 layout known => exact lengthOf_eq size ahead (isShort_of_layout known)

private theorem operandLength_lt {layout : OperandLayout} (short : isShort layout) {n : Nat}
    (h : operandLength pc bytes layout = .ok n) : n < 2 ^ 36 := by
  have padding : switchPadding pc ≤ 3 := by rw [switchPadding]; omega
  cases layout with
  | fixed operands =>
    cases h
    have few : n ≤ 4 := by simpa [isShort] using short
    omega
  | indexed width operands =>
    cases h
    simp only [isShort, Bool.and_eq_true, decide_eq_true_eq] at short
    omega
  | tableSwitch =>
    obtain ⟨low, -, h⟩ := Except.bind_eq_ok_iff.1 h
    obtain ⟨high, -, h⟩ := Except.bind_eq_ok_iff.1 h
    obtain ⟨-, h⟩ := Except.refuse_eq_ok_iff.1 h
    cases h
    have least : -2 ^ 31 ≤ low.toInt := low.le_toInt
    have greatest : high.toInt < 2 ^ 31 := high.toInt_lt
    omega
  | lookupSwitch =>
    obtain ⟨pairs, -, h⟩ := Except.bind_eq_ok_iff.1 h
    obtain ⟨-, h⟩ := Except.refuse_eq_ok_iff.1 h
    cases h
    have word : pairs.toInt < 2 ^ 31 := pairs.toInt_lt
    omega
  | wide =>
    cases bytes with
    | nil => cases h
    | cons target behind =>
      rw [operandLength] at h
      split at h
      case h_1 operands wide =>
        cases h
        have few := wideLength?_le wide
        omega
      case h_2 => cases h

/-! ### Operands -/

/-- The operands of an instruction that ends inside of the body are there. -/
private theorem operandOf_eq (size : code.length < 2 ^ 32) (ahead : code.drop pc = opcode :: bytes)
    {layout : OperandLayout} (known : operandLayout? opcode = some layout) {n : Nat}
    (length : operandLength pc bytes layout = .ok n) (inside : pc + (1 + n) ≤ code.length) :
    operandOf code pc opcode = pure ((poolIndex? (bytes.take n) layout).map fun index => ⟨pc, opcode, index⟩) := by
  rw [operandOf, known]
  cases layout with
  | indexed width operands =>
    cases length
    have short := isShort_of_layout known
    simp only [isShort, Bool.and_eq_true, decide_eq_true_eq] at short
    have part : (bytes.take n).take width = bytes.take width := by
      rw [List.take_take, Nat.min_eq_left short.1]
    dsimp only
    rw [items_eq (by omega), pure_bind, drop_succ ahead, narrow, guarded_eq (by omega), poolIndex?, part]
    rfl
  | fixed operands => rfl
  | tableSwitch => rfl
  | lookupSwitch => rfl
  | wide => rfl

/-! ### The walk -/

private theorem operandsFrom_eq (size : code.length < 2 ^ 32) {rounds : Nat} (found : List PoolOperand)
    (start : pc ≤ code.length) (enough : code.length - pc < rounds) :
    operandsFrom code pc found rounds = total (ClassCensus.Instruction.poolOperandsOnto pc found (code.drop pc)) := by
  induction rounds generalizing pc found with
  | zero => omega
  | succ rounds ih =>
    rw [operandsFrom]
    by_cases more : pc < code.length
    · obtain ⟨opcode, bytes, ahead⟩ : ∃ opcode bytes, code.drop pc = opcode :: bytes :=
        ⟨_, _, List.drop_eq_getElem_cons more⟩
      have all := length_eq_add ahead
      rw [if_pos more, item_eq ahead, pure_bind, length_eq size ahead, ahead,
        ClassCensus.Instruction.poolOperandsOnto, operandsAt]
      cases known : operandLayout? opcode with
      | none => rfl
      | some layout =>
        dsimp only
        cases length : operandLength pc bytes layout with
        | error e => rfl
        | ok n =>
          have few := operandLength_lt (isShort_of_layout known) length
          have word : plus pc (1 + n) = pure (pc + (1 + n)) := guarded_eq (by unfold wordSize; omega)
          rw [total_ok, map_pure, pure_bind, word, pure_bind]
          by_cases overrun : pc + (1 + n) > code.length
          · have short : (bytes.take n).length < n := by
              rw [List.length_take]
              omega
            rw [if_pos overrun]
            simp only [bind, Except.bind, if_pos short]
            rfl
          · have whole : (bytes.take n).length = n := by
              rw [List.length_take]
              omega
            have behind : code.drop (pc + (1 + n)) = bytes.drop n := by
              rw [← Nat.add_assoc, ← List.drop_drop, drop_succ ahead]
            rw [if_neg overrun, operandOf_eq size ahead known length (by omega), pure_bind, ih _ (by omega) (by omega),
              behind]
            simp only [bind, Except.bind, pure, Except.pure, whole, Nat.lt_irrefl, if_false, ← Nat.add_assoc]
    · rw [if_neg more, List.drop_eq_nil_of_le (by omega), ClassCensus.Instruction.poolOperandsOnto]
      rfl

end

/-- On a body shorter than 2^32 the machine finds the operands of the walk, and nothing goes wrong. -/
theorem operandsIn_eq {code : List UInt8} (size : code.length < 2 ^ 32) :
    operandsIn code = total (poolOperands code) :=
  operandsFrom_eq size [] (Nat.zero_le _) (by omega)

end ClassCensus.Machine.Instruction
