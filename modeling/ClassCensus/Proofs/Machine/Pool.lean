import ClassCensus.ClassFile.Pool
import ClassCensus.Proofs.Machine.ImageReader

/-!
# Reading constant pools by offset

The readings of texts and constants with the operations of a machine, and that they follow `ConstantPool.decoder`.

* (readings) each reading has the name of the decoder that it follows and that says what is read;
* (texts) the bytes of a text that is not plain are addressed one by one; a byte that a unit lacks is a refusal and no
  fault, for it is looked up before it is used;
* (listing) slots are listed under indices of 16 bits, which no pool that has been read outgrows (`listing_eq`).
-/

namespace ClassCensus.Machine

open View ImageReader

/-! ### Texts -/

namespace ModifiedUtf8

open ClassCensus.ModifiedUtf8 (continuation? unitsOnto)

/-- The bits of the byte `ahead` places behind the first byte of a unit. -/
def continuation (bytes : List UInt8) (position ahead : Nat) : Checked Nat :=
  match bytes[position + ahead]? >>= continuation? with
  | some bits => return bits
  | none => throw (.invalidTextSequence position)

/-- The units of a text from a byte on, after the units `read` (latest first). -/
def unitsFrom (bytes : List UInt8) (position : Nat) (read : List UInt16) : (rounds : Nat) → Checked (List UInt16)
  | 0 => fault .endless
  | rounds + 1 => do
    if position < bytes.length then
      let b ← item bytes position
      if 0x01 ≤ b ∧ b ≤ 0x7F then
        unitsFrom bytes (position + 1) (b.toUInt16 :: read) rounds
      else if 0xC0 ≤ b ∧ b ≤ 0xDF then
        let low ← continuation bytes position 1
        unitsFrom bytes (position + 2) (UInt16.ofNat (b.toNat % 32 * 64 + low) :: read) rounds
      else if 0xE0 ≤ b ∧ b ≤ 0xEF then
        let middle ← continuation bytes position 1
        let low ← continuation bytes position 2
        unitsFrom bytes (position + 3) (UInt16.ofNat ((b.toNat % 16 * 64 + middle) * 64 + low) :: read) rounds
      else throw (.invalidTextByte b position)
    else return read.reverse

def decode (bytes : List UInt8) : Checked String :=
  match Text.Utf8.decode bytes, bytes.contains 0 with
  | .ok text, false => return text
  | _, _ => Text.Utf16.decodeLossy <$> unitsFrom bytes 0 [] (bytes.length + 1)

private theorem unitsFrom_eq {bytes : List UInt8} {position rounds : Nat} (read : List UInt16)
    (enough : bytes.length - position < rounds) :
    unitsFrom bytes position read rounds = total (unitsOnto position read (bytes.drop position)) := by
  induction rounds generalizing position read with
  | zero => omega
  | succ rounds ih =>
    rw [unitsFrom]
    by_cases more : position < bytes.length
    · obtain ⟨b, behind, ahead⟩ : ∃ b behind, bytes.drop position = b :: behind :=
        ⟨_, _, List.drop_eq_getElem_cons more⟩
      have next (n : Nat) : bytes[position + (n + 1)]? = behind[n]? := by
        rw [← List.getElem?_drop, ahead, List.getElem?_cons_succ]
      have later (n : Nat) : bytes.drop (position + (n + 1)) = behind.drop n := by
        rw [← List.drop_drop, ahead, List.drop_succ_cons]
      rw [if_pos more, item_eq ahead, pure_bind, ahead]
      unfold unitsOnto
      by_cases one : 0x01 ≤ b ∧ b ≤ 0x7F
      · rw [if_pos one, if_pos one, ih _ (by omega), later 0, List.drop_zero]
      rw [if_neg one, if_neg one]
      by_cases two : 0xC0 ≤ b ∧ b ≤ 0xDF
      · rw [if_pos two, if_pos two, continuation, next 0]
        cases behind with
        | nil => rfl
        | cons c behind =>
          rw [List.getElem?_cons_zero, Option.bind_eq_bind, Option.bind_some]
          dsimp only
          cases continuation? c with
          | none => rfl
          | some low => rw [pure_bind, ih _ (by omega), later 1, List.drop_one, List.tail_cons]
      rw [if_neg two, if_neg two]
      by_cases three : 0xE0 ≤ b ∧ b ≤ 0xEF
      · rw [if_pos three, if_pos three, continuation, continuation, next 0, next 1]
        match behind with
        | [] => rfl
        | [c] =>
          rw [List.getElem?_cons_zero, Option.bind_eq_bind, Option.bind_some]
          cases continuation? c <;> rfl
        | c :: d :: behind =>
          rw [List.getElem?_cons_zero, List.getElem?_cons_succ, List.getElem?_cons_zero, Option.bind_eq_bind,
            Option.bind_some, Option.bind_some]
          dsimp only
          cases continuation? c with
          | none => rfl
          | some middle =>
            cases continuation? d with
            | none => rfl
            | some low =>
              rw [pure_bind, pure_bind, ih _ (by omega), later 2, List.drop_succ_cons, List.drop_succ_cons,
                List.drop_zero]
      · rw [if_neg three, if_neg three]
        rfl
    · rw [if_neg more, List.drop_eq_nil_of_le (by omega), unitsOnto]
      rfl

theorem decode_eq (bytes : List UInt8) : decode bytes = total (ClassCensus.ModifiedUtf8.decode bytes) := by
  have units : unitsFrom bytes 0 [] (bytes.length + 1) = total (unitsOnto 0 [] bytes) :=
    unitsFrom_eq [] (Nat.lt_succ_self _)
  rw [decode, ClassCensus.ModifiedUtf8.decode, ClassCensus.ModifiedUtf8.decodeUnits, units]
  cases Text.Utf8.decode bytes with
  | error e => exact (total_map _ _).symm
  | ok text =>
    cases bytes.contains 0 with
    | false => rfl
    | true => exact (total_map _ _).symm

end ModifiedUtf8

/-! ### Constants -/

namespace ConstantPool

def textConstant (slot : Nat) : ImageReading Constant := do
  let length ← u16
  let taken ← bytes length.toNat
  return .utf8 (← inContext (.inPoolEntry slot) (ModifiedUtf8.decode taken))

def constant (slot : Nat) : ImageReading Constant := do
  let tag ← u8
  match tag.toNat with
  | 1 => textConstant slot
  | 3 => return .integer (← i32)
  | 4 => return .float (← u32)
  | 5 => return .long (← u64).toInt64
  | 6 => return .double (← u64)
  | 7 => return .classInfo (← u16)
  | 8 => return .string (← u16)
  | 9 => return .memberRef .field (← u16) (← u16)
  | 10 => return .memberRef .method (← u16) (← u16)
  | 11 => return .memberRef .interfaceMethod (← u16) (← u16)
  | 12 => return .nameAndType (← u16) (← u16)
  | 15 => return .methodHandle (← u8) (← u16)
  | 16 => return .methodType (← u16)
  | 17 => return .dynamic (← u16) (← u16)
  | 18 => return .invokeDynamic (← u16) (← u16)
  | 19 | 20 =>
    skip 2
    return .undecoded tag
  | _ => throw (.unknownConstantTag tag slot (← lastOffset))

def fill (entries : Array Constant) : (slots : Nat) → ImageReading (Array Constant)
  | 0 => return entries
  | slots + 1 => do
    let entry ← constant entries.size
    if entry.isWide then
      match slots with
      | 0 => throw (.wideConstantOverrun entries.size)
      | slots + 1 => fill ((entries.push entry).push .unusable) slots
    else fill (entries.push entry) slots

def reading : ImageReading ConstantPool := do
  let count ← u16
  match count.toNat with
  | 0 => throw .emptyPool
  | slots + 1 => return ⟨← fill #[.unusable] slots⟩

/-- The slots that hold an entry, in order, under indices of 16 bits. -/
def listing (pool : ConstantPool) : Checked (List (Nat × Constant)) :=
  pool.toList.mapM fun slot => do return (← narrow 16 slot.1, slot.2)

variable {image : List UInt8}

private theorem follows_textConstant (slot : Nat) :
    (onImage image).Follows (textConstant slot) (ClassCensus.ConstantPool.textConstant slot) := by
  refine follows_u16.bind fun length => (follows_bytes length.toNat).bind fun taken => ?_
  intro cursor valid
  rw [ModifiedUtf8.decode_eq]
  cases ClassCensus.ModifiedUtf8.decode taken with
  | ok text => exact .pure _ valid
  | error e => exact rfl

private theorem follows_constant (slot : Nat) :
    (onImage image).Follows (constant slot) (ClassCensus.ConstantPool.constant slot) := by
  intro cursor valid
  refine followsAt_offset ((follows_u8 cursor valid).bind fun tag after run valid => ?_)
  have words {f : UInt16 → UInt16 → Constant} : (onImage image).FollowsAt (do return f (← u16) (← u16))
      (do return f (← Decoder.u16) (← Decoder.u16)) after :=
    (follows_u16.bind fun _ => follows_u16.bind fun _ => .pure _) after valid
  generalize tag.toNat = number
  split
  case h_1 => exact follows_textConstant slot after valid
  case h_2 => exact (follows_i32.bind fun _ => .pure _) after valid
  case h_3 => exact (follows_u32.bind fun _ => .pure _) after valid
  case h_4 => exact (follows_u64.bind fun _ => .pure _) after valid
  case h_5 => exact (follows_u64.bind fun _ => .pure _) after valid
  case h_6 => exact (follows_u16.bind fun _ => .pure _) after valid
  case h_7 => exact (follows_u16.bind fun _ => .pure _) after valid
  case h_8 => exact words
  case h_9 => exact words
  case h_10 => exact words
  case h_11 => exact words
  case h_12 => exact (follows_u8.bind fun _ => follows_u16.bind fun _ => .pure _) after valid
  case h_13 => exact (follows_u16.bind fun _ => .pure _) after valid
  case h_14 => exact words
  case h_15 => exact words
  case h_16 => exact ((follows_skip 2).bind fun _ => .pure _) after valid
  case h_17 => exact ((follows_skip 2).bind fun _ => .pure _) after valid
  case h_18 =>
    repeat' split
    all_goals first | contradiction | exact followsAt_refused run

private theorem follows_fill (entries : Array Constant) (slots : Nat) :
    (onImage image).Follows (fill entries slots) (ClassCensus.ConstantPool.fill entries slots) := by
  induction slots using Nat.strong_induction_on generalizing entries with
  | _ slots ih =>
    match slots with
    | 0 => exact .pure _
    | slots + 1 =>
      rw [fill, ClassCensus.ConstantPool.fill]
      refine (follows_constant entries.size).bind fun entry => ?_
      refine Follows.ite (fun _ => ?_) fun _ => ih slots (by omega) _
      match slots with
      | 0 => exact follows_throw _
      | slots + 1 => exact ih slots (by omega) _

theorem follows_reading : (onImage image).Follows reading ClassCensus.ConstantPool.decoder := by
  refine follows_u16.bind fun count => ?_
  generalize count.toNat = slots
  match slots with
  | 0 => exact follows_throw _
  | slots + 1 => exact (follows_fill #[.unusable] slots).bind fun _ => .pure _

/-- The slots of a pool that 16 bits can number are listed under the indices that they have. -/
theorem listing_eq {pool : ConstantPool} (size : pool.size ≤ 2 ^ 16) : listing pool = pure pool.toList := by
  have indices : ∀ slot ∈ pool.toList, slot.1 < 2 ^ 16 := by
    intro slot mem
    obtain ⟨held, -⟩ := List.mem_filter.1 mem
    obtain ⟨⟨entry, index⟩, row, rfl⟩ := List.mem_map.1 held
    have inside := (List.mem_zipIdx row).2.1
    rw [Array.length_toList, Nat.zero_add] at inside
    exact Nat.lt_of_lt_of_le inside size
  rw [listing]
  generalize pool.toList = slots at indices
  induction slots with
  | nil => rfl
  | cons slot slots ih =>
    obtain ⟨first, others⟩ := List.forall_mem_cons.1 indices
    rw [List.mapM_cons, ih others, narrow, guarded_eq first]
    rfl

end ConstantPool

end ClassCensus.Machine
