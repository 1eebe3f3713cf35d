import ClassCensus.Proofs.Machine.ImageReader

/-!
# Fields read one after another

A class file is read field by field, and there are few kinds of fields.  Here they are read in any order, as many as
there are, also on from where a failed reading has left the cursor.

* (size) how many bytes a field takes up is told by its kind and, for a list, by the count in front (`Field.size`). It
  is read exactly if that many bytes are ahead, and then all of them are taken (`Field.decoder_cases`);
* (failure) a field of one part takes nothing when it fails; one of several parts keeps the parts that were whole
  (`Field.kept`);
* (place) so the cursor stays in the bytes that it started on, wherever readings leave it (`Field.valid_past`).
-/

namespace ClassCensus

/-- The cursor behind the next `n` bytes. -/
def Cursor.advance (cursor : Cursor) (n : Nat) : Cursor :=
  ⟨cursor.offset + n, cursor.rest.drop n⟩

@[simp] theorem Cursor.offset_advance (cursor : Cursor) (n : Nat) : (cursor.advance n).offset = cursor.offset + n :=
  rfl

@[simp] theorem Cursor.rest_advance (cursor : Cursor) (n : Nat) : (cursor.advance n).rest = cursor.rest.drop n :=
  rfl

@[simp] theorem Cursor.remaining_advance (cursor : Cursor) (n : Nat) :
    (cursor.advance n).remaining = cursor.remaining - n :=
  List.length_drop

@[simp] theorem Cursor.advance_zero (cursor : Cursor) : cursor.advance 0 = cursor :=
  rfl

theorem Cursor.advance_advance (cursor : Cursor) (m n : Nat) :
    (cursor.advance m).advance n = cursor.advance (m + n) := by
  rw [Cursor.advance, Cursor.advance, Cursor.advance, Nat.add_assoc, List.drop_drop]

/-- A kind of field. -/
inductive Field where
  | u8
  | u16
  | u32
  | i32
  | u64
  /-- A number of bytes. -/
  | bytes (n : Nat)
  /-- A number of bytes that are passed over. -/
  | skip (n : Nat)
  /-- A two-byte count and that many two-byte numbers. -/
  | u16List

namespace Field

/-- What is read from a field. -/
def Value : Field → Type
  | .u8 => UInt8
  | .u16 => UInt16
  | .u32 => UInt32
  | .i32 => Int32
  | .u64 => UInt64
  | .bytes _ => List UInt8
  | .skip _ => Unit
  | .u16List => List UInt16

/-- Reads a field. -/
def decoder : (f : Field) → Decoder f.Value
  | .u8 => Decoder.u8
  | .u16 => Decoder.u16
  | .u32 => Decoder.u32
  | .i32 => Decoder.i32
  | .u64 => Decoder.u64
  | .bytes n => Decoder.bytes n
  | .skip n => Decoder.skip n
  | .u16List => Decoder.u16List

/-- Reads a field by the operations of a machine. -/
def reading : (f : Field) → Machine.ImageReading f.Value
  | .u8 => Machine.ImageReader.u8
  | .u16 => Machine.ImageReader.u16
  | .u32 => Machine.ImageReader.u32
  | .i32 => Machine.ImageReader.i32
  | .u64 => Machine.ImageReader.u64
  | .bytes n => Machine.ImageReader.bytes n
  | .skip n => Machine.ImageReader.skip n
  | .u16List => Machine.ImageReader.u16List

/-- The words are those that the bytes begin with, two bytes each, the first byte in front. -/
def AreWords (bytes : List UInt8) (words : List UInt16) : Prop :=
  ∀ (i : Nat) (w : UInt16), words[i]? = some w → w.toNat = bigEndian ((bytes.drop (2 * i)).take 2)

/-- The bytes are those of a field that holds the value: numbers have their first byte in front, and a signed number is
the one that has the same last 32 bits. -/
def Holds : (f : Field) → List UInt8 → f.Value → Prop
  | .u8, taken, v => taken.length = 1 ∧ UInt8.toNat v = bigEndian taken
  | .u16, taken, v => taken.length = 2 ∧ UInt16.toNat v = bigEndian taken
  | .u32, taken, v => taken.length = 4 ∧ UInt32.toNat v = bigEndian taken
  | .i32, taken, v => taken.length = 4 ∧ Int32.toInt v = (bigEndian taken : Int).bmod (2 ^ 32)
  | .u64, taken, v => taken.length = 8 ∧ UInt64.toNat v = bigEndian taken
  | .bytes n, taken, v => taken.length = n ∧ v = taken
  | .skip n, taken, _ => taken.length = n
  | .u16List, taken, v =>
    taken.length = 2 + 2 * List.length v ∧ bigEndian (taken.take 2) = List.length v ∧ AreWords (taken.drop 2) v

/-- The number of bytes that the field takes up, if the bytes ahead are the given ones. Without a whole count in front,
a list takes up more than there is. -/
def size (ahead : List UInt8) : Field → Nat
  | .u8 => 1
  | .u16 => 2
  | .u32 => 4
  | .i32 => 4
  | .u64 => 8
  | .bytes n => n
  | .skip n => n
  | .u16List => 2 + 2 * bigEndian (ahead.take 2)

/-- The number of bytes of the parts in which the field is read. -/
def part : Field → Nat
  | .u64 => 4
  | .u16List => 2
  | f => f.size []

/-- The number of bytes of whole parts, if fewer are ahead than the field takes up. -/
def kept (available : Nat) : Field → Nat
  | .u64 => if 4 ≤ available then 4 else 0
  | .u16List => available / 2 * 2
  | _ => 0

/-- The cursor that a reading of the field leaves behind, whether it fails or not. -/
def past (f : Field) (cursor : Cursor) : Cursor :=
  match f.decoder cursor with
  | .ok _ after => after
  | .error _ after => after

/-- Words are spelled by as many bytes as they have. -/
private theorem AreWords.take {bytes : List UInt8} {words : List UInt16} (h : AreWords bytes words) :
    AreWords (bytes.take (2 * words.length)) words := by
  intro i w found
  have inside : i < words.length := (List.getElem?_eq_some_iff.1 found).1
  rw [h i w found, List.drop_take, List.take_take, Nat.min_eq_left (by omega)]

end Field

/-- The cursor that readings of the fields leave behind. -/
def Cursor.pastAll (cursor : Cursor) (fields : List Field) : Cursor :=
  fields.foldl (fun cursor f => f.past cursor) cursor

/-! ### One field -/

namespace Decoder

variable {cursor : Cursor}

private theorem bytes_of_le {n : Nat} (h : n ≤ cursor.remaining) :
    bytes n cursor = .ok (cursor.rest.take n) (cursor.advance n) := by
  have whole : (cursor.rest.take n).length = n := by
    rw [List.length_take]
    exact Nat.min_eq_left h
  rw [bytes, List.splitAt_eq]
  exact if_pos whole

private theorem bytes_of_lt {n : Nat} (h : cursor.remaining < n) :
    bytes n cursor = .error (.endOfData n cursor.offset cursor.remaining) cursor := by
  have short : (cursor.rest.take n).length ≠ n := by
    rw [List.length_take]
    exact Nat.ne_of_lt (lt_of_le_of_lt (Nat.min_le_right _ _) h)
  rw [bytes, List.splitAt_eq]
  exact if_neg short

variable {α β : Type}

private theorem bind_of_ok {d : Decoder α} {f : α → Decoder β} {after : Cursor} {a : α} (h : d cursor = .ok a after) :
    (d >>= f) cursor = f a after := by
  show EStateM.bind d f cursor = _
  rw [EStateM.bind, h]

private theorem bind_of_error {d : Decoder α} {f : α → Decoder β} {after : Cursor} {e : FormatError}
    (h : d cursor = .error e after) : (d >>= f) cursor = .error e after := by
  show EStateM.bind d f cursor = _
  rw [EStateM.bind, h]

private theorem u16_of_le (h : 2 ≤ cursor.remaining) :
    u16 cursor = .ok (UInt16.ofNat (bigEndian (cursor.rest.take 2))) (cursor.advance 2) :=
  bind_of_ok (bytes_of_le h)

private theorem u16_of_lt (h : cursor.remaining < 2) :
    u16 cursor = .error (.endOfData 2 cursor.offset cursor.remaining) cursor :=
  bind_of_error (bytes_of_lt h)

private theorem u32_of_le (h : 4 ≤ cursor.remaining) :
    u32 cursor = .ok (UInt32.ofNat (bigEndian (cursor.rest.take 4))) (cursor.advance 4) :=
  bind_of_ok (bytes_of_le h)

private theorem u32_of_lt (h : cursor.remaining < 4) :
    u32 cursor = .error (.endOfData 4 cursor.offset cursor.remaining) cursor :=
  bind_of_error (bytes_of_lt h)

private theorem toNat_word16 {bytes : List UInt8} (h : bytes.length = 2) :
    (UInt16.ofNat (bigEndian bytes)).toNat = bigEndian bytes := by
  apply UInt16.toNat_ofNat_of_lt'
  have bound := bigEndian_lt bytes
  rwa [h] at bound

private theorem toNat_word32 {bytes : List UInt8} (h : bytes.length = 4) :
    (UInt32.ofNat (bigEndian bytes)).toNat = bigEndian bytes := by
  apply UInt32.toNat_ofNat_of_lt'
  have bound := bigEndian_lt bytes
  rwa [h] at bound

private theorem toNat_word64 (h : 8 ≤ cursor.remaining) :
    (UInt64.ofNat ((UInt32.ofNat (bigEndian (cursor.rest.take 4))).toNat * 0x100000000 +
      (UInt32.ofNat (bigEndian ((cursor.rest.drop 4).take 4))).toNat)).toNat = bigEndian (cursor.rest.take 8) := by
  have halves : cursor.rest.take 8 = cursor.rest.take 4 ++ (cursor.rest.drop 4).take 4 :=
    List.take_add (i := 4) (j := 4)
  have high : (cursor.rest.take 4).length = 4 := List.length_take_of_le (by rw [Cursor.remaining] at h; omega)
  have low : ((cursor.rest.drop 4).take 4).length = 4 :=
    List.length_take_of_le (by rw [List.length_drop]; rw [Cursor.remaining] at h; omega)
  have whole : bigEndian (cursor.rest.take 8) =
      bigEndian (cursor.rest.take 4) * 0x100000000 + bigEndian ((cursor.rest.drop 4).take 4) := by
    rw [halves, bigEndian_append, low]
    rfl
  rw [toNat_word32 high, toNat_word32 low, ← whole]
  apply UInt64.toNat_ofNat_of_lt'
  have bound := bigEndian_lt (cursor.rest.take 8)
  rwa [halves, List.length_append, high, low, ← halves] at bound

/-- Words are read as long as two bytes are ahead. -/
private theorem timesOnto_u16_cases (n : Nat) (read : List UInt16) (cursor : Cursor) :
    (2 * n ≤ cursor.remaining ∧ ∃ words, words.length = n ∧ Field.AreWords cursor.rest words ∧
        timesOnto u16 read n cursor = .ok (read.reverse ++ words) (cursor.advance (2 * n))) ∨
      (cursor.remaining < 2 * n ∧ timesOnto u16 read n cursor =
        .error (.endOfData 2 (cursor.advance (cursor.remaining / 2 * 2)).offset
          (cursor.advance (cursor.remaining / 2 * 2)).remaining) (cursor.advance (cursor.remaining / 2 * 2))) := by
  induction n generalizing read cursor with
  | zero =>
    left
    exact ⟨Nat.zero_le _, [], rfl, nofun, by rw [List.append_nil]; rfl⟩
  | succ n ih =>
    by_cases h : cursor.remaining < 2
    · right
      have none : cursor.remaining / 2 * 2 = 0 := by omega
      rw [none, Cursor.advance_zero]
      exact ⟨by omega, bind_of_error (u16_of_lt h)⟩
    · let w := UInt16.ofNat (bigEndian (cursor.rest.take 2))
      have first : u16 cursor = .ok w (cursor.advance 2) := u16_of_le (Nat.le_of_not_lt h)
      have step : timesOnto u16 read (n + 1) cursor = timesOnto u16 (w :: read) n (cursor.advance 2) :=
        bind_of_ok first
      rw [step]
      rcases ih (w :: read) (cursor.advance 2) with ⟨enough, words, length, numbers, run⟩ | ⟨few, run⟩
      · left
        rw [Cursor.remaining_advance] at enough
        refine ⟨by omega, w :: words, by rw [List.length_cons, length], ?_, ?_⟩
        · intro i v found
          cases i with
          | zero =>
            obtain rfl := Option.some.inj found
            exact toNat_word16 (List.length_take_of_le (Nat.le_of_not_lt h))
          | succ i =>
            have later := numbers i v found
            rwa [Cursor.rest_advance, List.drop_drop, Nat.add_comm, ← Nat.mul_succ] at later
        · rw [run, Cursor.advance_advance, Nat.add_comm, ← Nat.mul_succ, List.reverse_cons, List.append_assoc]
          rfl
      · right
        rw [Cursor.remaining_advance] at few run
        have pairs : 2 + (cursor.remaining - 2) / 2 * 2 = cursor.remaining / 2 * 2 := by omega
        rw [run, Cursor.advance_advance, pairs]
        exact ⟨by omega, rfl⟩

end Decoder

namespace Field

/-- A field is read, and its bytes are taken, if that many bytes are ahead; otherwise the fault says of which part there
was too little, and the parts in front of it are taken. -/
theorem decoder_cases (f : Field) (cursor : Cursor) :
    (f.size cursor.rest ≤ cursor.remaining ∧ ∃ v, f.Holds (cursor.rest.take (f.size cursor.rest)) v ∧
        f.decoder cursor = .ok v (cursor.advance (f.size cursor.rest))) ∨
      (cursor.remaining < f.size cursor.rest ∧ f.decoder cursor =
        .error (.endOfData f.part (cursor.advance (f.kept cursor.remaining)).offset
          (cursor.advance (f.kept cursor.remaining)).remaining) (cursor.advance (f.kept cursor.remaining))) := by
  -- all bytes at once
  have taken {n : Nat} (h : n ≤ cursor.remaining) : (cursor.rest.take n).length = n := List.length_take_of_le h
  cases f with
  | bytes n =>
    by_cases h : n ≤ cursor.remaining
    · exact .inl ⟨h, _, ⟨taken h, rfl⟩, Decoder.bytes_of_le h⟩
    · exact .inr ⟨Nat.lt_of_not_le h, Decoder.bytes_of_lt (Nat.lt_of_not_le h)⟩
  | skip n =>
    by_cases h : n ≤ cursor.remaining
    · exact .inl ⟨h, (), taken h, Decoder.bind_of_ok (Decoder.bytes_of_le h)⟩
    · exact .inr ⟨Nat.lt_of_not_le h, Decoder.bind_of_error (Decoder.bytes_of_lt (Nat.lt_of_not_le h))⟩
  | u8 =>
    by_cases h : 1 ≤ cursor.remaining
    · refine .inl ⟨h, _, ⟨taken h, ?_⟩, Decoder.bind_of_ok (Decoder.bytes_of_le h)⟩
      apply UInt8.toNat_ofNat_of_lt'
      have bound := bigEndian_lt (cursor.rest.take 1)
      rwa [taken h] at bound
    · exact .inr ⟨Nat.lt_of_not_le h, Decoder.bind_of_error (Decoder.bytes_of_lt (Nat.lt_of_not_le h))⟩
  | u16 =>
    by_cases h : 2 ≤ cursor.remaining
    · exact .inl ⟨h, _, ⟨taken h, Decoder.toNat_word16 (taken h)⟩, Decoder.u16_of_le h⟩
    · exact .inr ⟨Nat.lt_of_not_le h, Decoder.u16_of_lt (Nat.lt_of_not_le h)⟩
  | u32 =>
    by_cases h : 4 ≤ cursor.remaining
    · exact .inl ⟨h, _, ⟨taken h, Decoder.toNat_word32 (taken h)⟩, Decoder.u32_of_le h⟩
    · exact .inr ⟨Nat.lt_of_not_le h, Decoder.u32_of_lt (Nat.lt_of_not_le h)⟩
  | i32 =>
    by_cases h : 4 ≤ cursor.remaining
    · refine .inl ⟨h, _, ⟨taken h, ?_⟩, Decoder.bind_of_ok (Decoder.u32_of_le h)⟩
      exact BitVec.toInt_ofNat _
    · exact .inr ⟨Nat.lt_of_not_le h, Decoder.bind_of_error (Decoder.u32_of_lt (Nat.lt_of_not_le h))⟩
  | u64 =>
    by_cases h : 4 ≤ cursor.remaining
    · have high := Decoder.u32_of_le h
      by_cases h' : 8 ≤ cursor.remaining
      · have more : 4 ≤ (cursor.advance 4).remaining := by rw [Cursor.remaining_advance]; omega
        have low := Decoder.u32_of_le more
        rw [Cursor.advance_advance] at low
        refine .inl ⟨h', _, ⟨taken h', ?_⟩, (Decoder.bind_of_ok high).trans (Decoder.bind_of_ok low)⟩
        exact Decoder.toNat_word64 h'
      · have fewer : (cursor.advance 4).remaining < 4 := by rw [Cursor.remaining_advance]; omega
        have low := Decoder.u32_of_lt fewer
        have whole : kept cursor.remaining .u64 = 4 := if_pos h
        rw [whole]
        exact .inr ⟨Nat.lt_of_not_le h', (Decoder.bind_of_ok high).trans (Decoder.bind_of_error low)⟩
    · have none : kept cursor.remaining .u64 = 0 := if_neg h
      rw [none]
      refine .inr ⟨?_, Decoder.bind_of_error (Decoder.u32_of_lt (Nat.lt_of_not_le h))⟩
      show cursor.remaining < 8
      omega
  | u16List =>
    by_cases h : 2 ≤ cursor.remaining
    · have count := Decoder.u16_of_le h
      have counted := Decoder.toNat_word16 (taken h)
      rcases Decoder.timesOnto_u16_cases (bigEndian (cursor.rest.take 2)) [] (cursor.advance 2) with
        ⟨enough, words, length, numbers, run⟩ | ⟨few, run⟩
      · rw [Cursor.remaining_advance] at enough
        rw [Cursor.advance_advance] at run
        have all : 2 + 2 * bigEndian (cursor.rest.take 2) ≤ cursor.remaining := by omega
        refine .inl ⟨all, words, ⟨?_, ?_, ?_⟩, (Decoder.bind_of_ok count).trans ?_⟩
        · rw [length]
          exact taken all
        · rw [length, size, List.take_take, Nat.min_eq_left (Nat.le_add_right _ _)]
        · have behind : (cursor.rest.take (2 + 2 * words.length)).drop 2 =
              (cursor.advance 2).rest.take (2 * words.length) := by
            rw [List.drop_take, Nat.add_sub_cancel_left, Cursor.rest_advance]
          rw [size, ← length, behind]
          exact numbers.take
        · show Decoder.timesOnto _ _ _ _ = _
          rw [counted, run]
          rfl
      · rw [Cursor.remaining_advance] at few run
        rw [Cursor.advance_advance] at run
        have pairs : 2 + (cursor.remaining - 2) / 2 * 2 = cursor.remaining / 2 * 2 := by omega
        rw [pairs] at run
        refine .inr ⟨?_, (Decoder.bind_of_ok count).trans ?_⟩
        · show cursor.remaining < 2 + 2 * _
          omega
        · show Decoder.timesOnto _ _ _ _ = _
          rw [counted]
          exact run
    · right
      have none : kept cursor.remaining .u16List = 0 := by
        show cursor.remaining / 2 * 2 = 0
        omega
      rw [none]
      refine ⟨?_, Decoder.bind_of_error (Decoder.u16_of_lt (Nat.lt_of_not_le h))⟩
      show cursor.remaining < 2 + _
      omega

theorem past_of_ok {f : Field} {cursor after : Cursor} {v : f.Value} (h : f.decoder cursor = .ok v after) :
    f.past cursor = after := by
  rw [past, h]

theorem past_of_error {f : Field} {cursor after : Cursor} {e : FormatError} (h : f.decoder cursor = .error e after) :
    f.past cursor = after := by
  rw [past, h]

/-- What a success says of the bytes ahead. -/
theorem of_decoder_ok {f : Field} {cursor after : Cursor} {v : f.Value} (h : f.decoder cursor = .ok v after) :
    f.size cursor.rest ≤ cursor.remaining ∧ after = cursor.advance (f.size cursor.rest) ∧
      f.Holds (cursor.rest.take (f.size cursor.rest)) v := by
  rcases f.decoder_cases cursor with ⟨enough, w, holds, run⟩ | ⟨-, run⟩
  · obtain ⟨rfl, rfl⟩ := EStateM.Result.ok.inj (h.symm.trans run)
    exact ⟨enough, rfl, holds⟩
  · cases h.symm.trans run

/-- What a failure says of the bytes ahead. -/
theorem of_decoder_error {f : Field} {cursor after : Cursor} {e : FormatError} (h : f.decoder cursor = .error e after) :
    cursor.remaining < f.size cursor.rest ∧ after = cursor.advance (f.kept cursor.remaining) ∧
      e = .endOfData f.part after.offset after.remaining := by
  rcases f.decoder_cases cursor with ⟨-, v, -, run⟩ | ⟨few, run⟩
  · cases h.symm.trans run
  · obtain ⟨rfl, rfl⟩ := EStateM.Result.error.inj (h.symm.trans run)
    exact ⟨few, rfl, rfl⟩

/-! ### Failures -/

/-- A field of one part that fails leaves the cursor where it was. -/
private theorem eq_of_error {f : Field} (single : f ≠ .u64) (single' : f ≠ .u16List) {cursor after : Cursor}
    {e : FormatError} (h : f.decoder cursor = .error e after) : after = cursor := by
  obtain ⟨-, rfl, -⟩ := of_decoder_error h
  have none : f.kept cursor.remaining = 0 := by
    cases f with
    | u64 => exact absurd rfl single
    | u16List => exact absurd rfl single'
    | _ => rfl
  rw [none, Cursor.advance_zero]

private theorem halved_of_error {cursor after : Cursor} {e : FormatError}
    (h : Field.u64.decoder cursor = .error e after) : (after = cursor ∨ after = cursor.advance 4) ∧
      (after.offset = cursor.offset + 4 ↔ 4 ≤ cursor.remaining ∧ cursor.remaining ≤ 7) := by
  obtain ⟨few, rfl, -⟩ := of_decoder_error h
  have few : cursor.remaining < 8 := few
  by_cases enough : 4 ≤ cursor.remaining
  · have kept : kept cursor.remaining .u64 = 4 := if_pos enough
    rw [kept]
    exact ⟨.inr rfl, fun _ => ⟨enough, by omega⟩, fun _ => rfl⟩
  · have kept : kept cursor.remaining .u64 = 0 := if_neg enough
    rw [kept, Cursor.advance_zero]
    exact ⟨.inl rfl, fun h => by omega, fun h => absurd h.1 enough⟩

/-- A list stops behind the last number that is there as a whole, if its count is. -/
private theorem stopped_of_error {cursor after : Cursor} {e : FormatError}
    (h : Field.u16List.decoder cursor = .error e after) : cursor.remaining < 2 ∧ after = cursor ∨
      ∃ n < bigEndian (cursor.rest.take 2), after = cursor.advance (2 + 2 * n) ∧
        cursor.remaining = 2 + 2 * n + after.remaining ∧ after.remaining < 2 := by
  obtain ⟨few, rfl, -⟩ := of_decoder_error h
  have few : cursor.remaining < 2 + 2 * bigEndian (cursor.rest.take 2) := few
  have kept : kept cursor.remaining .u16List = cursor.remaining / 2 * 2 := rfl
  rw [kept]
  by_cases enough : 2 ≤ cursor.remaining
  · right
    have pairs : cursor.remaining / 2 * 2 = 2 + 2 * (cursor.remaining / 2 - 1) := by omega
    rw [pairs, Cursor.remaining_advance]
    exact ⟨cursor.remaining / 2 - 1, by omega, rfl, by omega, by omega⟩
  · left
    have none : cursor.remaining / 2 * 2 = 0 := by omega
    rw [none, Cursor.advance_zero]
    exact ⟨by omega, rfl⟩

/-! ### Places -/

theorem kept_le (f : Field) (available : Nat) : f.kept available ≤ available := by
  cases f with
  | u64 =>
    rw [kept]
    split <;> omega
  | u16List =>
    rw [kept]
    omega
  | _ => exact Nat.zero_le _

/-- A reading moves a cursor by no more bytes than are ahead. -/
theorem exists_past_eq (f : Field) (cursor : Cursor) :
    ∃ n, n ≤ cursor.remaining ∧ f.past cursor = cursor.advance n := by
  rcases f.decoder_cases cursor with ⟨enough, v, -, run⟩ | ⟨-, run⟩
  · exact ⟨_, enough, past_of_ok run⟩
  · exact ⟨_, f.kept_le _, past_of_error run⟩

/-! ### Many fields -/

variable {image : List UInt8}

open Machine

/-- A cursor that moves by no more bytes than are ahead stays in its image. -/
theorem valid_advance {cursor : Cursor} {n : Nat} (h : (onImage image).Valid cursor) (inside : n ≤ cursor.remaining) :
    (onImage image).Valid (cursor.advance n) := by
  have length : cursor.remaining = image.length - cursor.offset := ImageReader.length_rest h
  obtain ⟨before, rest⟩ := h
  constructor
  · rw [Cursor.offset_advance]
    omega
  · rw [Cursor.rest_advance, rest, List.drop_drop, Cursor.offset_advance]

theorem valid_past (f : Field) {cursor : Cursor} (h : (onImage image).Valid cursor) :
    (onImage image).Valid (f.past cursor) := by
  obtain ⟨n, inside, e⟩ := f.exists_past_eq cursor
  rw [e]
  exact valid_advance h inside

theorem valid_pastAll (fields : List Field) {cursor : Cursor} (h : (onImage image).Valid cursor) :
    (onImage image).Valid (cursor.pastAll fields) := by
  induction fields generalizing cursor with
  | nil => exact h
  | cons f fields ih => exact ih (f.valid_past h)

theorem follows_reading (f : Field) : (onImage image).Follows f.reading f.decoder := by
  cases f with
  | u8 => exact ImageReader.follows_u8
  | u16 => exact ImageReader.follows_u16
  | u32 => exact ImageReader.follows_u32
  | i32 => exact ImageReader.follows_i32
  | u64 => exact ImageReader.follows_u64
  | bytes n => exact ImageReader.follows_bytes n
  | skip n => exact ImageReader.follows_skip n
  | u16List => exact ImageReader.follows_u16List

/-- What holds of a cursor in an image and of the reading of a field from there. -/
structure ReadSoundly (f : Field) (image : List UInt8) (cursor : Cursor) : Prop where
  /-- The cursor is in the image, so that the difference of their ends is not below zero. -/
  offset_le : cursor.offset ≤ image.length
  remaining_eq : ((onImage image).state cursor).remaining = pure cursor.remaining ∧
    cursor.remaining = image.length - cursor.offset
  rest_eq : cursor.rest = image.drop cursor.offset
  /-- The reading does not move the cursor back or out of the image. -/
  offset_le_past : cursor.offset ≤ (f.past cursor).offset
  past_le : (f.past cursor).offset ≤ image.length
  /-- What is read is what the bytes between the two places hold. -/
  holds : ∀ v after, f.decoder cursor = .ok v after →
    f.Holds ((image.drop cursor.offset).take (after.offset - cursor.offset)) v
  /-- The end of the bytes that are taken is a sum of words, and it does not overflow. -/
  sum_eq : image.length < wordSize → ∀ v after, f.decoder cursor = .ok v after →
    plus cursor.offset (f.size cursor.rest) = pure after.offset
  /-- The reading fails for want of bytes only. -/
  fails_iff : (∃ e after, f.decoder cursor = .error e after) ↔ cursor.remaining < f.size cursor.rest
  /-- The fault names the place where the cursor is left, and how many bytes were asked for and are there. -/
  fault_eq : ∀ e after, f.decoder cursor = .error e after → e = .endOfData f.part after.offset after.remaining
  /-- A failure leaves the cursor where it was, but for the fields of several parts. -/
  unmoved : f ≠ .u64 → f ≠ .u16List → ∀ e after, f.decoder cursor = .error e after → after = cursor
  /-- A number of eight bytes that fails has moved the cursor by four bytes if they were there. -/
  halved : f = .u64 → ∀ e after, f.decoder cursor = .error e after →
    (after = cursor ∨ after = cursor.advance 4) ∧
      (after.offset = cursor.offset + 4 ↔ 4 ≤ cursor.remaining ∧ cursor.remaining ≤ 7)
  /-- A list that fails has moved the cursor by its count and as many numbers as were there. -/
  stopped : f = .u16List → ∀ e after, f.decoder cursor = .error e after →
    cursor.remaining < 2 ∧ after = cursor ∨
      ∃ n < bigEndian (cursor.rest.take 2), after = cursor.advance (2 + 2 * n) ∧
        cursor.remaining = 2 + 2 * n + after.remaining ∧ after.remaining < 2
  /-- With the operations of a machine the reading is the same, and none of them leaves its domain. -/
  faultless : (onImage image).FollowsAt f.reading f.decoder cursor

/-- From a cursor in the image every reading is sound. -/
theorem readSoundly_of_valid (f : Field) {cursor : Cursor} (h : (onImage image).Valid cursor) :
    f.ReadSoundly image cursor where
  offset_le := h.1
  remaining_eq := ⟨ImageReader.remaining_eq h, ImageReader.length_rest h⟩
  rest_eq := h.2
  offset_le_past := by
    obtain ⟨n, -, e⟩ := f.exists_past_eq cursor
    rw [e]
    exact Nat.le_add_right _ _
  past_le := (f.valid_past h).1
  holds := by
    intro v after run
    obtain ⟨-, rfl, holds⟩ := of_decoder_ok run
    rwa [Cursor.offset_advance, Nat.add_sub_cancel_left, ← h.2]
  sum_eq := by
    intro short v after run
    have inside := (f.valid_past h).1
    rw [past_of_ok run] at inside
    obtain ⟨-, rfl, -⟩ := of_decoder_ok run
    exact guarded_eq (lt_of_le_of_lt inside short)
  fails_iff := by
    constructor
    · intro hx
      obtain ⟨e, after, run⟩ := hx
      exact (of_decoder_error run).1
    · intro few
      rcases f.decoder_cases cursor with ⟨enough, -⟩ | ⟨-, run⟩
      · omega
      · exact ⟨_, _, run⟩
  fault_eq e after run := (of_decoder_error run).2.2
  unmoved single single' e after run := eq_of_error single single' run
  halved := by
    rintro rfl e after run
    exact halved_of_error run
  stopped := by
    rintro rfl e after run
    exact stopped_of_error run
  faultless := f.follows_reading cursor h

/-- Wherever readings have left a cursor that started in front of an image, and whether they failed or not, the next one
is sound. -/
theorem readSoundly_pastAll (image : List UInt8) (before : List Field) (f : Field) :
    f.ReadSoundly image ((Cursor.ofBytes image).pastAll before) :=
  f.readSoundly_of_valid (valid_pastAll before ImageReader.valid_start)

end Field

end ClassCensus
