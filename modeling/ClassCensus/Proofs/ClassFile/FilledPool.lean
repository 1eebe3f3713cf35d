import ClassCensus.Proofs.ClassFile.Lookup
import ClassCensus.Proofs.ClassFile.WrittenPool
import Mathlib.Data.List.Chain

/-!
# Constant pools fill their slots

A pool takes exactly the slots that it declares.  `FilledSlots` says what the slots have in common: which of them hold
no constant, and that no constant reaches behind the last one.

* (reading) the pools that are read are the sequences of slots of this form, and reading a pool takes what writes down
  its slots, nothing for a slot without a constant;
* (look-ups) `ConstantPool.get` and `ConstantPool.toList` know the slots that hold a constant, and no others.
-/

namespace ClassCensus

/-- The slots of a pool: two bytes count them, the first one holds nothing, and so does each slot behind a constant of
eight bytes, for which there is room. -/
structure FilledSlots (slots : List Constant) : Prop where
  length_lt : slots.length < 65536
  first : slots.head? = some .unusable
  unusable_iff : ∀ k (h : k + 1 < slots.length), slots[k + 1] = .unusable ↔ slots[k].isWide = true
  last : ∀ entry, slots.getLast? = some entry → entry.isWide = false

/-- A slot as it is written, with the constant in it, if it holds one. -/
inductive WrittenSlot where
  | unusable
  | entry (constant : WrittenConstant)

namespace WrittenSlot

/-- What the slot holds. -/
def view : WrittenSlot → Constant
  | .unusable => .unusable
  | .entry constant => constant.view

/-- The bytes of a slot; nothing is written for a slot that holds no constant. -/
def encode : WrittenSlot → List UInt8
  | .unusable => []
  | .entry constant => constant.tag :: constant.fields

/-- The number of slots, and what is written for each. -/
def encodePool (slots : List WrittenSlot) : List UInt8 :=
  word16 (UInt16.ofNat slots.length) ++ slots.flatMap encode

/-- The slots that a constant takes. -/
def ofConstant (c : WrittenConstant) : List WrittenSlot :=
  if c.view.isWide then [.entry c, .unusable] else [.entry c]

/-- The slots of a pool, the first one included. -/
def ofConstants (cs : List WrittenConstant) : List WrittenSlot :=
  .unusable :: cs.flatMap ofConstant

end WrittenSlot

theorem WrittenConstant.view_ne_unusable (c : WrittenConstant) : c.view ≠ .unusable := by
  cases c <;> exact nofun

theorem WrittenSlot.eq_unusable_of_view {slot : WrittenSlot} (h : slot.view = .unusable) : slot = .unusable := by
  cases slot with
  | unusable => rfl
  | entry c => exact absurd h c.view_ne_unusable

/-! ### Constants and their slots -/

/-- A slot holds nothing exactly if the slot before it holds a constant of eight bytes. -/
private def Follows (before entry : Constant) : Prop :=
  entry = .unusable ↔ before.isWide = true

/-- The slots behind `before` are filled: one follows from the other, and the last constant does not need one more. -/
private def FilledBehind (before : Constant) (slots : List Constant) : Prop :=
  (before :: slots).IsChain Follows ∧ ∀ entry, (before :: slots).getLast? = some entry → entry.isWide = false

private theorem filledBehind_cons {before entry : Constant} {slots : List Constant} :
    FilledBehind before (entry :: slots) ↔ Follows before entry ∧ FilledBehind entry slots := by
  simp only [FilledBehind, List.isChain_cons_cons, List.getLast?_cons_cons, and_assoc]

private theorem filledBehind_slots {before : Constant} (narrow : before.isWide = false) (cs : List WrittenConstant) :
    FilledBehind before ((cs.flatMap WrittenSlot.ofConstant).map WrittenSlot.view) := by
  induction cs generalizing before with
  | nil =>
    refine ⟨List.isChain_singleton _, fun entry e => ?_⟩
    cases e
    exact narrow
  | cons c cs ih =>
    have start : Follows before c.view := by simp [Follows, c.view_ne_unusable, narrow]
    rw [List.flatMap_cons, List.map_append, WrittenSlot.ofConstant]
    cases wide : c.view.isWide with
    | true =>
      have next : Follows c.view .unusable := by simp [Follows, wide]
      exact filledBehind_cons.2 ⟨start, filledBehind_cons.2 ⟨next, ih rfl⟩⟩
    | false => exact filledBehind_cons.2 ⟨start, ih wide⟩

private theorem exists_constants {before : Constant} {slots : List WrittenSlot} (narrow : before.isWide = false)
    (filled : FilledBehind before (slots.map WrittenSlot.view)) :
    ∃ cs : List WrittenConstant, slots = cs.flatMap WrittenSlot.ofConstant := by
  -- a constant takes one slot or two
  induction h : slots.length using Nat.strong_induction_on generalizing before slots with
  | _ n ih =>
    obtain _ | ⟨slot, slots⟩ := slots
    · exact ⟨[], rfl⟩
    · obtain ⟨start, filled⟩ := filledBehind_cons.1 filled
      cases slot with
      | unusable => simp [Follows, WrittenSlot.view, narrow] at start
      | entry c =>
        cases wide : c.view.isWide with
        | false =>
          obtain ⟨cs, rfl⟩ := ih _ (by rw [← h]; exact Nat.lt_succ_self _) wide filled rfl
          exact ⟨c :: cs, by rw [List.flatMap_cons, WrittenSlot.ofConstant, if_neg (by simp [wide])]; rfl⟩
        | true =>
          obtain _ | ⟨slot, slots⟩ := slots
          · exact absurd (filled.2 c.view rfl) (by simp [wide])
          · obtain ⟨next, filled⟩ := filledBehind_cons.1 filled
            obtain rfl := WrittenSlot.eq_unusable_of_view (next.2 wide)
            obtain ⟨cs, rfl⟩ := ih _ (by rw [← h]; simp only [List.length_cons]; omega) rfl filled rfl
            exact ⟨c :: cs, by rw [List.flatMap_cons, WrittenSlot.ofConstant, if_pos wide]; rfl⟩

private theorem filledSlots_iff {slots : List Constant} : FilledSlots slots ↔
    slots.length < 65536 ∧ ∃ rest, slots = .unusable :: rest ∧ FilledBehind .unusable rest := by
  constructor
  · intro h
    obtain ⟨length, first, unusable, last⟩ := h
    obtain ⟨rest, rfl⟩ : ∃ rest, slots = .unusable :: rest := by
      cases slots with
      | nil => cases first
      | cons entry rest => exact ⟨rest, by rw [Option.some.inj first]⟩
    exact ⟨length, rest, rfl, List.isChain_iff_getElem.2 unusable, last⟩
  · intro hx
    obtain ⟨length, rest, rfl, chain, last⟩ := hx
    exact ⟨length, rfl, List.isChain_iff_getElem.1 chain, last⟩

/-- The sequences of slots of the form of a pool are those of constants one after the other. -/
theorem filledSlots_view_iff {slots : List WrittenSlot} : FilledSlots (slots.map WrittenSlot.view) ↔
    slots.length < 65536 ∧ ∃ cs, slots = WrittenSlot.ofConstants cs := by
  rw [filledSlots_iff, List.length_map]
  refine and_congr_right fun _ => ?_
  constructor
  · intro hx
    obtain ⟨rest, e, filled⟩ := hx
    obtain ⟨slot, slots, rfl, first, rfl⟩ := List.map_eq_cons_iff.1 e
    obtain rfl := WrittenSlot.eq_unusable_of_view first
    obtain ⟨cs, rfl⟩ := exists_constants rfl filled
    exact ⟨cs, rfl⟩
  · intro hx
    obtain ⟨cs, rfl⟩ := hx
    exact ⟨_, rfl, filledBehind_slots rfl cs⟩

namespace ConstantPool

open Decoder

/-! ### Reading -/

private theorem map_view_ofConstants (cs : List WrittenConstant) :
    (WrittenSlot.ofConstants cs).map WrittenSlot.view = .unusable :: cs.flatMap fun c => c.view.slots := by
  have each (c : WrittenConstant) : (WrittenSlot.ofConstant c).map WrittenSlot.view = c.view.slots := by
    unfold WrittenSlot.ofConstant Constant.slots
    split <;> rfl
  rw [WrittenSlot.ofConstants, List.map_cons, List.map_flatMap, funext each]
  rfl

private theorem flatMap_encode_ofConstants (cs : List WrittenConstant) :
    (WrittenSlot.ofConstants cs).flatMap WrittenSlot.encode = cs.flatMap WrittenConstant.format.encode := by
  have each (c : WrittenConstant) :
      (WrittenSlot.ofConstant c).flatMap WrittenSlot.encode = WrittenConstant.format.encode c := by
    unfold WrittenSlot.ofConstant
    split <;> exact List.append_nil _
  rw [WrittenSlot.ofConstants, List.flatMap_cons, List.flatMap_assoc, funext each]
  rfl

/-- Pools as sequences of slots are pools as sequences of constants. -/
private theorem spells_iff {bytes : List UInt8} {pool : ConstantPool} : WrittenPool.format.Spells bytes pool ↔
    ∃ slots : List WrittenSlot, FilledSlots (slots.map WrittenSlot.view) ∧ bytes = WrittenSlot.encodePool slots ∧
      pool = ⟨(slots.map WrittenSlot.view).toArray⟩ := by
  have length (cs : List WrittenConstant) :
      (WrittenSlot.ofConstants cs).length = (cs.flatMap fun c => c.view.slots).length + 1 := by
    rw [← List.length_map (f := WrittenSlot.view), map_view_ofConstants, List.length_cons]
  constructor
  · intro hx
    obtain ⟨⟨cs, fits⟩, -, rfl, rfl⟩ := hx
    refine ⟨WrittenSlot.ofConstants cs, filledSlots_view_iff.2 ⟨?_, cs, rfl⟩, ?_, ?_⟩
    · rw [length]
      exact Nat.succ_lt_succ fits
    · rw [WrittenSlot.encodePool, length, flatMap_encode_ofConstants]
      rfl
    · rw [map_view_ofConstants]
      rfl
  · intro hx
    obtain ⟨slots, filled, rfl, rfl⟩ := hx
    obtain ⟨few, cs, rfl⟩ := filledSlots_view_iff.1 filled
    rw [length] at few
    refine ⟨⟨cs, Nat.lt_of_succ_lt_succ few⟩, trivial, ?_, ?_⟩
    · rw [WrittenSlot.encodePool, length, flatMap_encode_ofConstants]
      rfl
    · rw [map_view_ofConstants]
      rfl

/-! ### Look-ups -/

theorem get_eq_ok_iff_getElem {pool : ConstantPool} {index : UInt16} {entry : Constant} :
    pool.get index = .ok entry ↔
      ∃ h : index.toNat < pool.size, pool.entries[index.toNat] = entry ∧ entry ≠ .unusable := by
  rw [get_eq_ok_iff, Holds, Array.getElem?_eq_some_iff]
  constructor
  · intro hx
    obtain ⟨⟨h, e⟩, used⟩ := hx
    exact ⟨h, e, used⟩
  · intro hx
    obtain ⟨h, e, used⟩ := hx
    exact ⟨⟨h, e⟩, used⟩

theorem mem_toList_iff {pool : ConstantPool} {i : Nat} {entry : Constant} :
    (i, entry) ∈ pool.toList ↔ pool.entries[i]? = some entry ∧ entry ≠ .unusable := by
  simp [toList, List.mem_zipIdx_iff_getElem?]

theorem pairwise_toList (pool : ConstantPool) : pool.toList.Pairwise fun a b => a.1 < b.1 := by
  have numbered : pool.entries.toList.zipIdx.Pairwise fun a b => a.2 < b.2 := by
    rw [← List.pairwise_map (R := (· < ·)), List.zipIdx_map_snd]
    exact List.pairwise_lt_range'
  exact List.Pairwise.filter _ (List.pairwise_map.2 numbered)

/-- What look-ups find in a pool for which `count` slots are declared. -/
structure Answers (pool : ConstantPool) (count : UInt16) : Prop where
  count_pos : 0 < count.toNat
  size_eq : pool.size = count.toNat
  filled : FilledSlots pool.entries.toList
  get_iff : ∀ index entry, pool.get index = .ok entry ↔
    ∃ h : index.toNat < pool.size, pool.entries[index.toNat] = entry ∧ entry ≠ .unusable
  sorted : pool.toList.Pairwise fun a b => a.1 < b.1
  mem_iff : ∀ i entry, (i, entry) ∈ pool.toList ↔ ∃ index : UInt16, index.toNat = i ∧ pool.get index = .ok entry

/-- The pairs of an index and a constant are those that look-ups by a two-byte index find. -/
theorem mem_toList_iff_get {pool : ConstantPool} (few : pool.size < 65536) {i : Nat} {entry : Constant} :
    (i, entry) ∈ pool.toList ↔ ∃ index : UInt16, index.toNat = i ∧ pool.get index = .ok entry := by
  rw [mem_toList_iff]
  constructor
  · intro holds
    have h : i < 65536 := (Array.getElem?_eq_some_iff.1 holds.1).1.trans few
    refine ⟨UInt16.ofNat i, UInt16.toNat_ofNat_of_lt' h, get_eq_ok_iff.2 ?_⟩
    rwa [Holds, UInt16.toNat_ofNat_of_lt' h]
  · intro hx
    obtain ⟨index, rfl, holds⟩ := hx
    exact get_eq_ok_iff.1 holds

theorem Answers.of_filled {pool : ConstantPool} {count : UInt16} (size : pool.size = count.toNat)
    (filled : FilledSlots pool.entries.toList) : pool.Answers count where
  count_pos := by
    rw [← size]
    exact List.length_pos_iff.2 fun none => by simpa [none] using filled.first
  size_eq := size
  filled := filled
  get_iff _ _ := get_eq_ok_iff_getElem
  sorted := pool.pairwise_toList
  mem_iff _ _ := mem_toList_iff_get filled.length_lt

/-- Reading a pool succeeds exactly on what writes down the slots of a pool, whatever is behind it, and gives these
slots; they are as many as the first two bytes say. -/
theorem decoder_eq_ok_iff_filled (cursor : Cursor) (pool : ConstantPool) (after : Cursor) :
    (decoder cursor = .ok pool after ↔
      ∃ slots : List WrittenSlot, FilledSlots (slots.map WrittenSlot.view) ∧
        cursor.rest = WrittenSlot.encodePool slots ++ after.rest ∧
        after.offset = cursor.offset + (WrittenSlot.encodePool slots).length ∧
        pool = ⟨(slots.map WrittenSlot.view).toArray⟩) ∧
    (decoder cursor = .ok pool after →
      ∃ count bytes, cursor.rest = word16 count ++ bytes ∧ pool.Answers count) := by
  have read : decoder cursor = .ok pool after ↔
      ∃ slots : List WrittenSlot, FilledSlots (slots.map WrittenSlot.view) ∧
        cursor.rest = WrittenSlot.encodePool slots ++ after.rest ∧
        after.offset = cursor.offset + (WrittenSlot.encodePool slots).length ∧
        pool = ⟨(slots.map WrittenSlot.view).toArray⟩ := by
    rw [reads_pool cursor pool after]
    constructor
    · intro hx
      obtain ⟨taken, spelt, rest, offset⟩ := hx
      obtain ⟨slots, filled, rfl, rfl⟩ := spells_iff.1 spelt
      exact ⟨slots, filled, rest, offset, rfl⟩
    · intro hx
      obtain ⟨slots, filled, rest, offset, rfl⟩ := hx
      exact ⟨_, spells_iff.2 ⟨slots, filled, rfl, rfl⟩, rest, offset⟩
  refine ⟨read, fun ok => ?_⟩
  obtain ⟨slots, filled, rest, -, rfl⟩ := read.1 ok
  refine ⟨UInt16.ofNat slots.length, slots.flatMap WrittenSlot.encode ++ after.rest, ?_, .of_filled ?_ filled⟩
  · rw [rest, WrittenSlot.encodePool, List.append_assoc]
  · have few := filled.length_lt
    rw [List.length_map] at few
    rw [UInt16.toNat_ofNat_of_lt' few]
    simp [size]

/-- An eight-byte constant in front of another one, and a byte behind the pool. -/
example : decoder (Cursor.ofBytes [0, 4, 5, 0, 0, 0, 0, 0, 0, 0, 1, 19, 0, 9, 77]) =
    .ok ⟨#[.unusable, .long 1, .unusable, .undecoded 19]⟩ ⟨14, [77]⟩ := by
  rfl

end ConstantPool

end ClassCensus
