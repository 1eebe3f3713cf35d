import ClassCensus.ClassFile.Cursor
import Mathlib.Data.List.Induction
import Mathlib.Tactic.Ring

/-!
# Numbers as bytes

Every number of a class file takes a fixed number of bytes, the most significant first.  `bigEndianBytes` writes a
number that way; `bigEndian` reads it back (`bigEndian_bigEndianBytes`), and a byte string is the writing of the number
that it spells (`bigEndianBytes_bigEndian`), so bytes of a given number and numbers below a power of 256 correspond
(`eq_bigEndianBytes_iff`).
-/

namespace ClassCensus

/-- The last `n` bytes of a number, the most significant first. -/
def bigEndianBytes : (n : Nat) → (value : Nat) → List UInt8
  | 0, _ => []
  | n + 1, value => bigEndianBytes n (value / 256) ++ [UInt8.ofNat value]

@[simp] theorem length_bigEndianBytes (n value : Nat) : (bigEndianBytes n value).length = n := by
  induction n generalizing value with
  | zero => rfl
  | succ n ih => simp [bigEndianBytes, ih]

private theorem bigEndian_append_singleton (bytes : List UInt8) (b : UInt8) :
    bigEndian (bytes ++ [b]) = 256 * bigEndian bytes + b.toNat := by
  simp [bigEndian]

theorem bigEndian_append (left right : List UInt8) :
    bigEndian (left ++ right) = bigEndian left * 256 ^ right.length + bigEndian right := by
  induction right using List.reverseRecOn with
  | nil => simp [bigEndian]
  | append_singleton right b ih =>
    rw [← List.append_assoc, bigEndian_append_singleton, bigEndian_append_singleton, ih, List.length_append,
      List.length_singleton, Nat.pow_succ]
    ring

theorem bigEndian_bigEndianBytes (n value : Nat) : bigEndian (bigEndianBytes n value) = value % 256 ^ n := by
  induction n generalizing value with
  | zero => simp [bigEndianBytes, bigEndian, Nat.mod_one]
  | succ n ih =>
    have e : 256 ^ (n + 1) = 256 * 256 ^ n := by rw [Nat.pow_succ, Nat.mul_comm]
    rw [bigEndianBytes, bigEndian_append_singleton, ih, UInt8.toNat_ofNat', e, Nat.mod_mul, Nat.add_comm]

theorem bigEndianBytes_bigEndian (bytes : List UInt8) : bigEndianBytes bytes.length (bigEndian bytes) = bytes := by
  induction bytes using List.reverseRecOn with
  | nil => rfl
  | append_singleton bytes b ih =>
    have hb := b.toNat_lt
    have high : (256 * bigEndian bytes + b.toNat) / 256 = bigEndian bytes := by omega
    rw [bigEndian_append_singleton, List.length_append, List.length_singleton, bigEndianBytes, high, ih]
    congr 2
    rw [← UInt8.toNat_inj, UInt8.toNat_ofNat']
    omega

theorem bigEndian_lt (bytes : List UInt8) : bigEndian bytes < 256 ^ bytes.length := by
  rw [← bigEndianBytes_bigEndian bytes, length_bigEndianBytes, bigEndian_bigEndianBytes]
  exact Nat.mod_lt _ (Nat.pow_pos (by decide))

/-- Byte strings of length `n` correspond to the numbers below `256 ^ n`. -/
theorem eq_bigEndianBytes_iff {n value : Nat} {bytes : List UInt8} (h : value < 256 ^ n) :
    bytes = bigEndianBytes n value ↔ bytes.length = n ∧ bigEndian bytes = value := by
  constructor
  · rintro rfl
    exact ⟨length_bigEndianBytes n value, (bigEndian_bigEndianBytes n value).trans (Nat.mod_eq_of_lt h)⟩
  · intro hx
    obtain ⟨rfl, rfl⟩ := hx
    exact (bigEndianBytes_bigEndian bytes).symm

/-! ### Words -/

/-- The bytes of a word of two bytes. -/
def word16 (w : UInt16) : List UInt8 := bigEndianBytes 2 w.toNat

/-- The bytes of a word of four bytes. -/
def word32 (w : UInt32) : List UInt8 := bigEndianBytes 4 w.toNat

/-- The bytes of a word of eight bytes. -/
def word64 (w : UInt64) : List UInt8 := bigEndianBytes 8 w.toNat

@[simp] theorem length_word16 (w : UInt16) : (word16 w).length = 2 := length_bigEndianBytes 2 w.toNat

@[simp] theorem length_word32 (w : UInt32) : (word32 w).length = 4 := length_bigEndianBytes 4 w.toNat

@[simp] theorem length_word64 (w : UInt64) : (word64 w).length = 8 := length_bigEndianBytes 8 w.toNat

theorem bigEndian_word16 (w : UInt16) : bigEndian (word16 w) = w.toNat :=
  (bigEndian_bigEndianBytes 2 w.toNat).trans (Nat.mod_eq_of_lt w.toNat_lt)

theorem bigEndian_word32 (w : UInt32) : bigEndian (word32 w) = w.toNat :=
  (bigEndian_bigEndianBytes 4 w.toNat).trans (Nat.mod_eq_of_lt w.toNat_lt)

theorem word32_injective {v w : UInt32} (h : word32 v = word32 w) : v = w := by
  rw [← UInt32.toNat_inj, ← bigEndian_word32 v, ← bigEndian_word32 w, h]

/-- A word of eight bytes is its upper half before its lower half. -/
theorem word64_ofNat (high low : UInt32) :
    word64 (UInt64.ofNat (high.toNat * 0x100000000 + low.toNat)) = word32 high ++ word32 low := by
  have hh := high.toNat_lt
  have hl := low.toNat_lt
  symm
  unfold word64
  rw [eq_bigEndianBytes_iff (UInt64.toNat_lt _), bigEndian_append]
  simp [word32, bigEndian_bigEndianBytes]
  omega

end ClassCensus
