import ClassCensus.Text.Utf16
import Mathlib.Tactic.SplitIfs

/-!
# Units and texts

`Text.Utf16.Reads` says which characters a sequence of units stands for, unit by unit: a surrogate counts as unpaired
if it is a low one that no high one has taken, or a high one that no low one follows.

* (reading) `decodeLossy` finds these characters, and there are no others (`reads_iff`), so every sequence of units
  stands for one text (`exists_reads`);
* (writing) the units of characters are read back, and none of them is an unpaired surrogate (`reads_encode`).
-/

namespace ClassCensus.Text.Utf16

/-- A unit of either half of a pair. -/
def isSurrogate (u : UInt16) : Bool :=
  isHighSurrogate u || isLowSurrogate u

/-- The characters that units stand for, with the replacement character for every unpaired surrogate. -/
inductive Reads : List UInt16 → List Char → Prop
  | nil : Reads [] []
  | scalar {u : UInt16} {units : List UInt16} {chars : List Char} (scalar : isSurrogate u = false)
      (rest : Reads units chars) : Reads (u :: units) (Char.ofNat u.toNat :: chars)
  | paired {high low : UInt16} {units : List UInt16} {chars : List Char} (first : isHighSurrogate high = true)
      (second : isLowSurrogate low = true) (rest : Reads units chars) :
      Reads (high :: low :: units) (pair high low :: chars)
  | unpaired {u : UInt16} {units : List UInt16} {chars : List Char} (surrogate : isSurrogate u = true)
      (alone : isHighSurrogate u = true → ∀ v ∈ units.head?, isLowSurrogate v = false) (rest : Reads units chars) :
      Reads (u :: units) ('\uFFFD' :: chars)

/-! ### Reading -/

/-- A unit that starts no pair is read alone. -/
private theorem Reads.single {u : UInt16} {units : List UInt16} {chars : List Char}
    (alone : isHighSurrogate u = true → ∀ v ∈ units.head?, isLowSurrogate v = false) (rest : Reads units chars) :
    Reads (u :: units) (Utf16.single u :: chars) := by
  rw [Utf16.single]
  split_ifs with surrogate
  · exact .unpaired surrogate alone rest
  · exact .scalar (Bool.eq_false_iff.2 surrogate) rest

private theorem exists_charsOnto_eq (read : List Char) (units : List UInt16) :
    ∃ chars, charsOnto read units = read.reverse ++ chars ∧ Reads units chars := by
  fun_induction charsOnto read units with
  | case1 read => exact ⟨[], by simp, .nil⟩
  | case2 read u => exact ⟨[single u], by simp, .single (by simp) .nil⟩
  | case3 read high low units both ih =>
    obtain ⟨chars, e, rest⟩ := ih
    obtain ⟨first, second⟩ := Bool.and_eq_true_iff.1 both
    exact ⟨pair high low :: chars, by simp [e], .paired first second rest⟩
  | case4 read u v units apart ih =>
    obtain ⟨chars, e, rest⟩ := ih
    exact ⟨single u :: chars, by simp [e], .single (by simpa using apart) rest⟩

theorem Reads.unique {units : List UInt16} {chars chars' : List Char} (h : Reads units chars)
    (h' : Reads units chars') : chars = chars' := by
  induction h generalizing chars' with
  | nil =>
    cases h'
    rfl
  | scalar scalar _ ih =>
    cases h' with
    | scalar _ rest' => rw [ih rest']
    | paired first _ _ => simp [isSurrogate, first] at scalar
    | unpaired surrogate _ _ => exact absurd (scalar.symm.trans surrogate) Bool.false_ne_true
  | paired first second _ ih =>
    cases h' with
    | scalar scalar _ => simp [isSurrogate, first] at scalar
    | paired _ _ rest' => rw [ih rest']
    | unpaired _ alone _ => exact absurd ((alone first _ rfl).symm.trans second) Bool.false_ne_true
  | unpaired surrogate alone _ ih =>
    cases h' with
    | scalar scalar _ => exact absurd (scalar.symm.trans surrogate) Bool.false_ne_true
    | paired first second _ => exact absurd ((alone first _ rfl).symm.trans second) Bool.false_ne_true
    | unpaired _ _ rest' => rw [ih rest']

/-- Units stand for exactly the characters that are read. -/
theorem reads_iff {units : List UInt16} {chars : List Char} :
    Reads units chars ↔ decodeLossy units = String.ofList chars := by
  obtain ⟨found, e, reads⟩ := exists_charsOnto_eq [] units
  rw [decodeLossy, e, String.ofList_inj, List.reverse_nil, List.nil_append]
  exact ⟨reads.unique, fun same => same ▸ reads⟩

/-- Every sequence of units stands for a text. -/
theorem exists_reads (units : List UInt16) : ∃ text : String, Reads units text.toList :=
  ⟨decodeLossy units, reads_iff.2 String.ofList_toList.symm⟩

-- a high surrogate before a pair and a low one after it
example : Reads [0xD83D, 0xD83D, 0xDE00, 0xDE00] ['\uFFFD', '😀', '\uFFFD'] :=
  reads_iff.2 (by decide)

/-! ### Writing -/

/-- The units of a character: one, or a pair of surrogates above U+FFFF. -/
def encodeChar (c : Char) : List UInt16 :=
  if c.toNat < 0x10000 then [UInt16.ofNat c.toNat]
  else [UInt16.ofNat (0xD800 + (c.toNat - 0x10000) / 0x400), UInt16.ofNat (0xDC00 + (c.toNat - 0x10000) % 0x400)]

/-- The units of characters. -/
def encode (chars : List Char) : List UInt16 :=
  chars.flatMap encodeChar

private theorem isHighSurrogate_ofNat {n : Nat} (small : n < 0x10000) :
    isHighSurrogate (UInt16.ofNat n) = true ↔ 0xD800 ≤ n ∧ n < 0xDC00 := by
  simp only [isHighSurrogate, Bool.and_eq_true, decide_eq_true_eq, UInt16.le_iff_toNat_le, UInt16.lt_iff_toNat_lt,
    UInt16.toNat_ofNat_of_lt' small, UInt16.reduceToNat]

private theorem isLowSurrogate_ofNat {n : Nat} (small : n < 0x10000) :
    isLowSurrogate (UInt16.ofNat n) = true ↔ 0xDC00 ≤ n ∧ n < 0xE000 := by
  simp only [isLowSurrogate, Bool.and_eq_true, decide_eq_true_eq, UInt16.le_iff_toNat_le, UInt16.lt_iff_toNat_lt,
    UInt16.toNat_ofNat_of_lt' small, UInt16.reduceToNat]

private theorem toNat_cases (c : Char) : c.toNat < 0xD800 ∨ 0xDFFF < c.toNat ∧ c.toNat < 0x110000 :=
  c.valid

theorem Reads.encodeChar_append (c : Char) {units : List UInt16} {chars : List Char} (rest : Reads units chars) :
    Reads (encodeChar c ++ units) (c :: chars) := by
  have valid := toNat_cases c
  rw [encodeChar]
  split_ifs with small
  · have scalar : isSurrogate (UInt16.ofNat c.toNat) = false := by
      rw [isSurrogate, Bool.or_eq_false_iff, ← Bool.not_eq_true, ← Bool.not_eq_true, isHighSurrogate_ofNat small,
        isLowSurrogate_ofNat small]
      omega
    have read : Char.ofNat (UInt16.ofNat c.toNat).toNat = c := by
      rw [UInt16.toNat_ofNat_of_lt' small, Char.ofNat_toNat]
    have reads := Reads.scalar scalar rest
    rwa [read] at reads
  · obtain ⟨high, eHigh⟩ : ∃ high, high = 0xD800 + (c.toNat - 0x10000) / 0x400 := ⟨_, rfl⟩
    obtain ⟨low, eLow⟩ : ∃ low, low = 0xDC00 + (c.toNat - 0x10000) % 0x400 := ⟨_, rfl⟩
    rw [← eHigh, ← eLow]
    have first := (isHighSurrogate_ofNat (show high < 0x10000 by omega)).2 (by omega)
    have second := (isLowSurrogate_ofNat (show low < 0x10000 by omega)).2 (by omega)
    have number : 0x10000 + (high - 0xD800) * 0x400 + (low - 0xDC00) = c.toNat := by omega
    have read : pair (UInt16.ofNat high) (UInt16.ofNat low) = c := by
      rw [pair, UInt16.toNat_ofNat_of_lt' (show high < 0x10000 by omega),
        UInt16.toNat_ofNat_of_lt' (show low < 0x10000 by omega), number, Char.ofNat_toNat]
    have reads := Reads.paired first second rest
    rwa [read] at reads

/-- Characters are what their units stand for. -/
theorem reads_encode (chars : List Char) : Reads (encode chars) chars := by
  induction chars with
  | nil => exact .nil
  | cons c chars ih => exact ih.encodeChar_append c

end ClassCensus.Text.Utf16
