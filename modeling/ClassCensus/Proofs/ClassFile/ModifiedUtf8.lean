import ClassCensus.ClassFile.ModifiedUtf8
import ClassCensus.Proofs.Outcome
import ClassCensus.Proofs.Text.Utf16
import ClassCensus.Proofs.Text.Utf8

/-!
# Texts of class files, read and written

A `SpelledUnit` is a unit in one, two or three bytes, not always in the shortest form.  Bytes that spell units one after
the other are the text that these stand for, and no others spell any (`decodeUnits_eq_ok_iff`).

* (writing) `encode` writes a text as class files have it, and its bytes spell the units of the text
  (`decodeUnits_encode`); without U+0000 and characters of four bytes it is ordinary UTF-8 (`encode_eq_utf8`);
* (order) so ordinary UTF-8 that is tried first never changes what spelled units stand for (`decode_of_decodeUnits`);
* (reading) exactly two kinds of bytes can be read, and where both apply they are the same text (`decode_readable`); a
  written text is read back (`decode_written`).
-/

namespace ClassCensus.ModifiedUtf8

/-- A unit as bytes spell it. -/
inductive SpelledUnit where
  | one (b : UInt8) (range : 0x01 ≤ b ∧ b ≤ 0x7F)
  | two (lead low : UInt8) (range : 0xC0 ≤ lead ∧ lead ≤ 0xDF) (continues : 0x80 ≤ low ∧ low ≤ 0xBF)
  | three (lead middle low : UInt8) (range : 0xE0 ≤ lead ∧ lead ≤ 0xEF) (continues : 0x80 ≤ middle ∧ middle ≤ 0xBF)
    (continues' : 0x80 ≤ low ∧ low ≤ 0xBF)

namespace SpelledUnit

/-- The bytes of a unit. -/
def bytes : SpelledUnit → List UInt8
  | one b _ => [b]
  | two lead low _ _ => [lead, low]
  | three lead middle low _ _ _ => [lead, middle, low]

/-- The unit that is spelled: each byte counts from the least one that may stand in its place. -/
def unit : SpelledUnit → UInt16
  | one b _ => b.toUInt16
  | two lead low _ _ => UInt16.ofNat ((lead.toNat - 0xC0) * 0x40 + (low.toNat - 0x80))
  | three lead middle low _ _ _ =>
    UInt16.ofNat ((lead.toNat - 0xE0) * 0x1000 + (middle.toNat - 0x80) * 0x40 + (low.toNat - 0x80))

end SpelledUnit

/-- The bytes of units one after the other. -/
def spell (units : List SpelledUnit) : List UInt8 :=
  units.flatMap SpelledUnit.bytes

@[simp] theorem spell_nil : spell [] = [] := rfl

@[simp] theorem spell_cons (spelled : SpelledUnit) (others : List SpelledUnit) :
    spell (spelled :: others) = spelled.bytes ++ spell others := rfl

@[simp] theorem spell_append (left right : List SpelledUnit) : spell (left ++ right) = spell left ++ spell right :=
  List.flatMap_append

/-! ### Units -/

private theorem continuation?_eq_some_iff {b : UInt8} {low : Nat} :
    continuation? b = some low ↔ (0x80 ≤ b ∧ b ≤ 0xBF) ∧ low = b.toNat - 0x80 := by
  rw [continuation?]
  split_ifs with range
  · have number : b.toNat % 64 = b.toNat - 0x80 := by
      simp only [UInt8.le_iff_toNat_le, UInt8.reduceToNat] at range
      omega
    simp [range, number, eq_comm]
  · simp [range]

/-- A spelled unit is read as that unit, whatever follows. -/
theorem unitsOnto_spelled (position : Nat) (read : List UInt16) (spelled : SpelledUnit) (rest : List UInt8) :
    unitsOnto position read (spelled.bytes ++ rest) =
      unitsOnto (position + spelled.bytes.length) (spelled.unit :: read) rest := by
  cases spelled with
  | one b range =>
    simp only [SpelledUnit.bytes, List.cons_append, List.nil_append]
    rw [unitsOnto.eq_def]
    exact if_pos range
  | two lead low range continues =>
    have first := range
    simp only [UInt8.le_iff_toNat_le, UInt8.reduceToNat] at first
    have notOne : ¬ (0x01 ≤ lead ∧ lead ≤ 0x7F) := by
      simp only [UInt8.le_iff_toNat_le, UInt8.reduceToNat]
      omega
    have number : lead.toNat % 32 * 64 + (low.toNat - 0x80) = (lead.toNat - 0xC0) * 0x40 + (low.toNat - 0x80) := by
      omega
    simp only [SpelledUnit.bytes, SpelledUnit.unit, List.cons_append, List.nil_append]
    rw [unitsOnto, if_neg notOne, if_pos range]
    simp only [continuation?_eq_some_iff.2 ⟨continues, rfl⟩, number]
    rfl
  | three lead middle low range continues continues' =>
    have first := range
    simp only [UInt8.le_iff_toNat_le, UInt8.reduceToNat] at first
    have notOne : ¬ (0x01 ≤ lead ∧ lead ≤ 0x7F) := by
      simp only [UInt8.le_iff_toNat_le, UInt8.reduceToNat]
      omega
    have notTwo : ¬ (0xC0 ≤ lead ∧ lead ≤ 0xDF) := by
      simp only [UInt8.le_iff_toNat_le, UInt8.reduceToNat]
      omega
    have number : (lead.toNat % 16 * 64 + (middle.toNat - 0x80)) * 64 + (low.toNat - 0x80) =
        (lead.toNat - 0xE0) * 0x1000 + (middle.toNat - 0x80) * 0x40 + (low.toNat - 0x80) := by
      omega
    simp only [SpelledUnit.bytes, SpelledUnit.unit, List.cons_append, List.nil_append]
    rw [unitsOnto, if_neg notOne, if_neg notTwo, if_pos range]
    simp only [continuation?_eq_some_iff.2 ⟨continues, rfl⟩, continuation?_eq_some_iff.2 ⟨continues', rfl⟩, number]
    rfl

private theorem exists_spelled {position : Nat} {read : List UInt16} {bytes : List UInt8} {units : List UInt16}
    (h : unitsOnto position read bytes = .ok units) : ∃ spelled, bytes = spell spelled := by
  fun_induction unitsOnto position read bytes with
  | case1 => exact ⟨[], rfl⟩
  | case2 position read b bytes range ih =>
    obtain ⟨others, rfl⟩ := ih h
    exact ⟨.one b range :: others, rfl⟩
  | case3 position read lead _ range low bytes _ continues ih =>
    obtain ⟨others, rfl⟩ := ih h
    exact ⟨.two lead low range (continuation?_eq_some_iff.1 continues).1 :: others, rfl⟩
  | case6 position read lead _ _ range middle low bytes _ _ continues' continues ih =>
    obtain ⟨others, rfl⟩ := ih h
    exact ⟨.three lead middle low range (continuation?_eq_some_iff.1 continues).1
      (continuation?_eq_some_iff.1 continues').1 :: others, rfl⟩
  | case4 | case5 | case7 | case8 | case9 => cases h

/-- What is spelled is read as the units that it spells. -/
theorem unitsOnto_spell (position : Nat) (read : List UInt16) (spelled : List SpelledUnit) :
    unitsOnto position read (spell spelled) = .ok (read.reverse ++ spelled.map SpelledUnit.unit) := by
  induction spelled generalizing position read with
  | nil => simp [unitsOnto]
  | cons first others ih =>
    rw [spell_cons, unitsOnto_spelled, ih]
    simp

/-- Bytes that spell units are the text that the units stand for, and other bytes spell none. -/
theorem decodeUnits_eq_ok_iff {bytes : List UInt8} {text : String} :
    decodeUnits bytes = .ok text ↔
      ∃ spelled, bytes = spell spelled ∧ Text.Utf16.Reads (spelled.map SpelledUnit.unit) text.toList := by
  simp only [decodeUnits, Text.Utf16.reads_iff, String.ofList_toList]
  constructor
  · intro h
    obtain ⟨units, read, rfl⟩ := Except.map_eq_ok_iff.1 h
    obtain ⟨spelled, rfl⟩ := exists_spelled read
    rw [unitsOnto_spell] at read
    cases read
    exact ⟨spelled, rfl, rfl⟩
  · rintro ⟨spelled, rfl, rfl⟩
    rw [unitsOnto_spell]
    rfl

/-! ### Written texts -/

/-- The two bytes of a unit below U+0800. -/
def twoBytes (n : Nat) : List UInt8 :=
  [UInt8.ofNat (0xC0 + n / 0x40), UInt8.ofNat (0x80 + n % 0x40)]

/-- The three bytes of a unit. -/
def threeBytes (n : Nat) : List UInt8 :=
  [UInt8.ofNat (0xE0 + n / 0x1000), UInt8.ofNat (0x80 + n / 0x40 % 0x40), UInt8.ofNat (0x80 + n % 0x40)]

/-- The bytes of a character in a class file: U+0000 takes two bytes, and a character above U+FFFF has the bytes of its
two surrogates. -/
def encodeChar (c : Char) : List UInt8 :=
  if c = '\x00' then [0xC0, 0x80]
  else if c.toNat < 0x10000 then String.utf8EncodeChar c
  else (Text.Utf16.encodeChar c).flatMap fun u => threeBytes u.toNat

/-- The bytes of a text in a class file. -/
def encode (text : String) : List UInt8 :=
  text.toList.flatMap encodeChar

/-- The bytes spell the unit of the given number. -/
private def Spells (bytes : List UInt8) (n : Nat) : Prop :=
  ∃ spelled : SpelledUnit, spelled.bytes = bytes ∧ spelled.unit = UInt16.ofNat n

private theorem toNat_byte {n : Nat} (small : n < 256) : (UInt8.ofNat n).toNat = n :=
  UInt8.toNat_ofNat_of_lt' small

private theorem inRange {n : Nat} {least greatest : UInt8} (small : n < 256)
    (range : least.toNat ≤ n ∧ n ≤ greatest.toNat) : least ≤ UInt8.ofNat n ∧ UInt8.ofNat n ≤ greatest := by
  rwa [UInt8.le_iff_toNat_le, UInt8.le_iff_toNat_le, toNat_byte small]

private theorem spells_one {n : Nat} (positive : 0 < n) (small : n < 0x80) : Spells [UInt8.ofNat n] n := by
  have range : 1 ≤ n ∧ n ≤ 0x7F := ⟨positive, Nat.le_of_lt_succ small⟩
  refine ⟨.one (UInt8.ofNat n) (inRange (by omega) range), rfl, ?_⟩
  rw [SpelledUnit.unit, ← UInt16.ofNat_toNat (x := (UInt8.ofNat n).toUInt16), UInt8.toNat_toUInt16,
    toNat_byte (by omega)]

private theorem spells_twoBytes {n : Nat} (small : n < 0x800) : Spells (twoBytes n) n := by
  have lead : 0xC0 ≤ 0xC0 + n / 0x40 ∧ 0xC0 + n / 0x40 ≤ 0xDF := by omega
  have low : 0x80 ≤ 0x80 + n % 0x40 ∧ 0x80 + n % 0x40 ≤ 0xBF := by omega
  refine ⟨.two _ _ (inRange (by omega) lead) (inRange (by omega) low), rfl, ?_⟩
  rw [SpelledUnit.unit, toNat_byte (by omega), toNat_byte (by omega)]
  exact congrArg UInt16.ofNat (by omega)

private theorem spells_threeBytes {n : Nat} (small : n < 0x10000) : Spells (threeBytes n) n := by
  have lead : 0xE0 ≤ 0xE0 + n / 0x1000 ∧ 0xE0 + n / 0x1000 ≤ 0xEF := by omega
  have middle : 0x80 ≤ 0x80 + n / 0x40 % 0x40 ∧ 0x80 + n / 0x40 % 0x40 ≤ 0xBF := by omega
  have low : 0x80 ≤ 0x80 + n % 0x40 ∧ 0x80 + n % 0x40 ≤ 0xBF := by omega
  refine ⟨.three _ _ _ (inRange (by omega) lead) (inRange (by omega) middle) (inRange (by omega) low), rfl, ?_⟩
  rw [SpelledUnit.unit, toNat_byte (by omega), toNat_byte (by omega), toNat_byte (by omega)]
  exact congrArg UInt16.ofNat (by omega)

/-- A character of at most three bytes in UTF-8 is spelled by them, unless it is U+0000. -/
private theorem spells_encodeChar {c : Char} (firm : c ≠ '\x00') (small : c.toNat < 0x10000) :
    Spells (String.utf8EncodeChar c) c.toNat := by
  have positive : 0 < c.toNat := Nat.pos_of_ne_zero fun zero => firm (Char.toNat_inj.1 zero)
  rw [String.utf8EncodeChar, show c.val.toNat = c.toNat from rfl]
  split_ifs with one two three
  · exact spells_one positive (by omega)
  · rw [show c.toNat / 64 % 32 + 192 = 0xC0 + c.toNat / 0x40 by omega, Nat.add_comm _ 128]
    exact spells_twoBytes (by omega)
  · rw [show c.toNat / 4096 % 16 + 224 = 0xE0 + c.toNat / 0x1000 by omega, Nat.add_comm _ 128, Nat.add_comm _ 128]
    exact spells_threeBytes small
  · omega

private theorem exists_spell_threeBytes (units : List UInt16) :
    ∃ spelled, spell spelled = units.flatMap (fun u => threeBytes u.toNat) ∧ spelled.map SpelledUnit.unit = units := by
  induction units with
  | nil => exact ⟨[], rfl, rfl⟩
  | cons u units ih =>
    obtain ⟨others, bytes, same⟩ := ih
    obtain ⟨first, bytes', same'⟩ := spells_threeBytes u.toNat_lt
    refine ⟨first :: others, ?_, ?_⟩
    · rw [spell_cons, bytes, bytes', List.flatMap_cons]
    · rw [List.map_cons, same, same', UInt16.ofNat_toNat]

/-- The bytes of a character in a class file spell its units. -/
private theorem exists_spell_encodeChar (c : Char) :
    ∃ spelled, spell spelled = encodeChar c ∧ spelled.map SpelledUnit.unit = Text.Utf16.encodeChar c := by
  have single {bytes : List UInt8} (small : c.toNat < 0x10000) (h : Spells bytes c.toNat) :
      ∃ spelled, spell spelled = bytes ∧ spelled.map SpelledUnit.unit = Text.Utf16.encodeChar c := by
    obtain ⟨spelled, rfl, unit⟩ := h
    rw [Text.Utf16.encodeChar, if_pos small, ← unit]
    exact ⟨[spelled], by simp, rfl⟩
  rw [encodeChar]
  split_ifs with nul small
  · subst nul
    exact single (by decide) (@spells_twoBytes 0 (by decide))
  · exact single small (spells_encodeChar nul small)
  · exact exists_spell_threeBytes _

private theorem exists_spell_encode (chars : List Char) :
    ∃ spelled, spell spelled = chars.flatMap encodeChar ∧
      spelled.map SpelledUnit.unit = Text.Utf16.encode chars := by
  induction chars with
  | nil => exact ⟨[], rfl, rfl⟩
  | cons c chars ih =>
    obtain ⟨others, bytes, same⟩ := ih
    obtain ⟨first, bytes', same'⟩ := exists_spell_encodeChar c
    refine ⟨first ++ others, ?_, ?_⟩
    · rw [spell_append, bytes, bytes', List.flatMap_cons]
    · rw [List.map_append, same, same']
      rfl

/-- The units of a written text are those of the text. -/
theorem decodeUnits_encode (text : String) : decodeUnits (encode text) = .ok text := by
  obtain ⟨spelled, bytes, units⟩ := exists_spell_encode text.toList
  refine decodeUnits_eq_ok_iff.2 ⟨spelled, bytes.symm, ?_⟩
  rw [units]
  exact Text.Utf16.reads_encode text.toList

/-! ### Ordinary UTF-8 -/

private theorem utf8Size_le_three_iff {c : Char} : c.utf8Size ≤ 3 ↔ c.toNat < 0x10000 := by
  have four : c.utf8Size = 4 ↔ 0xFFFF < c.toNat := Char.utf8Size_eq_four_iff
  have least := Char.utf8Size_le_four c
  omega

/-- A text without U+0000 and without characters of four bytes is written as in ordinary UTF-8. -/
theorem encode_eq_utf8 {text : String} (noNul : '\x00' ∉ text.toList) (short : ∀ c ∈ text.toList, c.utf8Size ≤ 3) :
    encode text = Text.Utf8.encode text.toList := by
  refine List.flatMap_congr fun c mem => ?_
  have ne : c ≠ '\x00' := fun e => noNul (e ▸ mem)
  rw [encodeChar, if_neg ne, if_pos (utf8Size_le_three_iff.1 (short c mem))]

/-- No byte of a unit is 0 or starts four bytes. -/
private theorem range_of_mem_spell {spelled : List SpelledUnit} :
    ∀ b ∈ spell spelled, 0 < b.toNat ∧ b.toNat < 0xF0 := by
  simp only [spell, List.forall_mem_flatMap]
  rintro first -
  cases first with
  | one b range | two lead low range continues | three lead middle low range continues continues' =>
    simp only [SpelledUnit.bytes, List.forall_mem_cons, List.not_mem_nil, false_implies, implies_true, and_true]
    simp only [UInt8.le_iff_toNat_le, UInt8.reduceToNat] at *
    omega

/-- A character of four bytes has a byte that starts them. -/
private theorem utf8Size_le_three_of_encode {chars : List Char}
    (h : ∀ b ∈ Text.Utf8.encode chars, b.toNat < 0xF0) : ∀ c ∈ chars, c.utf8Size ≤ 3 := by
  intro c mem
  rw [utf8Size_le_three_iff]
  by_contra large
  have first : UInt8.ofNat (c.toNat / 262144 % 8 + 240) ∈ String.utf8EncodeChar c := by
    rw [String.utf8EncodeChar, show c.val.toNat = c.toNat from rfl, if_neg (by omega), if_neg (by omega),
      if_neg (by omega)]
    exact List.mem_cons_self
  have := h _ (List.mem_flatMap.2 ⟨c, mem, first⟩)
  rw [toNat_byte (by omega)] at this
  omega

/-- Bytes that spell units are read as these units, also if they are ordinary UTF-8. -/
theorem decode_of_decodeUnits {bytes : List UInt8} {text : String} (h : decodeUnits bytes = .ok text) :
    decode bytes = .ok text := by
  rw [decode]
  split
  · next plain found _ =>
    obtain ⟨spelled, rfl, -⟩ := decodeUnits_eq_ok_iff.1 h
    rw [Text.Utf8.decode_eq_ok_iff] at found
    have range := @range_of_mem_spell spelled
    rw [found] at range h
    have noNul : '\x00' ∉ plain.toList := fun mem =>
      absurd (range 0 ((Text.Utf8.mem_encode_iff (by decide)).2 mem)).1 (by decide)
    rw [← encode_eq_utf8 noNul (utf8Size_le_three_of_encode fun b mem => (range b mem).2), decodeUnits_encode] at h
    exact h
  · exact h

/-- A text in the encoding of class files is read back. -/
theorem decode_written (text : String) : decode (encode text) = .ok text :=
  decode_of_decodeUnits (decodeUnits_encode text)

theorem decode_eq_ok_iff {bytes : List UInt8} {text : String} :
    decode bytes = .ok text ↔ bytes = Text.Utf8.encode text.toList ∧ 0 ∉ bytes ∨ decodeUnits bytes = .ok text := by
  constructor
  · intro h
    rw [decode] at h
    split at h
    · next found noZero =>
      cases h
      exact .inl ⟨Text.Utf8.decode_eq_ok_iff.1 found, by simpa using noZero⟩
    · exact .inr h
  · rintro (⟨valid, noZero⟩ | units)
    · have found := Text.Utf8.decode_eq_ok_iff.2 valid
      rw [decode, found]
      simp [noZero]
    · exact decode_of_decodeUnits units

/-- Bytes that spell units can be read, whatever the units are. -/
theorem exists_decodeUnits_spell (spelled : List SpelledUnit) : ∃ text, decodeUnits (spell spelled) = .ok text := by
  obtain ⟨text, reads⟩ := Text.Utf16.exists_reads (spelled.map SpelledUnit.unit)
  exact ⟨text, decodeUnits_eq_ok_iff.2 ⟨spelled, rfl, reads⟩⟩

/-- The bytes of a text without U+0000 and without characters of four bytes are that text both as ordinary UTF-8 and as
units.  Exactly the bytes can be read that are ordinary UTF-8 without U+0000 or spell units one after the other; the text
is that of the ordinary UTF-8, or what the units stand for. -/
theorem decode_readable (bytes : List UInt8) :
    (∀ text : String, bytes = Text.Utf8.encode text.toList → '\x00' ∉ text.toList →
      (∀ c ∈ text.toList, c.utf8Size ≤ 3) →
        Text.Utf8.decode bytes = .ok text ∧ decodeUnits bytes = .ok text) ∧
    ((∃ text, decode bytes = .ok text) ↔
      (∃ chars, bytes = Text.Utf8.encode chars) ∧ 0 ∉ bytes ∨ ∃ spelled, bytes = spell spelled) ∧
    ∀ text, decode bytes = .ok text ↔
      bytes = Text.Utf8.encode text.toList ∧ 0 ∉ bytes ∨
        ∃ spelled, bytes = spell spelled ∧ Text.Utf16.Reads (spelled.map SpelledUnit.unit) text.toList := by
  refine ⟨?_, ⟨?_, ?_⟩, fun text => ?_⟩
  · rintro text rfl noNul short
    refine ⟨Text.Utf8.decode_eq_ok_iff.2 rfl, ?_⟩
    rw [← encode_eq_utf8 noNul short]
    exact decodeUnits_encode text
  · rintro ⟨text, read⟩
    rcases decode_eq_ok_iff.1 read with ⟨valid, noZero⟩ | units
    · exact .inl ⟨⟨text.toList, valid⟩, noZero⟩
    · obtain ⟨spelled, e, -⟩ := decodeUnits_eq_ok_iff.1 units
      exact .inr ⟨spelled, e⟩
  · rintro (⟨⟨chars, rfl⟩, noZero⟩ | ⟨spelled, rfl⟩)
    · exact ⟨String.ofList chars, decode_eq_ok_iff.2 (.inl ⟨by rw [String.toList_ofList], noZero⟩)⟩
    · obtain ⟨text, units⟩ := exists_decodeUnits_spell spelled
      exact ⟨text, decode_of_decodeUnits units⟩
  · rw [← decodeUnits_eq_ok_iff]
    exact decode_eq_ok_iff

/-- A text with characters of one, two and three bytes. -/
theorem decode_readable_short :
    [0x61, 0xC3, 0xA9, 0xEF, 0xBF, 0xBF] = Text.Utf8.encode "aé\uFFFF".toList ∧ '\x00' ∉ "aé\uFFFF".toList ∧
      (∀ c ∈ "aé\uFFFF".toList, c.utf8Size ≤ 3) ∧
      Text.Utf8.decode [0x61, 0xC3, 0xA9, 0xEF, 0xBF, 0xBF] = .ok "aé\uFFFF" ∧
      decodeUnits [0x61, 0xC3, 0xA9, 0xEF, 0xBF, 0xBF] = .ok "aé\uFFFF" := by
  have valid : [0x61, 0xC3, 0xA9, 0xEF, 0xBF, 0xBF] = Text.Utf8.encode "aé\uFFFF".toList := by decide
  have noNul : '\x00' ∉ "aé\uFFFF".toList := by decide
  have short : ∀ c ∈ "aé\uFFFF".toList, c.utf8Size ≤ 3 := by
    show ∀ c ∈ ['a', 'é', '\uFFFF'], c.utf8Size ≤ 3
    simp only [List.forall_mem_cons, List.not_mem_nil, false_implies, implies_true, and_true]
    decide
  exact ⟨valid, noNul, short, (decode_readable _).1 _ valid noNul short⟩

end ClassCensus.ModifiedUtf8
