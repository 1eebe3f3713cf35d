import ClassCensus.Layout.Character
import ClassCensus.Layout.Entity
import ClassCensus.Proofs.Text.Utf8
import Mathlib.Data.Bool.AllAny
import Mathlib.Data.List.Induction
import Mathlib.Tactic.IntervalCases

/-!
# Texts as documents spell them

A text in a document, be it between tags or the value of an attribute, is spelled character by character: a `Spelling`
is a character that stands for itself or a `Reference`, by the name of a predefined entity or by a number.  What is
spelled is read back, whichever spellings are chosen (`unescape_spell`).

* (special) a character that has a meaning where the text stands has to be given by a reference (`Spelling.Avoids`);
* (blanks) blanks at the ends of a text are dropped only where they stand for themselves, so what is left of a spelled
  text is a spelled text again (`exists_trimEnd_spell`).
-/

namespace ClassCensus.Layout

open Text.Utf8 (encode)

/-! ### Numbers -/

/-- The character is a digit of the given value; a letter may be of either case. -/
def IsDigit (value : Nat) (c : Char) : Prop :=
  c = value.digitChar ∨ c = value.digitChar.toUpper

/-- The digits spell the number in the base `base`, maybe with zeros in front. -/
inductive SpellsNumber (base : Nat) : List Char → Nat → Prop where
  | digit {value : Nat} {c : Char} (less : value < base) (letter : IsDigit value c) : SpellsNumber base [c] value
  | more {digits : List Char} {number value : Nat} {c : Char} (first : SpellsNumber base digits number)
      (less : value < base) (letter : IsDigit value c) : SpellsNumber base (digits ++ [c]) (number * base + value)

theorem IsDigit.isAlphanum {value : Nat} {c : Char} (h : IsDigit value c) (small : value < 16) :
    c.isAlphanum = true := by
  rcases h with rfl | rfl
  all_goals
    revert value
    decide

theorem IsDigit.digitValue? {base value : Nat} {c : Char} (h : IsDigit value c) (less : value < base)
    (small : base ≤ 16) : digitValue? base c = some value := by
  have bound : value < 16 := by omega
  rcases h with rfl | rfl
  all_goals
    interval_cases value
    all_goals exact if_pos (decide_eq_true less)

namespace SpellsNumber

variable {base number : Nat} {digits : List Char}

theorem isAlphanum (h : SpellsNumber base digits number) (small : base ≤ 16) : ∀ c ∈ digits, c.isAlphanum = true := by
  induction h with
  | digit less letter => exact List.forall_mem_singleton.2 (letter.isAlphanum (by omega))
  | more first less letter ih =>
    rw [List.forall_mem_append]
    exact ⟨ih, List.forall_mem_singleton.2 (letter.isAlphanum (by omega))⟩

theorem exists_first (h : SpellsNumber base digits number) (small : base ≤ 16) :
    ∃ c rest value, digits = c :: rest ∧ digitValue? base c = some value := by
  induction h with
  | digit less letter => exact ⟨_, [], _, rfl, letter.digitValue? less small⟩
  | more first less letter ih =>
    obtain ⟨c, rest, value, rfl, isDigit⟩ := ih
    exact ⟨c, rest ++ [_], value, rfl, isDigit⟩

/-- Digits are read one after the other; the numbers on the way are no larger than the last one. -/
private theorem numberFrom_append (h : SpellsNumber base digits number) (small : base ≤ 16)
    (bound : number ≤ 0xFFFFFFFF) (rest : List Char) :
    numberFrom base 0 (digits ++ rest) = numberFrom base number rest := by
  induction h generalizing rest with
  | digit less letter =>
    simp only [List.cons_append, List.nil_append, numberFrom, letter.digitValue? less small, Nat.zero_mul, Nat.zero_add]
    exact if_neg (by omega)
  | @more digits number value c first less letter ih =>
    have smaller : number ≤ number * base + value := by
      have := Nat.le_mul_of_pos_right number (show 0 < base by omega)
      omega
    rw [List.append_assoc, ih (by omega)]
    simp only [List.cons_append, List.nil_append, numberFrom, letter.digitValue? less small]
    exact if_neg (by omega)

theorem number_eq (h : SpellsNumber base digits number) (small : base ≤ 16) (bound : number ≤ 0xFFFFFFFF) :
    Layout.number base digits = .ok number := by
  have read := h.numberFrom_append small bound []
  rw [List.append_nil] at read
  obtain ⟨c, rest, value, rfl, -⟩ := h.exists_first small
  have unsigned : ¬ (c = '+' ∨ c = '-') := by
    have alphanum := h.isAlphanum small c List.mem_cons_self
    rintro (rfl | rfl)
    all_goals exact absurd alphanum (by decide)
  rw [Layout.number, if_neg unsigned, read]
  rfl

end SpellsNumber

/-! ### References -/

/-- A predefined entity. -/
inductive Entity where
  | lt
  | gt
  | amp
  | apos
  | quot

/-- The name of an entity. -/
def Entity.name : Entity → String
  | .lt => "lt"
  | .gt => "gt"
  | .amp => "amp"
  | .apos => "apos"
  | .quot => "quot"

/-- The character that an entity stands for. -/
def Entity.char : Entity → Char
  | .lt => '<'
  | .gt => '>'
  | .amp => '&'
  | .apos => '\''
  | .quot => '"'

/-- A reference to a character, by the name of an entity or by its number. -/
inductive Reference where
  | named (entity : Entity)
  | decimal (digits : List Char) (c : Char) (spells : SpellsNumber 10 digits c.toNat) (nonzero : c.toNat ≠ 0)
  | hexadecimal (digits : List Char) (c : Char) (spells : SpellsNumber 16 digits c.toNat) (nonzero : c.toNat ≠ 0)

namespace Reference

/-- The text between `&` and `;`. -/
def text : Reference → List Char
  | named entity => entity.name.toList
  | decimal digits _ _ _ => '#' :: digits
  | hexadecimal digits _ _ _ => '#' :: 'x' :: digits

/-- The character that is referred to. -/
def char : Reference → Char
  | named entity => entity.char
  | decimal _ c _ _ | hexadecimal _ c _ _ => c

theorem isAlphanum_of_mem_text {reference : Reference} : ∀ c ∈ reference.text, c = '#' ∨ c.isAlphanum = true := by
  cases reference with
  | named entity =>
    cases entity
    all_goals exact List.all_iff_forall_prop.1 (by decide)
  | decimal digits c spells _ =>
    exact List.forall_mem_cons.2 ⟨.inl rfl, fun c mem => .inr (spells.isAlphanum (by decide) c mem)⟩
  | hexadecimal digits c spells _ =>
    refine List.forall_mem_cons.2 ⟨.inl rfl, List.forall_mem_cons.2 ⟨.inr (by decide), ?_⟩⟩
    exact fun c mem => .inr (spells.isAlphanum (by decide) c mem)

private theorem ofCode {read : Except CharacterFault Nat} {c : Char} (h : read = .ok c.toNat) (nonzero : c.toNat ≠ 0) :
    (do
      let code ← read
      if code = 0 then throw .zero
      if code.isValidChar then return Char.ofNat code else throw (.notACharacter code)) = Except.ok c := by
  have valid : c.toNat.isValidChar := c.valid
  rw [h]
  simp only [bind, Except.bind, if_neg nonzero, if_pos valid, Char.ofNat_toNat]
  rfl

private theorem characterOf_decimal {digits : List Char} {c : Char} (spells : SpellsNumber 10 digits c.toNat)
    (nonzero : c.toNat ≠ 0) : characterOf digits = .ok c := by
  have read := spells.number_eq (by decide) (Nat.le_of_lt_succ c.val.toNat_lt)
  unfold characterOf
  split
  · -- an `x` is no digit
    obtain ⟨_, _, _, e, isDigit⟩ := spells.exists_first (by decide)
    rw [← (List.cons.inj e).1] at isDigit
    cases isDigit
  · exact ofCode read nonzero

private theorem characterOf_hexadecimal {digits : List Char} {c : Char} (spells : SpellsNumber 16 digits c.toNat)
    (nonzero : c.toNat ≠ 0) : characterOf ('x' :: digits) = .ok c :=
  ofCode (spells.number_eq (by decide) (Nat.le_of_lt_succ c.val.toNat_lt)) nonzero

/-- A reference is resolved to its character. -/
theorem resolveReference_text (position : Nat) (reference : Reference) :
    resolveReference position reference.text = .ok reference.char := by
  cases reference with
  | named entity =>
    cases entity
    all_goals rfl
  | decimal digits c spells nonzero =>
    exact congrArg (Except.mapError TextFault.invalidCharacter) (characterOf_decimal spells nonzero)
  | hexadecimal digits c spells nonzero =>
    exact congrArg (Except.mapError TextFault.invalidCharacter) (characterOf_hexadecimal spells nonzero)

end Reference

/-! ### Spellings -/

/-- A way to spell a character. -/
inductive Spelling where
  | plain (c : Char)
  | reference (found : Reference)

namespace Spelling

/-- The characters of a spelling. -/
def chars : Spelling → List Char
  | .plain c => [c]
  | .reference found => '&' :: (found.text ++ [';'])

/-- The character that is spelled. -/
def char : Spelling → Char
  | .plain c => c
  | .reference found => found.char

/-- Only a reference spells a character that is special. -/
def Avoids (special : List Char) : Spelling → Prop
  | .plain c => c ∉ special
  | .reference _ => True

end Spelling

/-- The characters of a text that is spelled in the given way. -/
def spell (spellings : List Spelling) : List Char :=
  spellings.flatMap Spelling.chars

@[simp] theorem spell_nil : spell [] = [] := rfl

@[simp] theorem spell_cons (spelling : Spelling) (spellings : List Spelling) :
    spell (spelling :: spellings) = spelling.chars ++ spell spellings := rfl

@[simp] theorem spell_append (left right : List Spelling) : spell (left ++ right) = spell left ++ spell right :=
  List.flatMap_append

/-- A special character that no reference is written with does not occur in a text. -/
theorem notMem_spell {special : List Char} {spellings : List Spelling}
    (avoids : ∀ spelling ∈ spellings, spelling.Avoids special) {x : Char} (mem : x ∈ special)
    (unused : x ∉ ['&', ';', '#'] ∧ x.isAlphanum = false) : x ∉ spell spellings := by
  obtain ⟨symbol, letter⟩ := unused
  intro occurs
  obtain ⟨spelling, hs, occurs⟩ := List.mem_flatMap.1 occurs
  cases spelling with
  | plain c =>
    obtain rfl : x = c := List.mem_singleton.1 occurs
    exact avoids _ hs mem
  | reference reference =>
    simp only [Spelling.chars, List.mem_cons, List.mem_append, List.not_mem_nil, or_false] at occurs symbol
    rcases occurs with e | inText | e
    · exact symbol (.inl e)
    · rcases Reference.isAlphanum_of_mem_text x inText with e | alphanum
      · exact symbol (.inr (.inr e))
      · exact Bool.false_ne_true (letter.symm.trans alphanum)
    · exact symbol (.inr (.inl e))

/-! ### Reading -/

private theorem reference?_text (reference : Reference) (rest : List Char) :
    reference? (reference.text ++ ';' :: rest) = some (reference.text, rest) := by
  have all : ∀ c ∈ reference.text, isReferenceChar c = true := by
    intro c mem
    rcases Reference.isAlphanum_of_mem_text c mem with rfl | alphanum
    · rfl
    · rw [isReferenceChar, Bool.and_eq_true_iff, decide_eq_true_iff, decide_eq_true_iff]
      constructor
      all_goals
        rintro rfl
        exact absurd alphanum (by decide)
  have stop : isReferenceChar ';' = false := rfl
  rw [reference?, List.dropWhile_append_of_pos all, List.takeWhile_append_of_pos all,
    List.dropWhile_cons_of_neg (by simp [stop]), List.takeWhile_cons_of_neg (by simp [stop]), List.append_nil]
  rfl

private theorem unescapeOnto_spell {special : List Char} (escape : '&' ∈ special) {spellings : List Spelling}
    (avoids : ∀ spelling ∈ spellings, spelling.Avoids special) (size position : Nat) (read : List Char) :
    unescapeOnto size position read (spell spellings) = .ok (read.reverse ++ spellings.map Spelling.char) := by
  induction spellings generalizing position read with
  | nil => simp [unescapeOnto]
  | cons spelling spellings ih =>
    obtain ⟨first, others⟩ := List.forall_mem_cons.1 avoids
    rw [spell_cons]
    cases spelling with
    | plain c =>
      have ordinary : c ≠ '&' := fun e => first (e ▸ escape)
      rw [Spelling.chars, List.singleton_append, unescapeOnto, if_pos ordinary, ih others]
      simp [Spelling.char]
    | reference reference =>
      have found := reference?_text reference (spell spellings)
      rw [Spelling.chars, List.cons_append, List.append_assoc, List.singleton_append, unescapeOnto,
        if_neg (not_not.2 rfl)]
      split
      · next none => rw [found] at none; cases none
      · next some =>
        rw [found] at some
        cases some
        rw [Reference.resolveReference_text]
        refine (ih others _ _).trans ?_
        simp [Spelling.char]

/-- A text is read back, however it is spelled. -/
theorem unescape_spell {special : List Char} (escape : '&' ∈ special) {spellings : List Spelling}
    (avoids : ∀ spelling ∈ spellings, spelling.Avoids special) :
    unescape (encode (spell spellings)) = .ok (String.ofList (spellings.map Spelling.char)) := by
  rw [unescape, Text.Utf8.decode_encode]
  simp only [Except.mapError, bind, Except.bind, String.toList_ofList]
  rw [unescapeOnto_spell escape avoids]
  rfl

/-! ### Blanks -/

/-- The blanks of documents. -/
def blankChars : List Char := [' ', '\t', '\r', '\n']

theorem isBlank_eq_true_iff {b : UInt8} : isBlank b = true ↔ ∃ c ∈ blankChars, b = ascii c := by
  simp [isBlank, blankChars, ascii, or_assoc]

private theorem encodeChar_blank {c : Char} (blank : c ∈ blankChars) : String.utf8EncodeChar c = [ascii c] := by
  have all : ∀ c ∈ blankChars, String.utf8EncodeChar c = [ascii c] := List.all_iff_forall_prop.1 (by decide)
  exact all c blank

theorem isBlank_of_mem_encode {chars : List Char} (blank : ∀ c ∈ chars, c ∈ blankChars) :
    ∀ b ∈ encode chars, isBlank b = true := by
  intro b mem
  obtain ⟨c, hc, mem⟩ := List.mem_flatMap.1 mem
  rw [encodeChar_blank (blank c hc), List.mem_singleton] at mem
  exact isBlank_eq_true_iff.2 ⟨c, blank c hc, mem⟩

/-- The bytes of a text without blanks are no blanks. -/
theorem not_isBlank_of_mem_encode {chars : List Char} (firm : ∀ c ∈ chars, c ∉ blankChars) :
    ∀ b ∈ encode chars, isBlank b = false := by
  have ascii : ∀ c ∈ blankChars, c.toNat < 0x80 := List.all_iff_forall_prop.1 (by decide)
  intro b mem
  rw [← Bool.not_eq_true, isBlank_eq_true_iff]
  rintro ⟨c, blank, rfl⟩
  exact firm c ((Text.Utf8.mem_encode_iff (ascii c blank)).1 mem) blank

theorem trimEnd_concat_blank {bytes : List UInt8} {b : UInt8} (blank : isBlank b = true) :
    trimEnd (bytes ++ [b]) = trimEnd bytes := by
  simp [trimEnd, blank]

theorem trimEnd_concat_firm {bytes : List UInt8} {b : UInt8} (firm : isBlank b = false) :
    trimEnd (bytes ++ [b]) = bytes ++ [b] := by
  simp [trimEnd, firm]

/-- Blanks at the end are dropped. -/
theorem trimEnd_append {bytes blanks : List UInt8} (blank : ∀ b ∈ blanks, isBlank b = true) :
    trimEnd (bytes ++ blanks) = trimEnd bytes := by
  rw [trimEnd, List.reverse_append, List.dropWhile_append_of_pos (by simpa using blank), trimEnd]

/-- A spelling is a blank that stands for itself, or neither its first nor its last byte is a blank. -/
theorem Spelling.blank_or_firm (spelling : Spelling) :
    (∃ b, encode spelling.chars = [b] ∧ isBlank b = true) ∨
      (∃ b bytes, encode spelling.chars = b :: bytes ∧ isBlank b = false) ∧
        ∃ bytes b, encode spelling.chars = bytes ++ [b] ∧ isBlank b = false := by
  cases spelling with
  | plain c =>
    by_cases blank : c ∈ blankChars
    · have single : encode [c] = [ascii c] := (List.append_nil _).trans (encodeChar_blank blank)
      exact .inl ⟨_, single, isBlank_eq_true_iff.2 ⟨c, blank, rfl⟩⟩
    · have firm := not_isBlank_of_mem_encode (List.forall_mem_singleton.2 blank)
      have some : encode [c] ≠ [] := Text.Utf8.encode_ne_nil (List.cons_ne_nil c [])
      obtain ⟨b, bytes, e⟩ := List.exists_cons_of_ne_nil some
      obtain ⟨bytes', b', e'⟩ := (List.eq_nil_or_concat (encode [c])).resolve_left some
      rw [List.concat_eq_append] at e'
      exact .inr ⟨⟨b, bytes, e, firm b (by simp [e])⟩, bytes', b', e', firm b' (by simp [e'])⟩
  | reference found =>
    refine .inr ⟨⟨ascii '&', encode (found.text ++ [';']), rfl, rfl⟩, encode ('&' :: found.text), ascii ';', ?_, rfl⟩
    rw [Spelling.chars, ← List.cons_append, Text.Utf8.encode_append]
    rfl

/-- What is left of a spelled text without the blanks at its end is a start of it. -/
theorem exists_trimEnd_spell (spellings : List Spelling) :
    ∃ kept, kept <+: spellings ∧ trimEnd (encode (spell spellings)) = encode (spell kept) := by
  induction spellings using List.reverseRecOn with
  | nil => exact ⟨[], List.prefix_refl _, rfl⟩
  | append_singleton spellings spelling ih =>
    rw [spell_append, spell_cons, spell_nil, List.append_nil, Text.Utf8.encode_append]
    rcases spelling.blank_or_firm with ⟨b, e, blank⟩ | ⟨-, bytes, b, e, firm⟩
    · obtain ⟨kept, start, trimmed⟩ := ih
      rw [e, trimEnd_concat_blank blank, trimmed]
      exact ⟨kept, start.trans (List.prefix_append _ _), rfl⟩
    · refine ⟨spellings ++ [spelling], List.prefix_refl _, ?_⟩
      rw [e, ← List.append_assoc, trimEnd_concat_firm firm, List.append_assoc, ← e]
      simp

end ClassCensus.Layout
