import ClassCensus.Layout.Event
import ClassCensus.Layout.Outline
import ClassCensus.Proofs.Layout.NameProduction
import ClassCensus.Proofs.Layout.SpelledText

/-!
# Tags as they are spelled

A `SpelledTag` is a tag with all that a document has to say about it: the name of its element, its attributes with
the quotes and spellings of their values, and the blanks in it.  No two of its attributes have the same name.

* (end) no `>` in the value of an attribute ends the tag (`split?_spelledTag`);
* (attributes) exactly the spelled attributes are read (`attributesOnto_spelled`);
* (checks) the tag passes all checks, and its element has the spelled name (`checkTag_spelledTag`).
-/

namespace ClassCensus.Layout

open Text.Utf8 (encode mem_encode_iff)

/-- Blanks, maybe none. -/
structure Blanks where
  chars : List Char
  blank : ∀ c ∈ chars, c ∈ blankChars

/-- A quote around the value of an attribute. -/
inductive Quote where
  | double
  | single

/-- The character of a quote. -/
def Quote.char : Quote → Char
  | double => '"'
  | single => '\''

/-- An attribute with the blanks before it. -/
structure SpelledAttribute where
  before : Blanks
  apart : before.chars ≠ []
  name : Name
  beforeEquals : Blanks
  afterEquals : Blanks
  quote : Quote
  value : List Spelling
  avoids : ∀ spelling ∈ value, spelling.Avoids ['&', '<', quote.char]

/-- The characters of a value with its quotes. -/
def SpelledAttribute.quoted (attr : SpelledAttribute) : List Char :=
  attr.quote.char :: (spell attr.value ++ [attr.quote.char])

/-- The characters of an attribute. -/
def SpelledAttribute.chars (attr : SpelledAttribute) : List Char :=
  attr.before.chars ++ (attr.name.chars ++ (attr.beforeEquals.chars ++
    '=' :: (attr.afterEquals.chars ++ attr.quoted)))

/-- A tag without its brackets. -/
structure SpelledTag where
  name : Name
  attributes : List SpelledAttribute
  distinct : (attributes.map fun attr => attr.name.chars).Nodup
  after : Blanks

/-- The characters of the attributes of a tag with the blanks after them. -/
def SpelledTag.attributeChars (tag : SpelledTag) : List Char :=
  tag.attributes.flatMap SpelledAttribute.chars ++ tag.after.chars

/-- The characters of a tag. -/
def SpelledTag.chars (tag : SpelledTag) : List Char :=
  tag.name.chars ++ tag.attributeChars

/-! ### Bytes -/

namespace Name

theorem exists_encode_eq_cons (name : Name) : ∃ first rest, encode name.chars = first :: rest :=
  List.exists_cons_of_ne_nil (Text.Utf8.encode_ne_nil (List.cons_ne_nil name.first name.others))

theorem isBlank_of_mem (name : Name) : ∀ b ∈ encode name.chars, isBlank b = false := by
  have outside : ∀ c ∈ blankChars, isNameChar c = false := List.all_iff_forall_prop.1 (by decide)
  exact not_isBlank_of_mem_encode fun c mem blank => name.notMem (outside c blank) mem

end Name

namespace Blanks

variable (blanks : Blanks)

theorem isBlank_of_mem : ∀ b ∈ encode blanks.chars, isBlank b = true :=
  isBlank_of_mem_encode blanks.blank

theorem ascii_notMem {c : Char} (outside : c.toNat < 0x80 ∧ c ∉ blankChars) : ascii c ∉ encode blanks.chars :=
  fun mem => outside.2 (blanks.blank c ((mem_encode_iff outside.1).1 mem))

end Blanks

namespace SpelledAttribute

variable (attr : SpelledAttribute)

theorem quote_notMem : ascii attr.quote.char ∉ encode (spell attr.value) := by
  have unused : attr.quote.char.toNat < 0x80 ∧ attr.quote.char ∉ ['&', ';', '#'] ∧
      attr.quote.char.isAlphanum = false := by
    cases attr.quote
    all_goals decide
  intro mem
  exact notMem_spell attr.avoids (by simp) unused.2 ((mem_encode_iff unused.1).1 mem)

theorem openBracket_notMem : ascii '<' ∉ encode (spell attr.value) :=
  fun mem => notMem_spell attr.avoids (by simp) (by decide) ((mem_encode_iff (by decide)).1 mem)

/-- The bytes of a value with its quotes. -/
theorem encode_quoted : encode attr.quoted =
    ascii attr.quote.char :: (encode (spell attr.value) ++ [ascii attr.quote.char]) := by
  have single : String.utf8EncodeChar attr.quote.char = [ascii attr.quote.char] := by
    cases attr.quote
    all_goals rfl
  simp [quoted, single]

end SpelledAttribute

/-! ### The end of a tag -/

/-- The search for the end of a tag passes over the bytes, and no quote stands open after them. -/
def PassedInTag (bytes : List UInt8) : Prop :=
  ∀ read rest, Construct.splitTagOnto none read (bytes ++ rest) =
    Construct.splitTagOnto none (bytes.reverse ++ read) rest

namespace PassedInTag

theorem append {left right : List UInt8} (h : PassedInTag left) (h' : PassedInTag right) :
    PassedInTag (left ++ right) := by
  intro read rest
  rw [List.append_assoc, h, h', List.reverse_append, List.append_assoc]

theorem flatMap {α : Type} {f : α → List UInt8} {as : List α} (h : ∀ a ∈ as, PassedInTag (f a)) :
    PassedInTag (as.flatMap f) := by
  induction as with
  | nil => exact fun _ _ => rfl
  | cons a as ih =>
    obtain ⟨first, others⟩ := List.forall_mem_cons.1 h
    exact first.append (ih others)

/-- Bytes without a quote or a closing bracket are passed over. -/
theorem of_notMem {bytes : List UInt8} (h : ∀ c ∈ ['>', '"', '\''], ascii c ∉ bytes) : PassedInTag bytes := by
  intro read rest
  induction bytes generalizing read with
  | nil => rfl
  | cons b bytes ih =>
    have ne (c : Char) (mem : c ∈ ['>', '"', '\'']) : b ≠ ascii c := fun e => h c mem (e ▸ List.mem_cons_self)
    have others : ∀ c ∈ ['>', '"', '\''], ascii c ∉ bytes := fun c mem e => h c mem (List.mem_cons_of_mem b e)
    have quote : ¬ (b = ascii '"' ∨ b = ascii '\'') := not_or.2 ⟨ne _ (by simp), ne _ (by simp)⟩
    rw [List.cons_append, Construct.splitTagOnto]
    simp only [if_neg (ne '>' (by simp)), if_neg quote]
    rw [ih others, List.reverse_cons, List.append_assoc, List.singleton_append]

private theorem splitTagOnto_some {quote : UInt8} {bytes : List UInt8} (h : quote ∉ bytes) (read rest : List UInt8) :
    Construct.splitTagOnto (some quote) read (bytes ++ quote :: rest) =
      Construct.splitTagOnto none (quote :: (bytes.reverse ++ read)) rest := by
  induction bytes generalizing read with
  | nil =>
    rw [List.nil_append, Construct.splitTagOnto]
    simp only [if_true]
    rfl
  | cons b bytes ih =>
    obtain ⟨ne, others⟩ := not_or.1 (mt List.mem_cons.2 h)
    rw [List.cons_append, Construct.splitTagOnto]
    simp only [if_neg (Ne.symm ne)]
    rw [ih others, List.reverse_cons, List.append_assoc, List.singleton_append]

/-- Quotes around bytes without that quote are passed over. -/
theorem quoted (attr : SpelledAttribute) : PassedInTag (encode attr.quoted) := by
  intro read rest
  have marks : ascii attr.quote.char ≠ ascii '>' ∧
      (ascii attr.quote.char = ascii '"' ∨ ascii attr.quote.char = ascii '\'') := by
    cases attr.quote
    all_goals decide
  rw [attr.encode_quoted, List.cons_append, Construct.splitTagOnto]
  simp only [if_neg marks.1, if_pos marks.2]
  rw [List.append_assoc, List.singleton_append, splitTagOnto_some attr.quote_notMem]
  simp

theorem name (name : Name) : PassedInTag (encode name.chars) := by
  have marks : ∀ c ∈ ['>', '"', '\''], c.toNat < 0x80 ∧ isNameChar c = false := List.all_iff_forall_prop.1 (by decide)
  exact of_notMem fun c mem => name.ascii_notMem (marks c mem)

theorem blanks (blanks : Blanks) : PassedInTag (encode blanks.chars) := by
  have marks : ∀ c ∈ ['>', '"', '\''], c.toNat < 0x80 ∧ c ∉ blankChars := List.all_iff_forall_prop.1 (by decide)
  exact of_notMem fun c mem => blanks.ascii_notMem (marks c mem)

theorem ofAttribute (attr : SpelledAttribute) : PassedInTag (encode attr.chars) := by
  have equals : PassedInTag (encode ['=']) := of_notMem (List.all_iff_forall_prop.1 (by decide))
  have value := (blanks attr.afterEquals).append (quoted attr)
  have equals := (blanks attr.beforeEquals).append (equals.append value)
  have all := (blanks attr.before).append ((name attr.name).append equals)
  simpa only [SpelledAttribute.chars, Text.Utf8.encode_append, Text.Utf8.encode_cons, Text.Utf8.encode_nil,
    List.append_nil] using all

theorem spelledTag (tag : SpelledTag) : PassedInTag (encode tag.chars) := by
  have attributes : PassedInTag (tag.attributes.flatMap fun attr => encode attr.chars) :=
    flatMap fun attr _ => ofAttribute attr
  have all := (name tag.name).append (attributes.append (blanks tag.after))
  simpa only [SpelledTag.chars, SpelledTag.attributeChars, Text.Utf8.encode_append, Text.Utf8.encode_flatMap] using all

end PassedInTag

/-- A tag ends at the bracket that closes it. -/
theorem PassedInTag.split {bytes : List UInt8} (h : PassedInTag bytes) (rest : List UInt8) :
    Construct.splitTagOnto none [] (bytes ++ ascii '>' :: rest) = some (bytes, rest) := by
  rw [h, Construct.splitTagOnto]
  simp

/-! ### The attributes of a tag -/

namespace TagCursor

theorem takeWhile_append {p : UInt8 → Bool} {taken rest : List UInt8} (all : ∀ b ∈ taken, p b = true)
    (stop : ∀ b ∈ rest.head?, p b = false) (position : Nat) :
    TagCursor.takeWhile p ⟨position, taken ++ rest⟩ = (taken, ⟨position + taken.length, rest⟩) := by
  have tail : rest.takeWhile p = [] ∧ rest.dropWhile p = rest := by
    cases rest with
    | nil => exact ⟨rfl, rfl⟩
    | cons b rest => simp [stop b rfl]
  rw [TagCursor.takeWhile, List.takeWhile_append_of_pos all, List.dropWhile_append_of_pos all, tail.1, tail.2,
    List.append_nil]

theorem skipBlanks_append (blanks : Blanks) {rest : List UInt8} (stop : ∀ b ∈ rest.head?, isBlank b = false)
    (position : Nat) :
    TagCursor.skipBlanks ⟨position, encode blanks.chars ++ rest⟩ =
      ⟨position + (encode blanks.chars).length, rest⟩ :=
  congrArg Prod.snd (takeWhile_append blanks.isBlank_of_mem stop position)

/-- The value of an attribute, after its `=`. -/
theorem value_quoted (attr : SpelledAttribute) (position : Nat) (rest : List UInt8) :
    ∃ past, TagCursor.value ⟨position, encode (attr.afterEquals.chars ++ attr.quoted) ++ rest⟩ =
      .ok (encode (spell attr.value), ⟨past, rest⟩) := by
  have firm : isBlank (ascii attr.quote.char) = false := by
    cases attr.quote
    all_goals rfl
  have isQuote : ¬ (ascii attr.quote.char ≠ ascii '"' ∧ ascii attr.quote.char ≠ ascii '\'') := by
    cases attr.quote
    all_goals decide
  have inside : ∀ b ∈ encode (spell attr.value), decide (b ≠ ascii attr.quote.char) = true := by
    intro b mem
    exact decide_eq_true fun e => attr.quote_notMem (e ▸ mem)
  have taken (position : Nat) := @takeWhile_append (· ≠ ascii attr.quote.char) _ (ascii attr.quote.char :: rest) inside
    (by simp) position
  rw [Text.Utf8.encode_append, attr.encode_quoted, List.append_assoc, TagCursor.value,
    skipBlanks_append _ (by simpa using firm)]
  simp only [List.cons_append, List.append_assoc, List.nil_append, if_neg isQuote, taken]
  exact ⟨_, rfl⟩

end TagCursor

/-- The bytes of an attribute after those of its name. -/
private theorem encode_afterName (attr : SpelledAttribute) (rest : List UInt8) :
    encode (attr.beforeEquals.chars ++ '=' :: (attr.afterEquals.chars ++ attr.quoted)) ++ rest =
      encode attr.beforeEquals.chars ++
        ascii '=' :: (encode (attr.afterEquals.chars ++ attr.quoted) ++ rest) := by
  have equals : String.utf8EncodeChar '=' = [ascii '='] := rfl
  rw [Text.Utf8.encode_append, Text.Utf8.encode_cons, equals, List.append_assoc, List.append_assoc,
    List.singleton_append]

/-- An attribute with a name of its own is read. -/
private theorem attributeAt_spelled {attr : SpelledAttribute} {read : List RawAttribute}
    (fresh : ∀ other ∈ read, other.key ≠ encode attr.name.chars) {first : UInt8} {key : List UInt8}
    (written : encode attr.name.chars = first :: key) (start : Nat) (rest : List UInt8) :
    ∃ past, attributeAt read start first
        (key ++ (encode (attr.beforeEquals.chars ++ '=' :: (attr.afterEquals.chars ++ attr.quoted)) ++ rest)) =
      .ok (⟨start, encode attr.name.chars, encode (spell attr.value)⟩, ⟨past, rest⟩) := by
  have inKey : ∀ b ∈ key, (!endsKey b) = true := by
    intro b mem
    have inName : b ∈ encode attr.name.chars := written ▸ List.mem_cons_of_mem first mem
    have ne : b ≠ ascii '=' := fun e => attr.name.ascii_notMem (by decide) (e ▸ inName)
    simp [endsKey, attr.name.isBlank_of_mem b inName, ne]
  have afterKey : ∀ b ∈ (encode attr.beforeEquals.chars ++
      ascii '=' :: (encode (attr.afterEquals.chars ++ attr.quoted) ++ rest)).head?, (!endsKey b) = false := by
    intro b mem
    cases blanks : encode attr.beforeEquals.chars with
    | nil =>
      rw [blanks] at mem
      cases mem
      rfl
    | cons b' bytes =>
      have blank := attr.beforeEquals.isBlank_of_mem b' (blanks ▸ List.mem_cons_self)
      rw [blanks] at mem
      cases mem
      simp [endsKey, blank]
  have unread : read.find? (·.key = first :: key) = none := by
    rw [List.find?_eq_none]
    intro other mem
    simpa [written] using fresh other mem
  have firm : ∀ b ∈ (ascii '=' :: (encode (attr.afterEquals.chars ++ attr.quoted) ++ rest)).head?,
      isBlank b = false := by simp [show isBlank (ascii '=') = false from rfl]
  rw [encode_afterName, attributeAt, TagCursor.takeWhile_append inKey afterKey]
  simp only [TagCursor.skipBlanks_append _ firm, unread, ne_eq, not_true_eq_false, if_false]
  obtain ⟨past, value⟩ := TagCursor.value_quoted attr
    (start + 1 + key.length + (encode attr.beforeEquals.chars).length + 1) rest
  rw [value, written]
  exact ⟨past, rfl⟩

private theorem attributesOnto_end {read : List RawAttribute} {cursor : TagCursor} (h : cursor.skipBlanks.rest = []) :
    attributesOnto read cursor = (read.reverse, none) := by
  rw [attributesOnto]
  split
  · rfl
  · next more =>
    rw [h] at more
    cases more

private theorem attributesOnto_next {read : List RawAttribute} {cursor after : TagCursor} {found : RawAttribute}
    {first : UInt8} {rest : List UInt8} (h : cursor.skipBlanks.rest = first :: rest)
    (next : attributeAt read cursor.skipBlanks.position first rest = .ok (found, after)) :
    attributesOnto read cursor = attributesOnto (found :: read) after := by
  rw [attributesOnto]
  split
  · next none =>
    rw [h] at none
    cases none
  · next more =>
    rw [h] at more
    cases more
    split
    · next fault =>
      rw [next] at fault
      cases fault
    · next some =>
      rw [next] at some
      cases some
      rfl

/-- What is read of an attribute: its name and its value. -/
def SpelledAttribute.Reads (attr : SpelledAttribute) (found : RawAttribute) : Prop :=
  found.key = encode attr.name.chars ∧ found.value = encode (spell attr.value)

/-- Exactly the spelled attributes are read, provided that their names differ from each other and from those already
read. -/
theorem attributesOnto_spelled {attributes : List SpelledAttribute} {read : List RawAttribute}
    (distinct : (attributes.map fun attr => attr.name.chars).Nodup)
    (fresh : ∀ attr ∈ attributes, ∀ other ∈ read, other.key ≠ encode attr.name.chars) (after : Blanks)
    (position : Nat) :
    ∃ found, attributesOnto read ⟨position, encode (attributes.flatMap SpelledAttribute.chars ++ after.chars)⟩ =
        (read.reverse ++ found, none) ∧ List.Forall₂ SpelledAttribute.Reads attributes found := by
  induction attributes generalizing read position with
  | nil =>
    have blanks := @TagCursor.skipBlanks_append after [] (by simp) position
    rw [List.append_nil] at blanks
    refine ⟨[], ?_, .nil⟩
    rw [List.flatMap_nil, List.nil_append, attributesOnto_end (by rw [blanks]), List.append_nil]
  | cons attr attributes ih =>
    rw [List.map_cons, List.nodup_cons] at distinct
    obtain ⟨freshName, freshOthers⟩ := List.forall_mem_cons.1 fresh
    obtain ⟨first, key, written⟩ := attr.name.exists_encode_eq_cons
    have firm : isBlank first = false := attr.name.isBlank_of_mem first (by rw [written]; exact List.mem_cons_self)
    have bytes : encode ((attr :: attributes).flatMap SpelledAttribute.chars ++ after.chars) =
        encode attr.before.chars ++ first :: (key ++
          (encode (attr.beforeEquals.chars ++ '=' :: (attr.afterEquals.chars ++ attr.quoted)) ++
            encode (attributes.flatMap SpelledAttribute.chars ++ after.chars))) := by
      rw [← List.cons_append, ← written]
      simp only [List.flatMap_cons, SpelledAttribute.chars, Text.Utf8.encode_append, List.append_assoc]
    obtain ⟨start, blanks⟩ : ∃ start, ∀ rest,
        TagCursor.skipBlanks ⟨position, encode attr.before.chars ++ first :: rest⟩ = ⟨start, first :: rest⟩ :=
      ⟨_, fun rest => TagCursor.skipBlanks_append attr.before (by simpa using firm) position⟩
    obtain ⟨past, next⟩ := attributeAt_spelled freshName written start
      (encode (attributes.flatMap SpelledAttribute.chars ++ after.chars))
    have freshNext : ∀ other ∈ attributes,
        ∀ earlier ∈ ⟨start, encode attr.name.chars, encode (spell attr.value)⟩ :: read,
          earlier.key ≠ encode other.name.chars := by
      intro other mem
      refine List.forall_mem_cons.2 ⟨fun e => ?_, freshOthers other mem⟩
      exact distinct.1 (List.mem_map.2 ⟨other, mem, (Text.Utf8.encode_injective e).symm⟩)
    obtain ⟨found, others, reads⟩ := ih distinct.2 freshNext past
    refine ⟨⟨start, encode attr.name.chars, encode (spell attr.value)⟩ :: found, ?_, .cons ⟨rfl, rfl⟩ reads⟩
    rw [bytes, attributesOnto_next (by rw [blanks]) (by rw [blanks]; exact next), others]
    simp

/-! ### Checks -/

/-- What follows the name of an element starts with a blank, if there is anything. -/
private theorem isBlank_head?_attributeChars (tag : SpelledTag) :
    ∀ b ∈ (encode tag.attributeChars).head?, (!isBlank b) = false := by
  intro b first
  have blank (blanks : Blanks) {rest : List UInt8} (some : blanks.chars ≠ [])
      (first : b ∈ (encode blanks.chars ++ rest).head?) : (!isBlank b) = false := by
    obtain ⟨b', bytes, e⟩ := List.exists_cons_of_ne_nil (Text.Utf8.encode_ne_nil some)
    rw [e] at first
    cases first
    rw [blanks.isBlank_of_mem b (by rw [e]; exact List.mem_cons_self)]
    rfl
  rw [SpelledTag.attributeChars] at first
  cases attributes : tag.attributes with
  | nil =>
    rw [attributes, List.flatMap_nil, List.nil_append] at first
    by_cases some : tag.after.chars = []
    · rw [some] at first
      cases first
    · exact blank tag.after some (by rwa [List.append_nil])
  | cons attr others =>
    rw [attributes, List.flatMap_cons, SpelledAttribute.chars, List.append_assoc, List.append_assoc,
      Text.Utf8.encode_append] at first
    exact blank attr.before attr.apart first

theorem tagName_spelledTag (tag : SpelledTag) : tagName (encode tag.chars) = encode tag.name.chars := by
  have inside : ∀ b ∈ encode tag.name.chars, (!isBlank b) = true := by
    intro b mem
    rw [tag.name.isBlank_of_mem b mem]
    rfl
  rw [SpelledTag.chars, Text.Utf8.encode_append]
  exact congrArg Prod.fst (TagCursor.takeWhile_append inside (isBlank_head?_attributeChars tag) 0)

/-- A spelled attribute passes the checks. -/
theorem checkAttribute_spelled {attr : SpelledAttribute} {found : RawAttribute} (h : attr.Reads found)
    (element : String) : checkAttribute element found = .ok () := by
  have key : isName (Text.Utf8.decodeLossy found.key) = true := by
    rw [h.1, Text.Utf8.decodeLossy_encode]
    exact attr.name.isName_text
  have bracket : found.value.contains (ascii '<') = false := by
    rw [h.2, ← Bool.not_eq_true, List.contains_iff_mem]
    exact attr.openBracket_notMem
  have value : unescape found.value = .ok (String.ofList (attr.value.map Spelling.char)) := by
    rw [h.2]
    exact unescape_spell (by simp) attr.avoids
  simp only [checkAttribute, key, bracket, value]
  rfl

private theorem forM_checkAttribute {attributes : List SpelledAttribute} {found : List RawAttribute}
    (reads : List.Forall₂ SpelledAttribute.Reads attributes found) (element : String) :
    found.forM (checkAttribute element) = .ok () := by
  induction reads with
  | nil => rfl
  | cons first _ ih =>
    rw [List.forM, checkAttribute_spelled first]
    exact ih

/-- A spelled tag passes the checks, as that of an element with the spelled name. -/
theorem checkTag_spelledTag (tag : SpelledTag) : checkTag (encode tag.chars) = .ok tag.name.text := by
  obtain ⟨found, read, reads⟩ := @attributesOnto_spelled _ [] tag.distinct (by simp) tag.after
    (encode tag.name.chars).length
  have attributes : tagAttributes (encode tag.chars) = (found, none) := by
    rw [tagAttributes, tagName_spelledTag, SpelledTag.chars, Text.Utf8.encode_append, List.drop_left]
    exact read
  have name : Text.Utf8.decode (encode tag.name.chars) = .ok tag.name.text := Text.Utf8.decode_encode _
  simp only [checkTag, tagName_spelledTag, name, attributes]
  simp only [Except.mapError, bind, Except.bind, tag.name.isName_text, Bool.not_true, Bool.false_eq_true, if_false,
    forM_checkAttribute reads]
  rfl

end ClassCensus.Layout
