import ClassCensus.Proofs.Layout.AcceptedLayout
import ClassCensus.Proofs.Layout.NameProduction

/-!
# Names in the tags of layouts

The name of an element has to be a name in UTF-8 as it stands.  The key of an attribute is read with loss before it is
looked at, and the replacement character may start a name and stand in one: so a key is a name once it has been
repaired, and one in the document only if there was nothing to repair (`dottedNames_named`).  A layout with a key that
is no text at all is accepted (`dottedNames_brokenKey`).
-/

namespace ClassCensus.Layout

open Text.Utf8 (encode)

/-- The content of a tag that starts an element. -/
def Event.tag? : Event → Option (List UInt8)
  | .opening content | .empty content => some content
  | .closing _ | .text _ | .cdata | .comment | .instruction | .declaration | .doctype => none

/-- The contents of the start tags in a document, those of empty elements included. -/
def tagsIn (document : List UInt8) : List (List UInt8) :=
  (eventsIn document).filterMap Event.tag?

/-- The bytes are a name, written in UTF-8. -/
def SpellName (bytes : List UInt8) : Prop :=
  ∃ name : Name, bytes = encode name.chars

theorem isName_iff {text : String} : isName text = true ↔ ∃ name : Name, text = name.text := by
  constructor
  · intro h
    unfold isName at h
    split at h
    · cases h
    · next first others e =>
      obtain ⟨start, all⟩ := Bool.and_eq_true_iff.1 h
      let name : Name := ⟨first, others, isNameStart_iff.1 start, fun c mem =>
        isNameChar_iff.1 (List.all_eq_true.1 all c mem)⟩
      refine ⟨name, ?_⟩
      rw [Name.text, Name.chars, ← e, String.ofList_toList]
  · rintro ⟨name, rfl⟩
    exact name.isName_text

theorem spellName_iff {bytes : List UInt8} :
    SpellName bytes ↔ ∃ text, Text.Utf8.decode bytes = .ok text ∧ isName text = true := by
  constructor
  · rintro ⟨name, rfl⟩
    exact ⟨name.text, Text.Utf8.decode_encode name.chars, name.isName_text⟩
  · rintro ⟨text, read, h⟩
    obtain ⟨name, rfl⟩ := isName_iff.1 h
    exact ⟨name, by rw [Text.Utf8.decode_eq_ok_iff.1 read, Name.text, String.toList_ofList]⟩

/-- What is a name after a reading with loss is a name before it exactly if nothing is lost. -/
theorem spellName_iff_of_lossy {bytes : List UInt8} (repaired : isName (Text.Utf8.decodeLossy bytes) = true) :
    SpellName bytes ↔ ∃ text, Text.Utf8.decode bytes = .ok text := by
  rw [spellName_iff]
  refine exists_congr fun text => and_iff_left_of_imp fun read => ?_
  rwa [Text.Utf8.decode_eq_ok_iff.1 read, Text.Utf8.decodeLossy_encode, String.ofList_toList] at repaired

/-- The names in a sound tag. -/
structure TagNamed (content : List UInt8) : Prop where
  element : SpellName (tagName content)
  /-- The keys of attributes are names after they have been repaired. -/
  keys : ∀ found ∈ (tagAttributes content).1, ∃ name : Name, Text.Utf8.decodeLossy found.key = name.text

theorem tagNamed_of_checkTag {content : List UInt8} {element : String} (h : checkTag content = .ok element) :
    TagNamed content := by
  obtain ⟨name, isElement, checked, -⟩ := checkTag_eq_ok_iff.1 h
  constructor
  · exact spellName_iff.2 ⟨element, Text.Utf8.decode_eq_ok_iff.2 name, isElement⟩
  · intro found mem
    exact isName_iff.1 (checkAttribute_eq_ok_iff.1 (checked found mem)).1

theorem exists_checkTag {events : List Event} (sound : ∀ event ∈ events, event.Sound) {content : List UInt8}
    (mem : content ∈ events.filterMap Event.tag?) : ∃ element, checkTag content = .ok element := by
  obtain ⟨event, listed, tag⟩ := List.mem_filterMap.1 mem
  have checked := sound event listed
  cases event with
  | opening | empty =>
    obtain rfl := Option.some.inj tag
    exact checked
  | closing | text | cdata | comment | instruction | declaration | doctype => cases tag

/-- In an accepted layout the name of every element is a name, and so is the key of every attribute that is a text; the
other keys are names when they have been repaired.  A layout with other names is refused. -/
theorem dottedNames_named (document : List UInt8) :
    (∀ names, dottedNames document = .ok names → ∀ content ∈ tagsIn document, TagNamed content ∧
      ∀ found ∈ (tagAttributes content).1, SpellName found.key ↔ ∃ text, Text.Utf8.decode found.key = .ok text) ∧
    ((∃ content ∈ tagsIn document, ¬ TagNamed content) → ∃ fault, dottedNames document = .error fault) := by
  have named {names : NameSet} (accepted : dottedNames document = .ok names) :
      ∀ content ∈ tagsIn document, TagNamed content := by
    intro content mem
    obtain ⟨-, one, -⟩ := dottedNames_eq_ok_iff.1 accepted
    obtain ⟨element, checked⟩ := exists_checkTag one.sound mem
    exact tagNamed_of_checkTag checked
  constructor
  · intro names accepted content mem
    have tag := named accepted content mem
    refine ⟨tag, fun found listed => ?_⟩
    exact spellName_iff_of_lossy (isName_iff.2 (tag.keys found listed))
  · rintro ⟨content, mem, other⟩
    cases result : dottedNames document with
    | error fault => exact ⟨fault, rfl⟩
    | ok names => exact absurd (named result content mem) other

/-- A layout whose names have characters of several bytes, and one with a digit for a name in it. -/
def accentedLayout : List UInt8 :=
  encode "<é.v ü:à='1'/>".toList

def numberedLayout : List UInt8 :=
  asciiText "<a><1 b='c'/></a>"

theorem dottedNames_named_accented :
    (dottedNames accentedLayout = .ok (NameSet.ofList ["é.v"]) ∧ ∀ content ∈ tagsIn accentedLayout,
      TagNamed content ∧ ∀ found ∈ (tagAttributes content).1,
        SpellName found.key ↔ ∃ text, Text.Utf8.decode found.key = .ok text) ∧
    (∃ content ∈ tagsIn numberedLayout, ¬ TagNamed content) ∧
      ∃ fault, dottedNames numberedLayout = .error fault := by
  have accepted : dottedNames accentedLayout = .ok (NameSet.ofList ["é.v"]) := by decide +kernel
  have other : ∃ content ∈ tagsIn numberedLayout, ¬ TagNamed content := by
    refine ⟨asciiText "1 b='c'", by decide +kernel, fun tag => ?_⟩
    obtain ⟨text, read, isName⟩ := spellName_iff.1 tag.element
    rw [show Text.Utf8.decode (tagName (asciiText "1 b='c'")) = .ok "1" by decide +kernel] at read
    cases read
    revert isName
    decide
  exact ⟨⟨accepted, (dottedNames_named accentedLayout).1 _ accepted⟩, other, (dottedNames_named numberedLayout).2 other⟩

/-- The layout `<a ?="1"/>` with a byte in place of `?` that no text has. -/
def brokenKeyLayout : List UInt8 :=
  asciiText "<a " ++ 0xFF :: asciiText "=\"1\"/>"

/-- A layout may have an attribute whose key is no name. -/
theorem dottedNames_brokenKey :
    dottedNames brokenKeyLayout = .ok ∅ ∧ ∃ content ∈ tagsIn brokenKeyLayout, ∃ found ∈ (tagAttributes content).1,
      found.key = [0xFF] ∧ ¬ SpellName found.key := by
  have key : ¬ SpellName [0xFF] := by
    intro h
    obtain ⟨text, read, -⟩ := spellName_iff.1 h
    rw [show Text.Utf8.decode [0xFF] = .error ⟨0, some 1⟩ by decide +kernel] at read
    cases read
  refine ⟨by decide +kernel, asciiText "a " ++ 0xFF :: asciiText "=\"1\"", by decide +kernel, ⟨2, [0xFF], [0x31]⟩, ?_,
    rfl, key⟩
  decide +kernel

end ClassCensus.Layout
