import ClassCensus.Proofs.Layout.OutlineStep
import ClassCensus.Proofs.Layout.Scanning

/-!
# Documents as they are spelled

A `SpelledDocument` is a tree of elements with all that a document may say beside it: text, comments, sections of
character data and processing instructions between the tags, and comments, instructions and blanks around the root.  Its
dotted names are exactly the names of its elements that contain a dot, at any depth (`dottedNames_spelled`).

* (elements) an element leaves the elements that stand open as they are, and adds the dotted names of its tree
  (`Outline.passes_element`);
* (texts) texts that stand side by side are one text for the scan, so the content of an element is read with the text
  that still waits in front of it (`exists_scan_content`).
-/

namespace ClassCensus.Layout

open Text.Utf8 (encode)

mutual

/-- An element: a tag alone, or two tags with the content between them. -/
inductive Element where
  | empty (tag : SpelledTag)
  | filled (tag : SpelledTag) (content : List Node) (beforeEnd : Blanks)

/-- What the content of an element consists of. -/
inductive Node where
  | element (element : Element)
  | text (spellings : List Spelling) (avoids : ∀ spelling ∈ spellings, spelling.Avoids ['&', '<'])
  | comment (comment : Comment)
  | cdata (data : CharacterData)
  | instruction (instruction : Instruction)

end

/-- What may stand before and after the root element. -/
inductive Misc where
  | comment (comment : Comment)
  | instruction (instruction : Instruction)
  | blanks (blanks : Blanks)

/-- A document; a byte order mark and a declaration may stand in front. -/
structure SpelledDocument where
  marked : Bool
  declaration : Option { declaration : Instruction // declaration.target.text = "xml" }
  before : List Misc
  root : Element
  after : List Misc

mutual

/-- The characters of an element. -/
def Element.chars : Element → List Char
  | .empty tag => '<' :: (tag.chars ++ ['/', '>'])
  | .filled tag content beforeEnd =>
    '<' :: (tag.chars ++ ['>']) ++ (contentChars content ++
      '<' :: ('/' :: (tag.name.chars ++ beforeEnd.chars) ++ ['>']))

/-- The characters of a part of the content of an element. -/
def Node.chars : Node → List Char
  | .element element => element.chars
  | .text spellings _ => spell spellings
  | .comment comment => '<' :: (comment.content ++ ['>'])
  | .cdata data => '<' :: (data.content ++ ['>'])
  | .instruction instruction => '<' :: (instruction.content ++ ['>'])

/-- The characters of the content of an element. -/
def contentChars : List Node → List Char
  | [] => []
  | node :: nodes => node.chars ++ contentChars nodes

end

/-- The characters of what stands beside the root. -/
def Misc.chars : Misc → List Char
  | .comment found => '<' :: (found.content ++ ['>'])
  | .instruction found => '<' :: (found.content ++ ['>'])
  | .blanks found => found.chars

/-- The characters of a document after the byte order mark. -/
def SpelledDocument.body (document : SpelledDocument) : List Char :=
  (match document.declaration with
    | some declaration => '<' :: (declaration.val.content ++ ['>'])
    | none => []) ++
  (document.before.flatMap Misc.chars ++ (document.root.chars ++ document.after.flatMap Misc.chars))

/-- The characters of a document. -/
def SpelledDocument.chars (document : SpelledDocument) : List Char :=
  if document.marked then '\uFEFF' :: document.body else document.body

mutual

/-- The names of an element and of all elements in it. -/
def Element.names : Element → List String
  | .empty tag => [tag.name.text]
  | .filled tag content _ => tag.name.text :: contentNames content

/-- The names of the elements in a part of the content of an element. -/
def Node.names : Node → List String
  | .element element => element.names
  | .text _ _ | .comment _ | .cdata _ | .instruction _ => []

/-- The names of the elements in the content of an element. -/
def contentNames : List Node → List String
  | [] => []
  | node :: nodes => node.names ++ contentNames nodes

end

/-! ### Elements -/

namespace Outline

variable {outline : Outline}

theorem element_spelled (start : outline.MayStart) (tag : SpelledTag) (past : Nat) :
    outline.element (encode tag.chars) past = .ok (tag.name.text, outline.adding [tag.name.text]) :=
  element_eq_ok_iff.2 ⟨start, checkTag_spelledTag tag, rfl⟩

theorem passes_empty (start : outline.MayStart) (tag : SpelledTag) :
    outline.Passes (encode ('<' :: (tag.chars ++ ['/', '>']))) (outline.adding [tag.name.text]) := by
  refine .of_isConstruct (isConstruct_empty tag) fun _ past => ?_
  simp only [step, element_spelled start]
  rfl

theorem passes_opening (start : outline.MayStart) (tag : SpelledTag) :
    outline.Passes (encode ('<' :: (tag.chars ++ ['>']))) (outline.entering tag.name.text) := by
  refine .of_isConstruct (isConstruct_opening tag) fun _ past => ?_
  simp only [step, element_spelled start]
  rfl

theorem passes_closing (name : Name) (beforeEnd : Blanks) (names : List String) :
    ((outline.entering name.text).adding names).Passes
      (encode ('<' :: ('/' :: (name.chars ++ beforeEnd.chars) ++ ['>']))) (outline.adding (name.text :: names)) := by
  refine .of_isConstruct (isConstruct_closing name beforeEnd) fun start _ => ?_
  have found : Text.Utf8.decode (encode name.chars) = .ok name.text := Text.Utf8.decode_encode _
  have same : (outline.adding (name.text :: names)) = (outline.adding [name.text]).adding names :=
    (adding_adding [name.text] names).symm
  simp only [step, close, found, same]
  exact if_pos rfl

/-- What starts with a `<` is passed over after the text that waits in front of it. -/
private theorem exists_scan_next {middle : Outline} (inside : outline.opened ≠ []) {waiting : List Spelling}
    (avoids : ∀ spelling ∈ waiting, spelling.Avoids ['&', '<']) {chars : List Char}
    (bracket : chars.head? = some '<') (passes : outline.Passes (encode chars) middle) (more : List Char)
    (offset : Nat) (rest : List UInt8) :
    ∃ past, outline.scan offset (encode (spell waiting ++ (chars ++ more)) ++ rest) =
      middle.scan past (encode ([] ++ more) ++ rest) := by
  obtain ⟨tail, rfl⟩ := List.head?_eq_some_iff.1 bracket
  obtain ⟨middleOffset, text⟩ := exists_scan_text inside avoids offset
    (show (encode ('<' :: tail ++ more) ++ rest).head? = some (ascii '<') from rfl)
  obtain ⟨past, next⟩ := passes middleOffset (encode more ++ rest)
  refine ⟨past, ?_⟩
  rw [Text.Utf8.encode_append, List.append_assoc, text, Text.Utf8.encode_append, List.append_assoc, next]
  rfl

theorem head?_chars (element : Element) : element.chars.head? = some '<' := by
  cases element
  all_goals
    rw [Element.chars]
    rfl

mutual

/-- An element adds its names, and leaves the elements that stand open as they are. -/
theorem passes_element (element : Element) {outline : Outline} (start : outline.MayStart) :
    outline.Passes (encode element.chars) (outline.adding element.names) := by
  match element with
  | .empty tag =>
    rw [Element.chars, Element.names]
    exact passes_empty start tag
  | .filled tag content beforeEnd =>
    intro offset rest
    have inside : (outline.entering tag.name.text).opened ≠ [] := List.cons_ne_nil _ _
    have bracket : (encode ('<' :: ('/' :: (tag.name.chars ++ beforeEnd.chars) ++ ['>'])) ++ rest).head? =
        some (ascii '<') := rfl
    obtain ⟨offset, opening⟩ := passes_opening start tag offset
      (encode (contentChars content ++ '<' :: ('/' :: (tag.name.chars ++ beforeEnd.chars) ++ ['>'])) ++ rest)
    obtain ⟨offset, inner⟩ := exists_scan_content content inside rfl [] (by simp) offset bracket
    obtain ⟨past, closing⟩ := passes_closing tag.name beforeEnd (contentNames content) offset rest
    refine ⟨past, ?_⟩
    rw [Element.chars, Element.names, Text.Utf8.encode_append, List.append_assoc, opening, Text.Utf8.encode_append,
      List.append_assoc]
    exact inner.trans closing

/-- A part of the content of an element is text, or it starts with a `<` and adds the names in it. -/
theorem text_or_passes_node (node : Node) {outline : Outline} (inside : outline.opened ≠ [])
    (seen : outline.rootSeen = true) :
    (∃ spellings avoids, node = .text spellings avoids) ∨
      node.chars.head? = some '<' ∧ outline.Passes (encode node.chars) (outline.adding node.names) := by
  match node with
  | .element element =>
    rw [Node.chars, Node.names]
    exact .inr ⟨head?_chars element, passes_element element fun none => absurd none inside⟩
  | .text spellings avoids => exact .inl ⟨spellings, avoids, rfl⟩
  | .comment comment =>
    rw [Node.chars, Node.names, adding_nil seen]
    exact .inr ⟨rfl, .comment comment⟩
  | .cdata data =>
    rw [Node.chars, Node.names, adding_nil seen]
    exact .inr ⟨rfl, .cdata inside data⟩
  | .instruction instruction =>
    rw [Node.chars, Node.names, adding_nil seen]
    exact .inr ⟨rfl, .instruction instruction⟩

/-- The content of an element adds the names in it.  Text waits in front of it, and a `<` follows. -/
theorem exists_scan_content (content : List Node) {outline : Outline} (inside : outline.opened ≠ [])
    (seen : outline.rootSeen = true) (waiting : List Spelling)
    (avoids : ∀ spelling ∈ waiting, spelling.Avoids ['&', '<']) (offset : Nat) {rest : List UInt8}
    (bracket : rest.head? = some (ascii '<')) :
    ∃ past, outline.scan offset (encode (spell waiting ++ contentChars content) ++ rest) =
      (outline.adding (contentNames content)).scan past rest := by
  match content with
  | [] =>
    rw [contentChars, contentNames, List.append_nil, adding_nil seen]
    exact exists_scan_text inside avoids offset bracket
  | node :: nodes =>
    rw [contentChars, contentNames, ← adding_adding]
    rcases text_or_passes_node node inside seen with ⟨spellings, legal, rfl⟩ | ⟨first, passes⟩
    · -- the text waits together with the one before it
      have all := List.forall_mem_append.2 ⟨avoids, legal⟩
      rw [Node.chars, Node.names, adding_nil seen, ← List.append_assoc, ← spell_append]
      exact exists_scan_content nodes inside seen (waiting ++ spellings) all offset bracket
    · have inside' : (outline.adding node.names).opened ≠ [] := inside
      obtain ⟨offset, next⟩ := exists_scan_next inside avoids first passes (contentChars nodes) offset rest
      obtain ⟨past, others⟩ := exists_scan_content nodes inside' rfl [] (by simp) offset bracket
      exact ⟨past, next.trans others⟩

end

theorem passes_misc (misc : Misc) : outline.Passes (encode misc.chars) outline := by
  cases misc with
  | comment found => exact .comment found
  | instruction found => exact .instruction found
  | blanks found => exact .blanks found

theorem passes_miscs (miscs : List Misc) : outline.Passes (encode (miscs.flatMap Misc.chars)) outline := by
  induction miscs with
  | nil => exact .nil
  | cons misc miscs ih =>
    rw [List.flatMap_cons, Text.Utf8.encode_append]
    exact (passes_misc misc).append ih

/-- What follows the byte order mark is passed over from the start, and leaves no element open. -/
theorem passes_body (document : SpelledDocument) :
    Outline.start.Passes (encode document.body) (Outline.start.adding document.root.names) := by
  have root : Outline.start.Passes _ _ := passes_element document.root fun _ => rfl
  have rest := (passes_miscs document.before).append (root.append (passes_miscs document.after))
  rw [SpelledDocument.body, Text.Utf8.encode_append, Text.Utf8.encode_append, Text.Utf8.encode_append]
  cases document.declaration with
  | none => exact rest
  | some declaration => exact Passes.append (.instruction declaration.val) rest

end Outline

/-! ### Documents -/

/-- The text starts with a bracket or a blank. -/
private def StartsPlainly (chars : List Char) : Prop :=
  ∃ c ∈ '<' :: blankChars, chars.head? = some c

private theorem startsPlainly_miscs (miscs : List Misc) {rest : List Char} (h : StartsPlainly rest) :
    StartsPlainly (miscs.flatMap Misc.chars ++ rest) := by
  induction miscs with
  | nil => exact h
  | cons misc miscs ih =>
    rw [List.flatMap_cons, List.append_assoc]
    match misc with
    | .comment _ | .instruction _ => exact ⟨'<', List.mem_cons_self, rfl⟩
    | .blanks ⟨[], _⟩ => exact ih
    | .blanks ⟨c :: chars, blank⟩ => exact ⟨c, List.mem_cons_of_mem _ (blank c List.mem_cons_self), rfl⟩

private theorem startsPlainly_body (document : SpelledDocument) : StartsPlainly document.body := by
  have root : StartsPlainly (document.root.chars ++ document.after.flatMap Misc.chars) := by
    refine ⟨'<', List.mem_cons_self, ?_⟩
    rw [List.head?_append, Outline.head?_chars]
    rfl
  rw [SpelledDocument.body]
  cases document.declaration with
  | none => exact startsPlainly_miscs document.before root
  | some _ => exact ⟨'<', List.mem_cons_self, rfl⟩

/-- A byte order mark in front of a document is not read. -/
private theorem drop_byteOrderMark (document : SpelledDocument) :
    (if byteOrderMark.isPrefixOf (encode document.chars) then (encode document.chars).drop 3
      else encode document.chars) = encode document.body := by
  rw [SpelledDocument.chars]
  split
  · exact if_pos rfl
  · obtain ⟨c, plain, first⟩ := startsPlainly_body document
    obtain ⟨rest, e⟩ := List.head?_eq_some_iff.1 first
    have unmarked : ∀ c ∈ '<' :: blankChars, ∀ rest, byteOrderMark.isPrefixOf (encode (c :: rest)) = false := by
      simp only [blankChars, List.forall_mem_cons]
      exact ⟨fun _ => rfl, fun _ => rfl, fun _ => rfl, fun _ => rfl, fun _ => rfl, by simp⟩
    rw [e, unmarked c plain rest]
    rfl

/-- The dotted names of a document are exactly the names of its elements that contain a dot. -/
theorem dottedNames_spelled (document : SpelledDocument) :
    ∃ names, dottedNames (encode document.chars) = .ok names ∧
      ∀ name, name ∈ names ↔ name ∈ document.root.names ∧ '.' ∈ name.toList := by
  obtain ⟨past, scanned⟩ := Outline.passes_body document 0 []
  refine ⟨NameSet.ofList (Outline.start.adding document.root.names).dotted, ?_, ?_⟩
  · rw [dottedNames_eq_scan, drop_byteOrderMark]
    rw [List.append_nil, Outline.scan_nil] at scanned
    rw [scanned]
    rfl
  · intro name
    rw [NameSet.mem_ofList]
    simp [Outline.adding, Outline.start, Outline.isDotted]

end ClassCensus.Layout
