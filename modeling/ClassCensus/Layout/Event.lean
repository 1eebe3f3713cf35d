import ClassCensus.Layout.Character

/-!
# Events of a document

A document is a sequence of constructs: tags, sections of character data, comments, document type declarations,
processing instructions, and the text between them. `eventsOf` cuts the bytes of a document into constructs and reads
what kind of event each one is; names, attributes and references are left as they stand.

* (ends) `Construct.split?` finds the end of a construct after its `<`: the first `>` that stands in no quotes, or
  that follows the mark that closes the construct, or that balances the brackets inside;
* (text) text has no blanks at its ends, and text of blanks alone is no event;
* (faults) the events before the first fault are kept beside it, since a reader may refuse one of them first;
* (positions) positions are byte offsets; a byte order mark at the start is dropped and not counted.
-/

namespace ClassCensus.Layout

/-- What is wrong with the markup of a document. -/
inductive MarkupFault where
  | unknownMarkup
  | unclosedCData
  | unclosedComment
  | unclosedDoctype
  | unclosedInstruction
  | unclosedTag
  /-- A document type declaration without the name of a document type. -/
  | unnamedDoctype
  | mismatchedEnd (expected found : String)
  | unmatchedEnd (name : String)
deriving DecidableEq

/-- The text of a fault of markup. -/
def MarkupFault.message : MarkupFault → String
  | .unknownMarkup => "syntax error: unknown or missed symbol in markup"
  | .unclosedCData => "syntax error: CDATA not closed: `]]>` not found before end of input"
  | .unclosedComment => "syntax error: comment not closed: `-->` not found before end of input"
  | .unclosedDoctype => "syntax error: DOCTYPE not closed: `>` not found before end of input"
  | .unclosedInstruction =>
    "syntax error: processing instruction or xml declaration not closed: `?>` not found before end of input"
  | .unclosedTag => "syntax error: tag not closed: `>` not found before end of input"
  | .unnamedDoctype =>
    "ill-formed document: `<!DOCTYPE>` declaration does not contain a name of a document type"
  | .mismatchedEnd expected found => s!"ill-formed document: expected `</{expected}>`, but `</{found}>` was found"
  | .unmatchedEnd name => s!"ill-formed document: close tag `</{name}>` does not match any open tag"

/-- What a construct or a stretch of text means for the structure of a document. -/
inductive Event where
  /-- A start tag, by its content. -/
  | opening (content : List UInt8)
  /-- The tag of an element without content, by the content of the tag. -/
  | empty (content : List UInt8)
  /-- An end tag, by its name. -/
  | closing (name : List UInt8)
  | text (bytes : List UInt8)
  | cdata
  | comment
  | instruction
  | declaration
  | doctype
deriving DecidableEq

/-- An event with the offset at which it starts and the offset after it. -/
structure Located where
  event : Event
  start : Nat
  past : Nat

/-- The kinds of constructs, told apart by the bytes after the `<`. -/
inductive Construct where
  | tag
  | endTag
  | instruction
  | cdata
  | comment
  | doctype
deriving DecidableEq

namespace Construct

/-- The kind of construct that the bytes after a `<` start. -/
def ofStart (bytes : List UInt8) : Except MarkupFault Construct :=
  if (asciiText "/").isPrefixOf bytes then .ok .endTag
  else if (asciiText "?").isPrefixOf bytes then .ok .instruction
  else if (asciiText "![").isPrefixOf bytes then .ok .cdata
  else if (asciiText "!-").isPrefixOf bytes then .ok .comment
  else if (asciiText "!D").isPrefixOf bytes || (asciiText "!d").isPrefixOf bytes then .ok .doctype
  else if (asciiText "!").isPrefixOf bytes then .error .unknownMarkup
  else .ok .tag

/-- The fault of a construct without an end. -/
def unclosed : Construct → MarkupFault
  | .tag | .endTag => .unclosedTag
  | .instruction => .unclosedInstruction
  | .cdata => .unclosedCData
  | .comment => .unclosedComment
  | .doctype => .unclosedDoctype

/-- Cuts at the first `>` outside of quotes, where the quote `open?` stands open and `read` (latest first) comes
before. -/
def splitTagOnto (open? : Option UInt8) (read : List UInt8) : List UInt8 → Option (List UInt8 × List UInt8)
  | [] => none
  | b :: bytes =>
    match open? with
    | some quote => splitTagOnto (if b = quote then none else some quote) (b :: read) bytes
    | none =>
      if b = ascii '>' then some (read.reverse, bytes)
      else splitTagOnto (if b = ascii '"' ∨ b = ascii '\'' then some b else none) (b :: read) bytes

/-- Cuts at the first `>` before which `closes` holds of the bytes `read` (latest first). -/
def splitMarkOnto (closes : List UInt8 → Bool) (read : List UInt8) : List UInt8 → Option (List UInt8 × List UInt8)
  | [] => none
  | b :: bytes =>
    if b = ascii '>' ∧ closes read then some (read.reverse, bytes) else splitMarkOnto closes (b :: read) bytes

/-- Cuts at the first `>` that matches none of the `depth` brackets open before it or of those after. -/
def splitBalancedOnto (depth : Nat) (read : List UInt8) : List UInt8 → Option (List UInt8 × List UInt8)
  | [] => none
  | b :: bytes =>
    if b = ascii '<' then splitBalancedOnto (depth + 1) (b :: read) bytes
    else if b = ascii '>' then
      match depth with
      | 0 => some (read.reverse, bytes)
      | depth + 1 => splitBalancedOnto depth (b :: read) bytes
    else splitBalancedOnto depth (b :: read) bytes

/-- The bytes read so far (latest first) end a section of character data. -/
def closesCData (read : List UInt8) : Bool :=
  (asciiText "]]").isPrefixOf read

/-- The bytes read so far (latest first) end a comment that starts with `!--`. -/
def closesComment (read : List UInt8) : Bool :=
  (asciiText "--").isPrefixOf read && 5 ≤ (read.take 5).length

/-- The bytes read so far (latest first) end a processing instruction. -/
def closesInstruction (read : List UInt8) : Bool :=
  (asciiText "?").isPrefixOf read

/-- Cuts the bytes after a `<` into the content of the construct, up to the `>` that ends it, and the bytes after
that. -/
def split? : Construct → List UInt8 → Option (List UInt8 × List UInt8)
  | .tag | .endTag => splitTagOnto none []
  | .instruction => splitMarkOnto closesInstruction []
  | .cdata => splitMarkOnto closesCData []
  | .comment => splitMarkOnto closesComment []
  | .doctype => splitBalancedOnto 0 []

/-- The byte as a lower-case letter if it is a letter. -/
def lowerCase (b : UInt8) : UInt8 :=
  if ascii 'A' ≤ b ∧ b ≤ ascii 'Z' then b + 32 else b

/-- The name of an end tag: its content without blanks at the end, unless it is nothing but blanks. -/
def endTagName (content : List UInt8) : List UInt8 :=
  if content.all isBlank then content else trimEnd content

/-- The event of a processing instruction with the given text between its marks. -/
def instructionEvent (text : List UInt8) : Event :=
  if (asciiText "xml").isPrefixOf text && (text.drop 3).head?.all isBlank then .declaration else .instruction

/-- The event of a construct with the given content; a fault comes with its distance from the `<`. -/
def toEvent (construct : Construct) (content : List UInt8) : Except (MarkupFault × Nat) Event :=
  match construct with
  | .tag =>
    if content.getLast? = some (ascii '/') then .ok (.empty content.dropLast) else .ok (.opening content)
  | .endTag => .ok (.closing (endTagName content.tail))
  | .instruction =>
    if content.length ≤ 1 then .error (.unclosedInstruction, 0)
    else .ok (instructionEvent content.tail.dropLast)
  | .cdata => if (asciiText "![CDATA[").isPrefixOf content then .ok .cdata else .error (.unclosedCData, 0)
  | .comment => if (asciiText "!--").isPrefixOf content then .ok .comment else .error (.unclosedComment, 0)
  | .doctype =>
    if !(asciiText "!doctype").isPrefixOf (content.map lowerCase) then .error (.unclosedDoctype, 0)
    else if (content.drop 8).all isBlank then .error (.unnamedDoctype, content.length + 1)
    else .ok .doctype

theorem length_of_splitTagOnto {open? : Option UInt8} {read bytes content rest : List UInt8}
    (h : splitTagOnto open? read bytes = some (content, rest)) : rest.length < bytes.length := by
  fun_induction splitTagOnto open? read bytes with
  | case1 => simp at h
  | case2 => rename_i ih; have := ih h; simp only [List.length_cons]; omega
  | case3 => simp_all
  | case4 => rename_i ih; have := ih h; simp only [List.length_cons]; omega

theorem length_of_splitMarkOnto {closes : List UInt8 → Bool} {read bytes content rest : List UInt8}
    (h : splitMarkOnto closes read bytes = some (content, rest)) : rest.length < bytes.length := by
  fun_induction splitMarkOnto closes read bytes with
  | case1 => simp at h
  | case2 => simp_all
  | case3 => rename_i ih; have := ih h; simp only [List.length_cons]; omega

theorem length_of_splitBalancedOnto {depth : Nat} {read bytes content rest : List UInt8}
    (h : splitBalancedOnto depth read bytes = some (content, rest)) : rest.length < bytes.length := by
  fun_induction splitBalancedOnto depth read bytes with
  | case1 => simp at h
  | case2 => rename_i ih; have := ih h; simp only [List.length_cons]; omega
  | case3 => simp_all
  | case4 => rename_i ih; have := ih h; simp only [List.length_cons]; omega
  | case5 => rename_i ih; have := ih h; simp only [List.length_cons]; omega

theorem length_of_split? {construct : Construct} {bytes content rest : List UInt8}
    (h : construct.split? bytes = some (content, rest)) : rest.length < bytes.length := by
  cases construct <;> simp only [split?] at h
  · exact length_of_splitTagOnto h
  · exact length_of_splitTagOnto h
  · exact length_of_splitMarkOnto h
  · exact length_of_splitMarkOnto h
  · exact length_of_splitMarkOnto h
  · exact length_of_splitBalancedOnto h

end Construct

/-- A fault of markup with its offset in the document. -/
structure LocatedFault where
  fault : MarkupFault
  offset : Nat

/-- The construct whose `<` is at `offset` and whose other bytes come next, with the bytes after it. -/
def construct (offset : Nat) (bytes : List UInt8) : Except LocatedFault (Located × List UInt8) :=
  match Construct.ofStart bytes with
  | .error fault => .error ⟨fault, offset⟩
  | .ok kind =>
    match kind.split? bytes with
    | none => .error ⟨kind.unclosed, offset⟩
    | some (content, rest) =>
      match kind.toEvent content with
      | .error (fault, distance) => .error ⟨fault, offset + distance⟩
      | .ok event => .ok (⟨event, offset, offset + content.length + 2⟩, rest)

theorem length_of_construct {offset : Nat} {bytes rest : List UInt8} {found : Located}
    (h : construct offset bytes = .ok (found, rest)) : rest.length < bytes.length := by
  unfold construct at h
  split at h
  · simp at h
  · split at h
    · simp at h
    · next hsplit =>
      split at h
      · simp at h
      · simp only [Except.ok.injEq, Prod.mk.injEq] at h
        exact h.2 ▸ Construct.length_of_split? hsplit

/-- The bytes at `offset` are not blank and start with a byte other than `<`: the text up to the next `<`. -/
def textRun (offset : Nat) (bytes : List UInt8) : Located :=
  let run := bytes.takeWhile (· ≠ ascii '<')
  ⟨.text (trimEnd run), offset, offset + run.length⟩

/-- The events of the bytes from `offset` on, after the events `read` (latest first), up to the first fault. -/
def eventsOnto (read : List Located) (offset : Nat) (bytes : List UInt8) : List Located × Option LocatedFault :=
  match _hbytes : bytes with
  | [] => (read.reverse, none)
  | b :: rest =>
    if isBlank b then eventsOnto read (offset + 1) rest
    else if b = ascii '<' then
      match _hfound : construct offset rest with
      | .error fault => (read.reverse, some fault)
      | .ok (found, after) => eventsOnto (found :: read) found.past after
    else
      let found := textRun offset bytes
      eventsOnto (found :: read) found.past (rest.dropWhile (· ≠ ascii '<'))
termination_by bytes.length
decreasing_by
  · simp
  · have := length_of_construct _hfound
    simp only [List.length_cons]; omega
  · have := (List.dropWhile_sublist (· ≠ ascii '<') (l := rest)).length_le
    simp only [List.length_cons]; omega

/-- The mark that may stand before a document in UTF-8. -/
def byteOrderMark : List UInt8 := [0xEF, 0xBB, 0xBF]

/-- The events of a document, up to the first fault. -/
def eventsOf (document : List UInt8) : List Located × Option LocatedFault :=
  eventsOnto [] 0 (if byteOrderMark.isPrefixOf document then document.drop 3 else document)

end ClassCensus.Layout
