import ClassCensus.Layout.Attribute
import ClassCensus.Layout.Entity
import ClassCensus.Layout.Event
import ClassCensus.Layout.XmlName
import ClassCensus.NameSet
import ClassCensus.Text.Quoted

/-!
# Outlines of layouts

A layout is a document with one root element. The names of its elements that contain a dot name classes; nothing else
in it does, but the whole of it has to be well formed.

* (machine) `Outline.step` reads one event; its state is the stack of the elements that stand open, whether a root has
  been seen, and the dotted names found;
* (tags) a tag is checked from left to right: its name, then each attribute in turn (`checkTag`);
* (faults) the first fault in the document is reported, be it one of its markup or of what the markup says.
-/

namespace ClassCensus.Layout

/-- A fault of a layout. -/
inductive LayoutError where
  | markup (fault : MarkupFault) (offset : Nat)
  | multipleRoots (offset : Nat)
  | elementNotUtf8 (fault : Text.Utf8.Fault)
  | invalidElement (name : String)
  | attributeForm (element : String) (fault : AttributeFault)
  | invalidAttribute (element key : String)
  | openBracketInValue (element key : String)
  | invalidValue (element key : String) (fault : TextFault)
  | contentOutsideRoot
  | invalidText (fault : TextFault) (offset : Nat)
  | unclosedElement (name : String)
  | noRoot
deriving DecidableEq

/-- The text of a fault of a layout. -/
def LayoutError.message : LayoutError → String
  | .markup fault offset => s!"{fault.message} (at byte {offset})"
  | .multipleRoots offset => s!"multiple root elements (at byte {offset})"
  | .elementNotUtf8 fault => s!"tag name is not UTF-8: {fault.message}"
  | .invalidElement name => s!"invalid element name <{name}>"
  | .attributeForm element fault => s!"in <{element}>: {fault.message}"
  | .invalidAttribute element key => s!"invalid attribute name {Text.quote key} in <{element}>"
  | .openBracketInValue element key => s!"'<' in value of {key} in <{element}>"
  | .invalidValue element key fault => s!"in {key} of <{element}>: {fault.message}"
  | .contentOutsideRoot => "content outside the root element"
  | .invalidText fault offset => s!"{fault.message} (before byte {offset})"
  | .unclosedElement name => s!"unclosed element <{name}>"
  | .noRoot => "no root element"

/-- The name of the tag with the given content. -/
def tagName (content : List UInt8) : List UInt8 :=
  content.takeWhile (!isBlank ·)

/-- The attributes of the tag with the given content, up to the first fault. -/
def tagAttributes (content : List UInt8) : List RawAttribute × Option AttributeFault :=
  let name := tagName content
  attributesOnto [] ⟨name.length, content.drop name.length⟩

/-- Checks an attribute of an element: its key is a name, and its value has no `<` and no fault. -/
def checkAttribute (element : String) (found : RawAttribute) : Except LayoutError Unit := do
  let key := Text.Utf8.decodeLossy found.key
  if !isName key then throw (.invalidAttribute element key)
  if found.value.contains (ascii '<') then throw (.openBracketInValue element key)
  let _ ← (unescape found.value).mapError (.invalidValue element key)

/-- Checks a tag with the given content, and gives the name of its element. -/
def checkTag (content : List UInt8) : Except LayoutError String := do
  let element ← (Text.Utf8.decode (tagName content)).mapError .elementNotUtf8
  if !isName element then throw (.invalidElement element)
  let (found, fault?) := tagAttributes content
  found.forM (checkAttribute element)
  match fault? with
  | some fault => throw (.attributeForm element fault)
  | none => return element

/-- The part of a layout read so far. -/
structure Outline where
  /-- The elements that stand open, the innermost first. -/
  opened : List String
  rootSeen : Bool
  /-- The dotted names, latest first. -/
  dotted : List String

namespace Outline

/-- Nothing has been read. -/
def start : Outline := ⟨[], false, []⟩

/-- The name names a class. -/
def isDotted (name : String) : Bool :=
  name.toList.contains '.'

/-- Reads the tag of a new element, whose content is given and which ends before `past`. -/
def element (outline : Outline) (content : List UInt8) (past : Nat) : Except LayoutError (String × Outline) := do
  if outline.opened.isEmpty && outline.rootSeen then throw (.multipleRoots past)
  let name ← checkTag content
  return (name, { outline with
    rootSeen := true
    dotted := if isDotted name then name :: outline.dotted else outline.dotted })

/-- Reads an end tag whose `<` is at `offset`; a name that is not UTF-8 shows as nothing. -/
def close (outline : Outline) (name : List UInt8) (offset : Nat) : Except LayoutError Outline :=
  let found := (Text.Utf8.decode name).toOption
  match outline.opened with
  | [] => .error (.markup (.unmatchedEnd (found.getD "")) offset)
  | expected :: opened =>
    if found = some expected then .ok { outline with opened }
    else .error (.markup (.mismatchedEnd expected (found.getD "")) offset)

/-- Reads one event. -/
def step (outline : Outline) (found : Located) : Except LayoutError Outline :=
  match found.event with
  | .opening content => do
    let (name, outline) ← outline.element content found.past
    return { outline with opened := name :: outline.opened }
  | .empty content => do
    let (_, outline) ← outline.element content found.past
    return outline
  | .closing name => outline.close name found.start
  | .text bytes => do
    if outline.opened.isEmpty then throw .contentOutsideRoot
    let _ ← (unescape bytes).mapError (.invalidText · found.past)
    return outline
  | .cdata => if outline.opened.isEmpty then .error .contentOutsideRoot else .ok outline
  | .comment | .instruction | .declaration | .doctype => .ok outline

/-- Reads the end of a layout, and gives the dotted names. -/
def finish (outline : Outline) : Except LayoutError (List String) :=
  match outline.opened with
  | name :: _ => .error (.unclosedElement name)
  | [] => if outline.rootSeen then .ok outline.dotted else .error .noRoot

/-- Reads the events of a whole layout. -/
def ofEvents (events : List Located) : Except LayoutError Outline :=
  events.foldlM step start

end Outline

/-- The dotted element names of a layout. -/
def dottedNames (document : List UInt8) : Except LayoutError NameSet := do
  let (events, fault?) := eventsOf document
  let outline ← Outline.ofEvents events
  match fault? with
  | some located => throw (.markup located.fault located.offset)
  | none => return NameSet.ofList (← outline.finish)

end ClassCensus.Layout
