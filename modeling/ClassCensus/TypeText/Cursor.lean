import ClassCensus.ClassFile.Error

/-!
# Reading type texts

Descriptors and signatures are read character by character. Positions count the bytes of the text in UTF-8.

* (faults) a `TypeParser` that fails leaves its cursor at the position of the fault (`TypeParser.parse`);
* (names) `identifier` takes everything up to a stop character and fails at the end of the text;
* (repetition) `repeatWhile` repeats a part that takes at least one character, so a bound above the number of
  characters is never used up.
-/

namespace ClassCensus

/-- A place in a type text. -/
structure TypeCursor where
  position : Nat
  rest : List Char

/-- A reading of a part of a type text. -/
abbrev TypeParser := EStateM TypeFault TypeCursor

namespace TypeParser

/-- The next character. -/
def peek : TypeParser (Option Char) := do
  return (← get).rest.head?

/-- Passes over the next character. -/
def advance : TypeParser Unit :=
  modify fun cursor =>
    match cursor.rest with
    | [] => cursor
    | c :: rest => ⟨cursor.position + c.utf8Size, rest⟩

/-- The characters up to a stop character, of which there is at least one; the stop character stays ahead. -/
def identifier (isStop : Char → Bool) : TypeParser String := fun cursor =>
  let chars := cursor.rest.takeWhile fun c => !isStop c
  let rest := cursor.rest.dropWhile fun c => !isStop c
  let name := String.ofList chars
  let after : TypeCursor := ⟨cursor.position + name.utf8ByteSize, rest⟩
  if chars.isEmpty || rest.isEmpty then .error .unterminatedIdentifier after else .ok name after

/-- Repeats `item` after the results `read` (latest first) while `more` holds of the next character. -/
def repeatOnto {α : Type} (more : Option Char → Bool) (item : TypeParser α) (read : List α) :
    (bound : Nat) → TypeParser (List α)
  | 0 => return read.reverse
  | bound + 1 => do
    if more (← peek) then
      let a ← item
      repeatOnto more item (a :: read) bound
    else return read.reverse

/-- Repeats `item`, up to `bound` times, while `more` holds of the next character. -/
def repeatWhile {α : Type} (bound : Nat) (more : Option Char → Bool) (item : TypeParser α) : TypeParser (List α) :=
  repeatOnto more item [] bound

/-- The end of the text. -/
def finish : TypeParser Unit := do
  if (← peek).isSome then throw .trailingCharacters

/-- Reads a whole text with a parser that takes a bound for its repetitions. -/
def parse {α : Type} (parser : (bound : Nat) → TypeParser α) (text : String) : Except FormatError α :=
  let chars := text.toList
  match (do let a ← parser (chars.length + 1); finish; return a : TypeParser α) ⟨0, chars⟩ with
  | .ok a _ => .ok a
  | .error fault cursor => .error (.typeText fault cursor.position text)

end TypeParser

end ClassCensus
