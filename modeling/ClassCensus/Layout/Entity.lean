import ClassCensus.Text.Utf8

/-!
# Entity references

A text and the value of an attribute may hold references: `&` and `;` around the name of a character or around its
number. Only the five names that need no declaration are known.

* (delimiters) the next `&` or `;` after an `&` has to be a `;` (`reference?`);
* (numbers) a number is decimal, or hexadecimal after `x`; it has no sign, fits in 32 bits and is a character other
  than U+0000 (`characterOf`);
* (positions) faults give byte positions in the text or value.
-/

namespace ClassCensus.Layout

/-- What is wrong with the number of a character. -/
inductive CharacterFault where
  | signed
  | empty
  | invalidDigit
  | tooLarge
  | zero
  | notACharacter (code : Nat)
deriving DecidableEq

/-- The words for a fault of the number of a character. -/
def CharacterFault.describe : CharacterFault → String
  | .signed => "unexpected number sign"
  | .empty => "cannot parse integer from empty string"
  | .invalidDigit => "invalid digit found in string"
  | .tooLarge => "number too large to fit in target type"
  | .zero => "0x0 character is not permitted in XML"
  | .notACharacter code => s!"`{code}` is not a valid codepoint"

/-- What is wrong with a text or the value of an attribute. -/
inductive TextFault where
  | notUtf8 (fault : Text.Utf8.Fault)
  /-- An `&` at `position` without a `;`, in a text of `size` bytes. -/
  | unterminatedReference (position size : Nat)
  /-- An unknown name from `first` up to before `past`. -/
  | unknownEntity (first past : Nat) (name : String)
  | invalidCharacter (fault : CharacterFault)
deriving DecidableEq

/-- The text of a fault of a text or of the value of an attribute. -/
def TextFault.message : TextFault → String
  | .notUtf8 fault => s!"cannot decode input using UTF-8: {fault.message}"
  | .unterminatedReference position size =>
    s!"Error while escaping character at range {position}..{size}: Cannot find ';' after '&'"
  | .unknownEntity first past name => s!"at {first}..{past}: unrecognized entity `{name}`"
  | .invalidCharacter fault => s!"invalid character reference: {fault.describe}"

/-- The value of a digit in the base `base`. -/
def digitValue? (base : Nat) (c : Char) : Option Nat :=
  let value? :=
    if '0' ≤ c ∧ c ≤ '9' then some (c.toNat - '0'.toNat)
    else if 'a' ≤ c ∧ c ≤ 'z' then some (c.toNat - 'a'.toNat + 10)
    else if 'A' ≤ c ∧ c ≤ 'Z' then some (c.toNat - 'A'.toNat + 10)
    else none
  value?.filter (· < base)

/-- The number that digits spell after the number `n`; the first digit that is none, or that makes the number exceed
32 bits, is the fault. -/
def numberFrom (base : Nat) (n : Nat) : List Char → Except CharacterFault Nat
  | [] => .ok n
  | c :: digits =>
    match digitValue? base c with
    | none => .error .invalidDigit
    | some value =>
      let next := n * base + value
      if 0xFFFFFFFF < next then .error .tooLarge else numberFrom base next digits

/-- The number that digits spell. -/
def number (base : Nat) : List Char → Except CharacterFault Nat
  | [] => .error .empty
  | c :: digits => if c = '+' ∨ c = '-' then .error .signed else numberFrom base 0 (c :: digits)

/-- The character of a numeric reference, whose text after `#` is given. -/
def characterOf (text : List Char) : Except CharacterFault Char := do
  let code ← match text with
    | 'x' :: digits => number 16 digits
    | _ => number 10 text
  if code = 0 then throw .zero
  if code.isValidChar then return Char.ofNat code else throw (.notACharacter code)

/-- The characters that have names without any declaration. -/
def predefinedEntities : List (String × Char) := [
  ("lt", '<'), ("gt", '>'), ("amp", '&'), ("apos", '\''), ("quot", '"')]

/-- The character that a reference stands for; `position` is where its text starts. -/
def resolveReference (position : Nat) (text : List Char) : Except TextFault Char :=
  match text with
  | '#' :: number => (characterOf number).mapError .invalidCharacter
  | _ =>
    let name := String.ofList text
    match predefinedEntities.lookup name with
    | some c => .ok c
    | none => .error (.unknownEntity position (position + name.utf8ByteSize) name)

/-- The character may stand between the `&` and the `;` of a reference. -/
def isReferenceChar (c : Char) : Bool :=
  c ≠ '&' && c ≠ ';'

/-- The text after an `&` up to the `;` that ends the reference, and what follows. -/
def reference? (chars : List Char) : Option (List Char × List Char) :=
  match chars.dropWhile isReferenceChar with
  | ';' :: rest => some (chars.takeWhile isReferenceChar, rest)
  | _ => none

theorem length_of_reference? {chars text rest : List Char} (h : reference? chars = some (text, rest)) :
    rest.length < chars.length := by
  have hlen := (List.dropWhile_sublist isReferenceChar (l := chars)).length_le
  unfold reference? at h
  split at h
  · next heq =>
    simp only [Option.some.injEq, Prod.mk.injEq] at h
    rw [heq, h.2, List.length_cons] at hlen
    omega
  · simp at h

/-- The characters of a text of `size` bytes with its references resolved, from the byte position `position` on and
after the characters `read` (latest first). -/
def unescapeOnto (size position : Nat) (read : List Char) (chars : List Char) : Except TextFault (List Char) :=
  match chars with
  | [] => .ok read.reverse
  | c :: rest =>
    if c ≠ '&' then unescapeOnto size (position + c.utf8Size) (c :: read) rest
    else
      match _h : reference? rest with
      | none => .error (.unterminatedReference position size)
      | some (text, after) => do
        let resolved ← resolveReference (position + 1) text
        unescapeOnto size (position + 2 + (String.ofList text).utf8ByteSize) (resolved :: read) after
termination_by chars.length
decreasing_by
  · simp
  · have := length_of_reference? _h
    simp only [List.length_cons]; omega

/-- The text that bytes stand for in a document: decoded and with its references resolved. -/
def unescape (bytes : List UInt8) : Except TextFault String := do
  let text ← (Text.Utf8.decode bytes).mapError .notUtf8
  return String.ofList (← unescapeOnto text.utf8ByteSize 0 [] text.toList)

end ClassCensus.Layout
