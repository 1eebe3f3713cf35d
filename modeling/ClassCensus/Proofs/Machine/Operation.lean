import ClassCensus.ClassFile.Cursor
import ClassCensus.Proofs.Text.Utf8
import Mathlib.Algebra.Ring.Int.Defs
import Mathlib.Algebra.Ring.Nat

/-!
# Operations with a domain

On a machine most operations are defined on a part of their arguments only: an index has to lie in front of the end,
a difference must not fall below zero, a word has 64 bits, a text is cut between characters.  Here each of them is a
computation that ends in a `Fault` outside of its domain; a fault is no answer, and nothing that comes after catches it.

* (answers) a `Checked` computation faults, or refuses with a `FormatError`, or has a result;
* (domains) `guarded` is the one way to fault, and `guarded_eq` the one lemma by which an operation inside its domain
  becomes its result;
* (totality) `total` embeds the computations that only refuse; it commutes with sequences (`total_bind`, `total_mapM`).
-/

namespace ClassCensus.Machine

/-- What an operation meets outside of its domain. -/
inductive Fault where
  /-- An index, or an end of a slice, behind the end of the bytes. -/
  | outOfRange
  | belowZero
  /-- A number that a word of 64 bits does not hold. -/
  | overflow
  /-- A conversion that loses bits or the sign. -/
  | lossyCast
  /-- A cut of a text inside of a character, or outside of the text. -/
  | insideCharacter
  /-- A loop that goes on when its rounds are used up. -/
  | endless
deriving DecidableEq

/-- A computation that faults, refuses or has a result. -/
abbrev Checked := ExceptT FormatError (Except Fault)

variable {α β : Type}

/-- The end of a computation outside of its domain. -/
def fault (f : Fault) : Checked α :=
  ExceptT.mk (.error f)

/-- The value, inside of the domain. -/
def guarded (domain : Prop) [Decidable domain] (f : Fault) (a : α) : Checked α :=
  if domain then pure a else fault f

theorem guarded_eq {domain : Prop} [Decidable domain] {f : Fault} {a : α} (h : domain) : guarded domain f a = pure a :=
  if_pos h

/-! ### Bytes -/

/-- The byte at an index. -/
def item (bytes : List UInt8) (index : Nat) : Checked UInt8 :=
  guarded (index < bytes.length) .outOfRange (bytes.getD index 0)

/-- The `count` bytes from `start` on, one by one. -/
def items (bytes : List UInt8) (start : Nat) : (count : Nat) → Checked (List UInt8)
  | 0 => return []
  | count + 1 => do
    let b ← item bytes start
    return b :: (← items bytes (start + 1) count)

/-- The `length` bytes from `start` on, at once. -/
def slice (bytes : List UInt8) (start length : Nat) : Checked (List UInt8) :=
  guarded (start + length ≤ bytes.length) .outOfRange ((bytes.drop start).take length)

theorem item_eq {bytes behind : List UInt8} {index : Nat} {b : UInt8} (ahead : bytes.drop index = b :: behind) :
    item bytes index = pure b := by
  have inside : index < bytes.length := by
    have length := congrArg List.length ahead
    rw [List.length_drop, List.length_cons] at length
    omega
  have here : bytes[index]? = some b := by
    rw [← List.head?_drop, ahead, List.head?_cons]
  rw [item, guarded_eq inside, List.getD_eq_getElem?_getD, here, Option.getD_some]

theorem items_eq {bytes : List UInt8} {start count : Nat} (inside : start + count ≤ bytes.length) :
    items bytes start count = pure ((bytes.drop start).take count) := by
  induction count generalizing start with
  | zero => rw [List.take_zero]; rfl
  | succ count ih =>
    have ahead : bytes.drop start = bytes[start] :: bytes.drop (start + 1) := List.drop_eq_getElem_cons (by omega)
    rw [items, item_eq ahead, pure_bind, ih (by omega), pure_bind, ahead, List.take_succ_cons]

theorem items_all {bytes : List UInt8} {count : Nat} (all : bytes.length = count) :
    items bytes 0 count = pure bytes := by
  rw [items_eq (by omega), List.drop_zero, ← all, List.take_length]

/-! ### Numbers -/

/-- The words of the machine are the numbers below this one. -/
def wordSize : Nat := 2 ^ 64

/-- The sum of two words. -/
def plus (n m : Nat) : Checked Nat :=
  guarded (n + m < wordSize) .overflow (n + m)

/-- The product of two words. -/
def product (n m : Nat) : Checked Nat :=
  guarded (n * m < wordSize) .overflow (n * m)

/-- The difference of two words. -/
def minus (n m : Nat) : Checked Nat :=
  guarded (m ≤ n) .belowZero (n - m)

/-- A number as a signed word. -/
def signed (n : Int) : Checked Int :=
  guarded (-2 ^ 63 ≤ n ∧ n < 2 ^ 63) .overflow n

/-- A signed word as a word. -/
def unsigned (n : Int) : Checked Nat :=
  guarded (0 ≤ n) .lossyCast n.toNat

/-- A word as a word of fewer bits. -/
def narrow (bits n : Nat) : Checked Nat :=
  guarded (n < 2 ^ bits) .lossyCast n

/-! ### Texts -/

/-- The characters in front of a byte and those from it on, if a character starts there or the text ends. -/
def splitAtByte? : List Char → Nat → Option (List Char × List Char)
  | chars, 0 => some ([], chars)
  | [], _ + 1 => none
  | c :: chars, n + 1 =>
    if c.utf8Size ≤ n + 1 then
      (splitAtByte? chars (n + 1 - c.utf8Size)).map fun (before, behind) => (c :: before, behind)
    else none

/-- The characters between two bytes of a text. -/
def cut (text : List Char) (start stop : Nat) : Checked (List Char) :=
  match splitAtByte? text stop with
  | none => fault .insideCharacter
  | some (before, _) =>
    match splitAtByte? before start with
    | none => fault .insideCharacter
    | some (_, between) => pure between

theorem splitAtByte?_append (before behind : List Char) :
    splitAtByte? (before ++ behind) (Text.Utf8.encode before).length = some (before, behind) := by
  induction before with
  | nil => simp [splitAtByte?]
  | cons c before ih =>
    have some_bytes : 0 < c.utf8Size := c.utf8Size_pos
    have size : (Text.Utf8.encode (c :: before)).length = (c.utf8Size - 1 + (Text.Utf8.encode before).length) + 1 := by
      rw [Text.Utf8.encode_cons, List.length_append, String.length_utf8EncodeChar]
      omega
    have rest : c.utf8Size - 1 + (Text.Utf8.encode before).length + 1 - c.utf8Size =
        (Text.Utf8.encode before).length := by
      omega
    rw [size, List.cons_append, splitAtByte?, if_pos (by omega), rest, ih, Option.map_some]

/-- A text is cut between characters. -/
theorem cut_eq (before between behind : List Char) :
    cut (before ++ between ++ behind) (Text.Utf8.encode before).length (Text.Utf8.encode (before ++ between)).length =
      pure between := by
  rw [cut, splitAtByte?_append]
  dsimp only
  rw [splitAtByte?_append]

/-! ### Computations without a domain -/

/-- A computation that never faults. -/
def total (x : Except FormatError α) : Checked α :=
  ExceptT.mk (.ok x)

@[simp] theorem total_ok (a : α) : total (.ok a) = pure a := rfl

@[simp] theorem total_pure (a : α) : total (pure a) = pure a := rfl

theorem total_bind (x : Except FormatError α) (f : α → Except FormatError β) :
    total (x >>= f) = total x >>= fun a => total (f a) := by
  cases x <;> rfl

theorem total_map (f : α → β) (x : Except FormatError α) : total (f <$> x) = f <$> total x := by
  cases x <;> rfl

theorem total_mapM (f : α → Except FormatError β) (as : List α) :
    total (as.mapM f) = as.mapM fun a => total (f a) := by
  induction as with
  | nil => rfl
  | cons a as ih => simp only [List.mapM_cons, total_bind, total_pure, ih]

/-- The same computation with what it refuses set in a context. -/
def inContext (context : FormatError → FormatError) (x : Checked α) : Checked α :=
  tryCatch x fun e => throw (context e)

theorem total_mapError (context : FormatError → FormatError) (x : Except FormatError α) :
    total (x.mapError context) = inContext context (total x) := by
  cases x <;> rfl

end ClassCensus.Machine
