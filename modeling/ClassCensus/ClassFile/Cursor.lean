import ClassCensus.ClassFile.Error

/-!
# Cursors over a byte string

A `Cursor` is the rest of a byte string with the number of bytes before it; a `Decoder` reads a value from a cursor and
leaves the cursor behind, also when it fails.

* (bounds) every reading goes through `Decoder.bytes`, which takes exactly the bytes asked for, or fails, says where,
  and takes none;
* (order) numbers are big-endian (`bigEndian`);
* (tables) `Decoder.times` reads a counted table; a failure inside keeps the cursor where the failing entry left it.
-/

namespace ClassCensus

/-- A place in a byte string. -/
structure Cursor where
  offset : Nat
  rest : List UInt8
deriving DecidableEq

/-- The start of `bytes`. -/
def Cursor.ofBytes (bytes : List UInt8) : Cursor := ⟨0, bytes⟩

/-- The number of bytes ahead. -/
def Cursor.remaining (cursor : Cursor) : Nat := cursor.rest.length

/-- There are bytes ahead. -/
def Cursor.hasMore (cursor : Cursor) : Bool := !cursor.rest.isEmpty

/-- A reading of a value that moves a cursor or fails. -/
abbrev Decoder := EStateM FormatError Cursor

/-- The number that bytes spell, the first byte being the most significant. -/
def bigEndian (bytes : List UInt8) : Nat :=
  bytes.foldl (fun n b => 256 * n + b.toNat) 0

namespace Decoder

/-- The next `n` bytes. -/
def bytes (n : Nat) : Decoder (List UInt8) := fun cursor =>
  let (taken, rest) := cursor.rest.splitAt n
  if taken.length = n then .ok taken ⟨cursor.offset + n, rest⟩
  else .error (.endOfData n cursor.offset cursor.remaining) cursor

/-- Passes over the next `n` bytes. -/
def skip (n : Nat) : Decoder Unit := do
  let _ ← bytes n

/-- The next byte. -/
def u8 : Decoder UInt8 := do
  return UInt8.ofNat (bigEndian (← bytes 1))

/-- The next two bytes as a number. -/
def u16 : Decoder UInt16 := do
  return UInt16.ofNat (bigEndian (← bytes 2))

/-- The next four bytes as a number. -/
def u32 : Decoder UInt32 := do
  return UInt32.ofNat (bigEndian (← bytes 4))

/-- The next four bytes as a signed number. -/
def i32 : Decoder Int32 := do
  return (← u32).toInt32

/-- The next eight bytes as a number, read in two halves. -/
def u64 : Decoder UInt64 := do
  let high ← u32
  let low ← u32
  return UInt64.ofNat (high.toNat * 0x100000000 + low.toNat)

/-- The offset of the next byte. -/
def offset : Decoder Nat := do
  return (← get).offset

/-- Reads `n` entries after the entries `read` (latest first). -/
def timesOnto {α : Type} (entry : Decoder α) (read : List α) : Nat → Decoder (List α)
  | 0 => return read.reverse
  | n + 1 => do
    let a ← entry
    timesOnto entry (a :: read) n

/-- Reads `n` entries. -/
def times {α : Type} (n : Nat) (entry : Decoder α) : Decoder (List α) :=
  timesOnto entry [] n

/-- A two-byte count and that many entries. -/
def table {α : Type} (entry : Decoder α) : Decoder (List α) := do
  let count ← u16
  times count.toNat entry

/-- A two-byte count and that many two-byte numbers. -/
def u16List : Decoder (List UInt16) :=
  table u16

/-- A result that reads nothing. -/
def ofExcept {α : Type} (result : Except FormatError α) : Decoder α := fun cursor =>
  match result with
  | .ok a => .ok a cursor
  | .error e => .error e cursor

/-- The same reading with its faults set in a context. -/
def within {α : Type} (context : FormatError → FormatError) (decoder : Decoder α) : Decoder α := fun cursor =>
  match decoder cursor with
  | .ok a cursor => .ok a cursor
  | .error e cursor => .error (context e) cursor

/-- A reading of a byte string of its own, from its start; the answer includes the cursor left behind. -/
def onBytes {α : Type} (decoder : Decoder α) (bytes : List UInt8) : Decoder (α × Cursor) := fun cursor =>
  match decoder (Cursor.ofBytes bytes) with
  | .ok a inner => .ok (a, inner) cursor
  | .error e _ => .error e cursor

end Decoder

/-- Runs a decoder on a whole byte string. -/
def Decoder.decode {α : Type} (decoder : Decoder α) (bytes : List UInt8) : Except FormatError α :=
  match decoder (Cursor.ofBytes bytes) with
  | .ok a _ => .ok a
  | .error e _ => .error e

end ClassCensus
