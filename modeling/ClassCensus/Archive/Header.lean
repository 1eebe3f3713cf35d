import ClassCensus.Archive.CodePage
import ClassCensus.Archive.Directory
import ClassCensus.Text.Utf8

/-!
# Headers in the directory

The directory has a header for each entry, which says where the entry is and how its data is written. A header ends in
extra fields, each with a kind and a length; some of them give numbers that have no room in the header.

* (wide numbers) a number of the header that is saturated is replaced by the next wide number of a field of that kind,
  which may reach beyond the length of the field (`Header.widen`);
* (cipher) a field about the cipher brings the method with it, and the fields after it start seven bytes late
  (`cipherMethod`);
* (end) extra fields that end too early end the reading of fields, and what was read before counts.
-/

namespace ClassCensus.Archive

/-- The mark of a header in the directory. -/
def directoryMark : List UInt8 := [0x50, 0x4B, 0x01, 0x02]

/-- What the directory says about an entry. -/
structure Header where
  name : String
  encrypted : Bool
  method : Nat
  checksum : UInt32
  compressedSize : Nat
  uncompressedSize : Nat
  /-- The position of the header before the entry. -/
  start : Nat
  /-- A field about the cipher was read. -/
  hasCipher : Bool

namespace Header

/-- The entry is a directory. -/
def isDirectory (header : Header) : Bool :=
  match header.name.toList.getLast? with
  | some c => c = '/' || c = '\\'
  | none => false

/-! ## Extra fields -/

/-- The kind of a field with wide numbers. -/
def wideKind : Nat := 0x0001

/-- The kind of a field about the cipher. -/
def cipherKind : Nat := 0x9901

/-- The length of a field about the cipher. -/
def cipherLength : Nat := 7

/-- The method that asks for a field about the cipher. -/
def cipherMethodNumber : Nat := 99

/-- A number of the header, replaced by the wide number at `offset` if it is saturated, and the offset after what was
read; none if the wide number is not all there. -/
def widenNumber? (body : List UInt8) (number offset : Nat) : Option (Nat × Nat) :=
  if number ≠ saturated then some (number, offset)
  else if body.length < offset + 8 then none
  else some (fieldAt body offset 8, offset + 8)

/-- The header with the wide numbers that `body` starts with, and their length; no length if they are not all there. -/
def widen (header : Header) (body : List UInt8) : Header × Option Nat :=
  match widenNumber? body header.uncompressedSize 0 with
  | none => (header, none)
  | some (uncompressedSize, offset) =>
    let header := { header with uncompressedSize }
    match widenNumber? body header.compressedSize offset with
    | none => (header, none)
    | some (compressedSize, offset) =>
      let header := { header with compressedSize }
      match widenNumber? body header.start offset with
      | none => (header, none)
      | some (start, offset) => ({ header with start }, some offset)

/-- The method in a field about the cipher of the given length: none if the field is not all there. -/
def cipherMethod (length : Nat) (body : List UInt8) : Except ArchiveFault (Option Nat) := do
  if length ≠ cipherLength then throw .cipherFieldLength
  if body.length < cipherLength then return none
  if fieldAt body 2 2 ≠ 0x4541 then throw .cipherVendor
  if ¬[1, 2].contains (fieldAt body 0 2) then throw .cipherVersion
  if ¬[1, 2, 3].contains (fieldAt body 4 1) then throw .cipherStrength
  return some (fieldAt body 5 2)

/-- The header with what its extra fields say. -/
def withExtra (header : Header) : (extra : List UInt8) → Except ArchiveFault Header
  | kindLow :: kindHigh :: lengthLow :: lengthHigh :: body => do
    let kind := littleEndian [kindLow, kindHigh]
    let length := littleEndian [lengthLow, lengthHigh]
    if kind = wideKind then
      match header.widen body with
      | (header, none) => return header
      | (header, some read) => header.withExtra (body.drop (max read length))
    else if kind = cipherKind then
      match ← cipherMethod length body with
      | none => return header
      | some method =>
        let header := { header with method, hasCipher := true }
        header.withExtra (body.drop (cipherLength + length))
    else header.withExtra (body.drop length)
  | _ => return header
termination_by extra => extra.length

/-! ## Reading headers -/

/-- The header at `start`, and the position after it. -/
def read (image : Array UInt8) (shift start : Nat) : Except ArchiveFault (Header × Nat) := do
  let fields ← markedRecord directoryMark .invalidDirectoryHeader image start 46
  let flags := fieldAt fields 8 2
  let nameLength := fieldAt fields 28 2
  let extraLength := fieldAt fields 30 2
  let size := 46 + nameLength + extraLength + fieldAt fields 32 2
  let whole ← record image start size
  let name := (whole.drop 46).take nameLength
  let narrow : Header := {
    name := if flags.testBit 11 then Text.Utf8.decodeLossy name else codePageText name
    encrypted := flags.testBit 0
    method := fieldAt fields 10 2
    checksum := UInt32.ofNat (fieldAt fields 16 4)
    compressedSize := fieldAt fields 20 4
    uncompressedSize := fieldAt fields 24 4
    start := fieldAt fields 42 4
    hasCipher := false }
  let header ← narrow.withExtra ((whole.drop (46 + nameLength)).take extraLength)
  if header.method = cipherMethodNumber ∧ !header.hasCipher then throw .cipherFieldMissing
  if maxWide < header.start + shift then throw .startTooLarge
  return ({ header with start := header.start + shift }, start + size)

end Header

/-- The headers of the directory from `start` on, `count` in all, after the headers `read` (latest first). -/
def headersOnto (image : Array UInt8) (shift : Nat) (read : List Header) (start : Nat) :
    (count : Nat) → Except ArchiveFault (List Header)
  | 0 => .ok read.reverse
  | count + 1 => do
    let (found, next) ← Header.read image shift start
    headersOnto image shift (found :: read) next count

/-- The headers of all entries, in the order of the directory. -/
def headers (image : Array UInt8) : Except ArchiveFault (List Header) := do
  let found ← directory image
  headersOnto image found.shift [] found.start found.count

end ClassCensus.Archive
