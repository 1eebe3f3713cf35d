import ClassCensus.Archive.Checksum
import ClassCensus.Archive.Header

/-!
# Reading entries of archives

An entry has a header of its own before its data.

* (opening) an entry is opened by its header; `openEntry` refuses encrypted entries and unknown methods;
* (data) the data of an entry is as long as the directory says or the archive allows, and has to match its checksum.
-/

namespace ClassCensus.Archive

/-- The mark of a header before an entry. -/
def entryMark : List UInt8 := [0x50, 0x4B, 0x03, 0x04]

/-- The methods by which the data of an entry is written. -/
inductive Method where
  | stored
  | deflated
deriving DecidableEq

/-- The method of a number. -/
def Method.ofNumber? : Nat → Option Method
  | 0 => some .stored
  | 8 => some .deflated
  | _ => none

/-- An entry that has been opened: how its data is written, and its data as written. -/
structure OpenEntry where
  header : Header
  method : Method
  data : List UInt8

/-- Opens an entry. -/
def openEntry (image : Array UInt8) (header : Header) : Except ArchiveFault OpenEntry := do
  if header.encrypted then throw .encrypted
  let fields ← markedRecord entryMark .invalidEntryHeader image header.start 30
  let some method := Method.ofNumber? header.method | throw .unsupportedMethod
  if header.hasCipher then throw .encrypted
  let dataStart := header.start + 30 + fieldAt fields 26 2 + fieldAt fields 28 2
  return ⟨header, method, slice image dataStart header.compressedSize⟩

/-- The bytes of an opened entry. -/
def OpenEntry.read (entry : OpenEntry) : Except ArchiveFault (List UInt8) := do
  let bytes ← match entry.method with
    | .stored => pure entry.data
    | .deflated => (inflate entry.data).mapError .inflate
  if checksum bytes ≠ entry.header.checksum then throw .invalidChecksum
  return bytes

end ClassCensus.Archive
