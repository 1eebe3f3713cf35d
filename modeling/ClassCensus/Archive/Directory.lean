import ClassCensus.Archive.Record

/-!
# The directory of an archive

An archive ends with a record that says where its directory is. A wide archive has a second such record, with wider
numbers, and a locator for it in front of the end record.

* (end record) it is the last one whose mark stands within reach of the longest comment from the end
  (`endRecordStart?`);
* (wide end record) the locator stands where the comment leaves room for it at the end of the image; the wide record is
  the first one at or after the position that the locator names;
* (shift) bytes before the archive shift all positions: by as much as the end record stands behind the end of the
  directory, or the wide record behind its place.
-/

namespace ClassCensus.Archive

/-- The mark of the end record. -/
def endMark : List UInt8 := [0x50, 0x4B, 0x05, 0x06]

/-- The mark of the locator of the wide end record. -/
def locatorMark : List UInt8 := [0x50, 0x4B, 0x06, 0x07]

/-- The mark of the wide end record. -/
def wideEndMark : List UInt8 := [0x50, 0x4B, 0x06, 0x06]

/-- The size of the end record without its comment. -/
def endRecordSize : Nat := 22

/-- The size of the locator of the wide end record. -/
def locatorSize : Nat := 20

/-- The size of the wide end record up to its last number. -/
def wideEndRecordSize : Nat := 56

/-- The least number of bytes from the wide end record to the end record that a search leaves room for. -/
def wideEndReach : Nat := 60

/-- The last of the positions `position`, `position - 1`, …, `count` in all, where the mark of an end record stands. -/
def searchEndRecord (image : Array UInt8) (position : Nat) : (count : Nat) → Option Nat
  | 0 => none
  | count + 1 =>
    if slice image position 4 = endMark then some position else searchEndRecord image (position - 1) count

/-- The position of the end record. -/
def endRecordStart? (image : Array UInt8) : Option Nat :=
  let last := image.size - endRecordSize
  searchEndRecord image last (min last 65535 + 1)

/-- What the end record says. -/
structure EndRecord where
  /-- The position of the record. -/
  position : Nat
  disk : Nat
  directoryDisk : Nat
  countOnDisk : Nat
  count : Nat
  directorySize : Nat
  directoryOffset : Nat
  commentLength : Nat

/-- Some number of the record may stand for a wider one. -/
def EndRecord.isNarrow (found : EndRecord) : Bool :=
  [found.disk, found.directoryDisk, found.countOnDisk, found.count].contains 0xFFFF ||
    [found.directorySize, found.directoryOffset].contains saturated

/-- Reads the end record; all of its comment has to be there. -/
def endRecord (image : Array UInt8) : Except ArchiveFault EndRecord := do
  if image.size < endRecordSize then throw .tooSmall
  let some position := endRecordStart? image | throw .noEndRecord
  let fields ← record image position endRecordSize
  let commentLength := fieldAt fields 20 2
  let _ ← record image position (endRecordSize + commentLength)
  return {
    position, commentLength
    disk := fieldAt fields 4 2
    directoryDisk := fieldAt fields 6 2
    countOnDisk := fieldAt fields 8 2
    count := fieldAt fields 10 2
    directorySize := fieldAt fields 12 4
    directoryOffset := fieldAt fields 16 4 }

/-- What the locator says: the disk and the position of the wide end record. -/
structure Locator where
  disk : Nat
  wideEndStart : Nat

/-- Reads the locator, if there is one. -/
def locator? (image : Array UInt8) (found : EndRecord) : Option Locator :=
  let distance := locatorSize + endRecordSize + found.commentLength
  if image.size < distance then none
  else
    let fields := slice image (image.size - distance) locatorSize
    if fields.take 4 = locatorMark then some ⟨fieldAt fields 4 4, fieldAt fields 8 8⟩ else none

/-- The first of the positions `position`, `position + 1`, …, `count` in all, where the mark of a wide end record
stands. -/
def searchWideEnd (image : Array UInt8) (position : Nat) : (count : Nat) → Option Nat
  | 0 => none
  | count + 1 =>
    if slice image position 4 = wideEndMark then some position else searchWideEnd image (position + 1) count

/-- Where the directory is: its position, the number of its headers, and the number of bytes before the archive. -/
structure Directory where
  start : Nat
  count : Nat
  shift : Nat

/-- The directory of which the end record speaks. -/
def EndRecord.directory (found : EndRecord) : Except ArchiveFault Directory := do
  if found.position < found.directorySize + found.directoryOffset then throw .invalidDirectoryExtent
  return {
    start := found.position - found.directorySize
    count := found.countOnDisk
    shift := found.position - found.directorySize - found.directoryOffset }

/-- The directory of which the wide end record speaks. -/
def wideDirectory (image : Array UInt8) (found : EndRecord) (locator : Locator) : Except ArchiveFault Directory := do
  if !found.isNarrow ∧ found.disk ≠ locator.disk then throw .multipleDisks
  if found.position < wideEndReach then throw .noRoomForWideEndRecord
  let last := found.position - wideEndReach
  let some position := searchWideEnd image locator.wideEndStart (last + 1 - locator.wideEndStart)
    | throw .noWideEndRecord
  let fields ← record image position wideEndRecordSize
  if fieldAt fields 16 4 ≠ fieldAt fields 20 4 then throw .multipleDisks
  let shift := position - locator.wideEndStart
  let start := fieldAt fields 48 8 + shift
  if maxWide < start then throw .invalidDirectoryExtent
  return { start, shift, count := fieldAt fields 32 8 }

/-- Finds the directory. -/
def directory (image : Array UInt8) : Except ArchiveFault Directory := do
  let found ← endRecord image
  if !found.isNarrow ∧ found.disk ≠ found.directoryDisk then throw .multipleDisks
  match locator? image found with
  | some locator => wideDirectory image found locator
  | none => found.directory

end ClassCensus.Archive
