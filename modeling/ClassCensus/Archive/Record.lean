import ClassCensus.Archive.Inflate

/-!
# Records of archives

An archive is an image of bytes in which records stand, each at some position. The numbers in a record are
little-endian, most records begin with a mark, and what is wrong with an archive or an entry is a fault.

* (end) reading past the end of the image is a fault, whatever is read.
-/

namespace ClassCensus.Archive

/-- What is wrong with an archive or an entry. -/
inductive ArchiveFault where
  | tooSmall
  | noEndRecord
  | noRoomForWideEndRecord
  | noWideEndRecord
  | invalidDirectoryExtent
  | invalidDirectoryHeader
  | startTooLarge
  | invalidEntryHeader
  | multipleDisks
  | unsupportedMethod
  | encrypted
  | cipherFieldMissing
  | cipherFieldLength
  | cipherVendor
  | cipherVersion
  | cipherStrength
  | truncated
  | invalidChecksum
  | inflate (fault : InflateFault)
deriving DecidableEq

/-- The text of a fault of an archive or an entry. -/
def ArchiveFault.message : ArchiveFault → String
  | .tooSmall => "invalid Zip archive: Invalid zip header"
  | .noEndRecord => "invalid Zip archive: Could not find central directory end"
  | .noRoomForWideEndRecord => "invalid Zip archive: File cannot contain ZIP64 central directory end"
  | .noWideEndRecord => "invalid Zip archive: Could not find ZIP64 central directory end"
  | .invalidDirectoryExtent => "invalid Zip archive: Invalid central directory size or offset"
  | .invalidDirectoryHeader => "invalid Zip archive: Invalid Central Directory header"
  | .startTooLarge => "invalid Zip archive: Archive header is too large"
  | .invalidEntryHeader => "invalid Zip archive: Invalid local file header"
  | .multipleDisks => "unsupported Zip archive: Support for multi-disk files is not implemented"
  | .unsupportedMethod => "unsupported Zip archive: Compression method not supported"
  | .encrypted => "unsupported Zip archive: Password required to decrypt file"
  | .cipherFieldMissing => "invalid Zip archive: AES encryption without AES extra data field"
  | .cipherFieldLength => "unsupported Zip archive: AES extra data field has an unsupported length"
  | .cipherVendor => "invalid Zip archive: Invalid AES vendor"
  | .cipherVersion => "invalid Zip archive: Invalid AES vendor version"
  | .cipherStrength => "invalid Zip archive: Invalid AES encryption strength"
  | .truncated => "failed to fill whole buffer"
  | .invalidChecksum => "Invalid checksum"
  | .inflate .corrupt => "corrupt deflate stream"
  | .inflate .incomplete => "incomplete deflate stream"

/-- The number that bytes spell, the first byte being the least significant. -/
def littleEndian (bytes : List UInt8) : Nat :=
  bytes.foldr (fun b n => b.toNat + 256 * n) 0

/-- The number in `width` bytes from `offset` on in a record. -/
def fieldAt (record : List UInt8) (offset width : Nat) : Nat :=
  littleEndian ((record.drop offset).take width)

/-- The greatest number in eight bytes. -/
def maxWide : Nat := 0xFFFFFFFFFFFFFFFF

/-- The number in four bytes that refers to a wider number elsewhere. -/
def saturated : Nat := 0xFFFFFFFF

/-- At most `length` bytes of an image from `start` on. -/
def slice (image : Array UInt8) (start length : Nat) : List UInt8 :=
  (image.extract start (start + length)).toList

/-- Exactly `length` bytes of an image from `start` on. -/
def record (image : Array UInt8) (start length : Nat) : Except ArchiveFault (List UInt8) :=
  let bytes := slice image start length
  if bytes.length < length then .error .truncated else .ok bytes

/-- A record of `length` bytes from `start` on that begins with the mark `mark`. -/
def markedRecord (mark : List UInt8) (fault : ArchiveFault) (image : Array UInt8) (start length : Nat) :
    Except ArchiveFault (List UInt8) := do
  let found ← record image start mark.length
  if found ≠ mark then throw fault
  record image start length

end ClassCensus.Archive
