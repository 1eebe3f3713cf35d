/-!
# Checksums

The 32-bit cyclic redundancy check of archives: bits enter from the least significant end, the register starts and
ends inverted.
-/

namespace ClassCensus.Archive

/-- The generator polynomial, with its bits reversed. -/
def checksumPolynomial : UInt32 := 0xEDB88320

/-- The register after one more bit. -/
def checksumShift (register : UInt32) : UInt32 :=
  if register &&& 1 = 1 then (register >>> 1) ^^^ checksumPolynomial else register >>> 1

/-- The register after one more byte. -/
def checksumByte (register : UInt32) (b : UInt8) : UInt32 :=
  Nat.repeat checksumShift 8 (register ^^^ b.toUInt32)

/-- The checksum of a byte string. -/
def checksum (bytes : List UInt8) : UInt32 :=
  bytes.foldl checksumByte 0xFFFFFFFF ^^^ 0xFFFFFFFF

end ClassCensus.Archive
