/-!
# Inflating

A deflated byte string is a sequence of blocks of bits, each stored as it is or written in codes for single bytes and
for repetitions of bytes that came before.

* (bits) bits are taken from each byte from the least significant end (`BitSource`); codes are read bit by bit, from
  their most significant end;
* (codes) the lengths of its codewords fix a code (`PrefixCode.ofLengths`); they have to fill the space of codewords,
  but the codes of a block may also have no codeword at all, or a single one of one bit (`PrefixCode.isSparse`);
* (repetitions) the bytes before the start count as zeros for a repetition;
* (bounds) every symbol takes at least one bit, so the number of bits bounds the number of steps;
* (end) bytes after the last block are left alone.
-/

namespace ClassCensus.Archive

/-- Why a deflated byte string cannot be inflated: it is wrong, or it ends too early. -/
inductive InflateFault where
  | corrupt
  | incomplete
deriving DecidableEq

/-- The bits ahead: the `left` low bits of `current`, then the bits of `rest`. -/
structure BitSource where
  current : Nat
  left : Nat
  rest : List UInt8

/-- A reading of bits. -/
abbrev BitReader := StateT BitSource (Except InflateFault)

namespace BitReader

/-- The next bit. -/
def bit : BitReader Nat := fun source =>
  match source.left, source.rest with
  | left + 1, rest => .ok (source.current % 2, ⟨source.current / 2, left, rest⟩)
  | 0, b :: rest => .ok (b.toNat % 2, ⟨b.toNat / 2, 7, rest⟩)
  | 0, [] => .error .incomplete

/-- The next `n` bits as a number, the least significant bit first. -/
def bits : (n : Nat) → BitReader Nat
  | 0 => return 0
  | n + 1 => do
    let low ← bit
    let high ← bits n
    return low + 2 * high

/-- Passes over the bits up to the next byte, and takes `n` bytes. -/
def alignedBytes (n : Nat) : BitReader (List UInt8) := fun source =>
  let taken := source.rest.take n
  if taken.length < n then .error .incomplete else .ok (taken, ⟨0, 0, source.rest.drop n⟩)

end BitReader

/-- A prefix code: the number of codewords of each length from 1 on, and the symbols in the order of their
codewords. -/
structure PrefixCode where
  counts : List Nat
  symbols : Array Nat

namespace PrefixCode

/-- The symbols with codewords of the given length. -/
def symbolsOfLength (lengths : List Nat) (length : Nat) : List Nat :=
  (lengths.zipIdx.filter (·.1 = length)).map (·.2)

/-- The code in which the symbol `i` has a codeword of `lengths[i]` bits, or none if that is 0. -/
def ofLengths (lengths : List Nat) : PrefixCode :=
  let longest := lengths.foldl max 1
  let groups := (List.range longest).map fun i => symbolsOfLength lengths (i + 1)
  ⟨groups.map List.length, groups.flatten.toArray⟩

/-- The codewords fill the space: every long enough sequence of bits starts with exactly one of them. -/
def isComplete (code : PrefixCode) : Bool :=
  code.counts.foldl (fun space count => 2 * (space + count)) 0 = Nat.pow 2 (code.counts.length + 1)

/-- There is no codeword, or a single one of one bit. -/
def isSparse (code : PrefixCode) : Bool :=
  code.counts = [0] || code.counts = [1]

/-- The symbol of the codeword ahead: `word` is what has been read, `first` the first codeword of the next length less
its last bit, `index` the number of shorter codewords. -/
def symbolFrom (symbols : Array Nat) (word first index : Nat) : (counts : List Nat) → BitReader Nat
  | [] => throw .corrupt
  | count :: counts => do
    let word := 2 * word + (← BitReader.bit)
    let first := 2 * first
    if word < first + count then
      match symbols[index + (word - first)]? with
      | some symbol => return symbol
      | none => throw .corrupt
    else symbolFrom symbols word (first + count) (index + count) counts

/-- The symbol of the codeword ahead. -/
def symbol (code : PrefixCode) : BitReader Nat :=
  symbolFrom code.symbols 0 0 0 code.counts

end PrefixCode

namespace Inflate

/-- The least length, and the number of extra bits, of the repetitions that the symbols from 257 on stand for. -/
def lengthTable : Array (Nat × Nat) := #[
  (3, 0), (4, 0), (5, 0), (6, 0), (7, 0), (8, 0), (9, 0), (10, 0), (11, 1), (13, 1), (15, 1), (17, 1), (19, 2),
  (23, 2), (27, 2), (31, 2), (35, 3), (43, 3), (51, 3), (59, 3), (67, 4), (83, 4), (99, 4), (115, 4), (131, 5),
  (163, 5), (195, 5), (227, 5), (258, 0)]

/-- The least distance, and the number of extra bits, that the distance symbols stand for. -/
def distanceTable : Array (Nat × Nat) := #[
  (1, 0), (2, 0), (3, 0), (4, 0), (5, 1), (7, 1), (9, 2), (13, 2), (17, 3), (25, 3), (33, 4), (49, 4), (65, 5),
  (97, 5), (129, 6), (193, 6), (257, 7), (385, 7), (513, 8), (769, 8), (1025, 9), (1537, 9), (2049, 10), (3073, 10),
  (4097, 11), (6145, 11), (8193, 12), (12289, 12), (16385, 13), (24577, 13)]

/-- The value of a symbol in a table of least values and extra bits. -/
def tableValue (table : Array (Nat × Nat)) (symbol : Nat) : BitReader Nat := do
  match table[symbol]? with
  | some (least, extra) => return least + (← BitReader.bits extra)
  | none => throw .corrupt

/-- Appends `length` bytes, each the one `distance` bytes before it. -/
def repeatBytes (distance : Nat) (output : Array UInt8) : (length : Nat) → Array UInt8
  | 0 => output
  | length + 1 =>
    let b := if distance ≤ output.size then output.getD (output.size - distance) 0 else 0
    repeatBytes distance (output.push b) length

/-- The output after the symbols up to the end of the block, in at most `bound` steps. -/
def symbols (literals distances : PrefixCode) (output : Array UInt8) : (bound : Nat) → BitReader (Array UInt8)
  | 0 => throw .incomplete
  | bound + 1 => do
    let symbol ← literals.symbol
    if symbol < 256 then
      symbols literals distances (output.push (UInt8.ofNat symbol)) bound
    else if symbol = 256 then
      return output
    else
      let length ← tableValue lengthTable (symbol - 257)
      let distance ← tableValue distanceTable (← distances.symbol)
      symbols literals distances (repeatBytes distance output length) bound

/-- A stored block: its length, the complement of its length, and its bytes. -/
def storedBlock (output : Array UInt8) : BitReader (Array UInt8) := do
  match ← BitReader.alignedBytes 4 with
  | [low, high, lowInverse, highInverse] =>
    if lowInverse ≠ ~~~low ∨ highInverse ≠ ~~~high then throw .corrupt
    let bytes ← BitReader.alignedBytes (low.toNat + 256 * high.toNat)
    return output ++ bytes.toArray
  | _ => throw .incomplete

/-- The lengths of the codewords of the fixed code for bytes and lengths. -/
def fixedLiteralLengths : List Nat :=
  List.replicate 144 8 ++ List.replicate 112 9 ++ List.replicate 24 7 ++ List.replicate 8 8

/-- The lengths of the codewords of the fixed code for distances. -/
def fixedDistanceLengths : List Nat :=
  List.replicate 32 5

/-- The order in which the lengths of the codewords for lengths are written. -/
def lengthOrder : List Nat :=
  [16, 17, 18, 0, 8, 7, 9, 6, 10, 5, 11, 4, 12, 3, 13, 2, 14, 1, 15]

/-- The code of a block, with codewords of the given lengths. -/
def blockCode (lengths : List Nat) : BitReader PrefixCode :=
  let code := PrefixCode.ofLengths lengths
  if code.isComplete || code.isSparse then return code else throw .corrupt

/-- The code for the lengths of codewords, with codewords of the given lengths. -/
def lengthCode (lengths : List Nat) : BitReader PrefixCode :=
  let code := PrefixCode.ofLengths lengths
  if code.isComplete then return code else throw .corrupt

/-- The next `n` lengths, each in three bits. -/
def shortLengths : (n : Nat) → BitReader (List Nat)
  | 0 => return []
  | n + 1 => do
    let length ← BitReader.bits 3
    return length :: (← shortLengths n)

/-- The lengths up to the number `total`, after the lengths `read` (latest first), in at most `bound` steps. -/
def lengthsOnto (code : PrefixCode) (total : Nat) (read : List Nat) : (bound : Nat) → BitReader (List Nat)
  | 0 => throw .corrupt
  | bound + 1 => do
    if total < read.length then throw .corrupt
    else if read.length = total then return read.reverse
    else
      let symbol ← code.symbol
      if symbol < 16 then lengthsOnto code total (symbol :: read) bound
      else if symbol = 16 then
        match read with
        | [] => throw .corrupt
        | last :: _ =>
          let count := 3 + (← BitReader.bits 2)
          lengthsOnto code total (List.replicate count last ++ read) bound
      else
        let count ← if symbol = 17 then (3 + ·) <$> BitReader.bits 3 else (11 + ·) <$> BitReader.bits 7
        lengthsOnto code total (List.replicate count 0 ++ read) bound

/-- The codes that a block brings with it. -/
def dynamicCodes : BitReader (PrefixCode × PrefixCode) := do
  let literals := 257 + (← BitReader.bits 5)
  let distances := 1 + (← BitReader.bits 5)
  let count := 4 + (← BitReader.bits 4)
  if 286 < literals ∨ 30 < distances then throw .corrupt
  let short ← shortLengths count
  let byPlace := lengthOrder.zip short
  let code ← lengthCode ((List.range 19).map fun place => (byPlace.lookup place).getD 0)
  let total := literals + distances
  let lengths ← lengthsOnto code total [] (total + 1)
  return (← blockCode (lengths.take literals), ← blockCode (lengths.drop literals))

/-- The output after a block, and whether it is the last block. -/
def block (bound : Nat) (output : Array UInt8) : BitReader (Array UInt8 × Bool) := do
  let last := (← BitReader.bit) = 1
  match ← BitReader.bits 2 with
  | 0 => return (← storedBlock output, last)
  | 1 =>
    let literals ← blockCode fixedLiteralLengths
    let distances ← blockCode fixedDistanceLengths
    return (← symbols literals distances output bound, last)
  | 2 =>
    let (literals, distances) ← dynamicCodes
    return (← symbols literals distances output bound, last)
  | _ => throw .corrupt

/-- The output after all blocks; `bound` bounds their number and the number of symbols of each. -/
def blocks (bound : Nat) (output : Array UInt8) : (remaining : Nat) → BitReader (Array UInt8)
  | 0 => throw .incomplete
  | remaining + 1 => do
    let (output, last) ← block bound output
    if last then return output else blocks bound output remaining

end Inflate

/-- The bytes that a deflated byte string stands for. -/
def inflate (bytes : List UInt8) : Except InflateFault (List UInt8) :=
  let bound := 8 * bytes.length + 1
  ((Inflate.blocks bound #[] bound).run ⟨0, 0, bytes⟩).map fun result => result.1.toList

end ClassCensus.Archive
