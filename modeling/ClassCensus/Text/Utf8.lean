/-!
# Reading UTF-8

A byte string falls apart into pieces: characters in their shortest form, and broken pieces, each the longest start of
a character that cannot be completed (or a single byte that starts none).

* (loss) `decodeLossy` reads every byte string and puts the replacement character for each broken piece;
* (faults) `decode` reads a byte string without broken pieces and otherwise reports where the first one starts and,
  unless the bytes end inside it, how long it is.
-/

namespace ClassCensus.Text.Utf8

/-- What a byte of two or more announces: the bytes that follow it and the range of the first of them. -/
structure Lead where
  following : Nat
  least : UInt8
  greatest : UInt8

/-- The lead bytes of characters of two, three and four bytes; the ranges exclude overlong forms, surrogates and
numbers above U+10FFFF. -/
def lead? (b : UInt8) : Option Lead :=
  if 0xC2 ≤ b ∧ b ≤ 0xDF then some ⟨1, 0x80, 0xBF⟩
  else if b = 0xE0 then some ⟨2, 0xA0, 0xBF⟩
  else if b = 0xED then some ⟨2, 0x80, 0x9F⟩
  else if 0xE1 ≤ b ∧ b ≤ 0xEF then some ⟨2, 0x80, 0xBF⟩
  else if b = 0xF0 then some ⟨3, 0x90, 0xBF⟩
  else if 0xF1 ≤ b ∧ b ≤ 0xF3 then some ⟨3, 0x80, 0xBF⟩
  else if b = 0xF4 then some ⟨3, 0x80, 0x8F⟩
  else none

/-- A byte that continues a character. -/
def isContinuation (b : UInt8) : Bool :=
  0x80 ≤ b && b ≤ 0xBF

/-- A piece of a byte string: a character, a start of a character of the given number of bytes that the next byte
does not continue, or a start of a character that the end of the bytes cuts off. -/
inductive Piece where
  | char (c : Char)
  | broken (length : Nat)
  | cutOff
deriving DecidableEq

/-- The six bits that a continuation byte carries. -/
def payload (b : UInt8) : Nat :=
  b.toNat % 64

/-- The first piece of the bytes `b :: bytes`, with the bytes after it. -/
def firstPiece (b : UInt8) (bytes : List UInt8) : Piece × List UInt8 :=
  if b < 0x80 then (.char (Char.ofNat b.toNat), bytes)
  else match lead? b, bytes with
  | none, _ => (.broken 1, bytes)
  | some _, [] => (.cutOff, [])
  | some lead, c :: bytes₁ =>
    if c < lead.least ∨ lead.greatest < c then (.broken 1, bytes)
    else if lead.following = 1 then (.char (Char.ofNat (b.toNat % 32 * 64 + payload c)), bytes₁)
    else match bytes₁ with
    | [] => (.cutOff, [])
    | d :: bytes₂ =>
      if !isContinuation d then (.broken 2, bytes₁)
      else if lead.following = 2 then
        (.char (Char.ofNat ((b.toNat % 16 * 64 + payload c) * 64 + payload d)), bytes₂)
      else match bytes₂ with
      | [] => (.cutOff, [])
      | e :: bytes₃ =>
        if !isContinuation e then (.broken 3, bytes₂)
        else (.char (Char.ofNat (((b.toNat % 8 * 64 + payload c) * 64 + payload d) * 64 + payload e)), bytes₃)

theorem length_firstPiece_le (b : UInt8) (bytes : List UInt8) : (firstPiece b bytes).2.length ≤ bytes.length := by
  unfold firstPiece
  repeat' split
  all_goals simp
  all_goals omega

/-- The pieces of `bytes` in order, after the pieces `read` (latest first). -/
def piecesOnto (read : List Piece) : List UInt8 → List Piece
  | [] => read.reverse
  | b :: bytes => piecesOnto ((firstPiece b bytes).1 :: read) (firstPiece b bytes).2
termination_by bytes => bytes.length
decreasing_by
  have := length_firstPiece_le b bytes
  simp only [List.length_cons]; omega

/-- The pieces of `bytes` in order. -/
def pieces (bytes : List UInt8) : List Piece :=
  piecesOnto [] bytes

/-- Where the first broken piece starts, and its length unless the bytes end inside it. -/
structure Fault where
  position : Nat
  length? : Option Nat
deriving DecidableEq

/-- The text of a fault. -/
def Fault.message : Fault → String
  | ⟨position, some length⟩ => s!"invalid utf-8 sequence of {length} bytes from index {position}"
  | ⟨position, none⟩ => s!"incomplete utf-8 byte sequence from index {position}"

/-- The characters of pieces that start at `position`, after the characters `read` (latest first). -/
def charsOnto (position : Nat) (read : List Char) : List Piece → Except Fault (List Char)
  | [] => .ok read.reverse
  | .char c :: rest => charsOnto (position + c.utf8Size) (c :: read) rest
  | .broken length :: _ => .error ⟨position, some length⟩
  | .cutOff :: _ => .error ⟨position, none⟩

/-- The text that `bytes` encode. -/
def decode (bytes : List UInt8) : Except Fault String :=
  String.ofList <$> charsOnto 0 [] (pieces bytes)

/-- What stands for a piece where every byte string has to read as a text. -/
def Piece.toChar : Piece → Char
  | .char c => c
  | .broken _ | .cutOff => '\uFFFD'

/-- The text that `bytes` encode, with the replacement character for each broken piece. -/
def decodeLossy (bytes : List UInt8) : String :=
  String.ofList ((pieces bytes).map Piece.toChar)

end ClassCensus.Text.Utf8
