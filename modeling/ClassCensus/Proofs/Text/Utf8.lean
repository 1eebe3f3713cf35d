import ClassCensus.Proofs.Outcome
import ClassCensus.Text.Utf8
import Mathlib.Tactic.SplitIfs

/-!
# Writing UTF-8

`Text.Utf8.encode` writes characters in UTF-8.  Reading takes the bytes apart into these characters again, with and
without loss (`decode_encode`, `decodeLossy_encode`), and no other bytes are read without loss (`decode_eq_ok_iff`).

* (ASCII) a character below U+0080 is a single byte, and the bytes of all others are above: an ASCII byte in the bytes
  of a text always stands for its character (`eq_append_of_encode`, `mem_encode_iff`).
-/

namespace ClassCensus.Text.Utf8

/-- The bytes of characters in UTF-8. -/
def encode (chars : List Char) : List UInt8 :=
  chars.flatMap String.utf8EncodeChar

@[simp] theorem encode_nil : encode [] = [] := rfl

@[simp] theorem encode_cons (c : Char) (chars : List Char) :
    encode (c :: chars) = String.utf8EncodeChar c ++ encode chars := rfl

@[simp] theorem encode_append (left right : List Char) : encode (left ++ right) = encode left ++ encode right :=
  List.flatMap_append

theorem encode_flatMap {α : Type} (f : α → List Char) (as : List α) :
    encode (as.flatMap f) = as.flatMap fun a => encode (f a) :=
  List.flatMap_assoc

/-! ### Characters -/

private theorem not_lt_of_toNat {b c : UInt8} (h : c.toNat ≤ b.toNat) : ¬ b < c :=
  fun lt => Nat.not_lt.2 h (UInt8.lt_iff_toNat_lt.1 lt)

/-- The byte `c` may follow the byte `b` of a character with at least two more bytes: the form is the shortest one,
and the character is no surrogate and not above U+10FFFF. -/
private def MayFollow (b c : UInt8) : Prop :=
  (0x80 ≤ c.toNat ∧ c.toNat ≤ 0xBF) ∧ (b.toNat = 0xE0 → 0xA0 ≤ c.toNat) ∧ (b.toNat = 0xED → c.toNat ≤ 0x9F) ∧
    (b.toNat = 0xF0 → 0x90 ≤ c.toNat) ∧ (b.toNat = 0xF4 → c.toNat ≤ 0x8F)

private theorem exists_lead? {b c : UInt8} (hb : 0xE0 ≤ b.toNat ∧ b.toNat ≤ 0xF4) (hc : MayFollow b c) :
    ∃ lead, lead? b = some lead ∧ lead.following = (if b.toNat < 0xF0 then 2 else 3) ∧
      ¬ (c < lead.least ∨ lead.greatest < c) := by
  obtain ⟨range, overlong, surrogate, overlong', large⟩ := hc
  simp only [lead?, UInt8.le_iff_toNat_le, UInt8.lt_iff_toNat_lt, ← UInt8.toNat_inj, UInt8.reduceToNat]
  split_ifs
  all_goals first | omega | exact ⟨_, rfl, rfl, by simp only [UInt8.reduceToNat]; omega⟩

private theorem isContinuation_of_toNat {c : UInt8} (range : 0x80 ≤ c.toNat ∧ c.toNat ≤ 0xBF) :
    isContinuation c = true :=
  Bool.and_eq_true_iff.2 ⟨decide_eq_true range.1, decide_eq_true range.2⟩

private theorem firstPiece_two {b c : UInt8} (rest : List UInt8) (hb : 0xC2 ≤ b.toNat ∧ b.toNat ≤ 0xDF)
    (hc : 0x80 ≤ c.toNat ∧ c.toNat ≤ 0xBF) :
    firstPiece b (c :: rest) = (.char (Char.ofNat (b.toNat % 32 * 64 + payload c)), rest) := by
  have lead : lead? b = some ⟨1, 0x80, 0xBF⟩ := if_pos hb
  have first : ¬ b < 0x80 := not_lt_of_toNat (show 0x80 ≤ b.toNat by omega)
  have inRange : ¬ (c < 0x80 ∨ 0xBF < c) := not_or.2 ⟨not_lt_of_toNat hc.1, not_lt_of_toNat hc.2⟩
  simp only [firstPiece, if_neg first, lead, if_neg inRange, if_true]

private theorem firstPiece_three {b c d : UInt8} (rest : List UInt8) (hb : 0xE0 ≤ b.toNat ∧ b.toNat ≤ 0xEF)
    (hc : MayFollow b c) (hd : 0x80 ≤ d.toNat ∧ d.toNat ≤ 0xBF) :
    firstPiece b (c :: d :: rest) =
      (.char (Char.ofNat ((b.toNat % 16 * 64 + payload c) * 64 + payload d)), rest) := by
  obtain ⟨lead, found, following, inRange⟩ := exists_lead? ⟨hb.1, by omega⟩ hc
  have first : ¬ b < 0x80 := not_lt_of_toNat (show 0x80 ≤ b.toNat by omega)
  rw [if_pos (by omega)] at following
  simp [firstPiece, first, found, inRange, following, isContinuation_of_toNat hd]

private theorem firstPiece_four {b c d e : UInt8} (rest : List UInt8) (hb : 0xF0 ≤ b.toNat ∧ b.toNat ≤ 0xF4)
    (hc : MayFollow b c) (hd : 0x80 ≤ d.toNat ∧ d.toNat ≤ 0xBF) (he : 0x80 ≤ e.toNat ∧ e.toNat ≤ 0xBF) :
    firstPiece b (c :: d :: e :: rest) =
      (.char (Char.ofNat (((b.toNat % 8 * 64 + payload c) * 64 + payload d) * 64 + payload e)), rest) := by
  obtain ⟨lead, found, following, inRange⟩ := exists_lead? ⟨by omega, hb.2⟩ hc
  have first : ¬ b < 0x80 := not_lt_of_toNat (show 0x80 ≤ b.toNat by omega)
  rw [if_neg (by omega)] at following
  simp [firstPiece, first, found, inRange, following, isContinuation_of_toNat hd, isContinuation_of_toNat he]

private theorem toNat_lt_or (c : Char) : c.val.toNat < 0xD800 ∨ 0xDFFF < c.val.toNat ∧ c.val.toNat < 0x110000 :=
  c.valid

private theorem char_ofNat (c : Char) {n : Nat} (h : n = c.val.toNat) : Piece.char (Char.ofNat n) = .char c := by
  rw [h]
  exact congrArg _ (Char.ofNat_toNat c)

/-- The bytes of a character are its first piece, whatever follows. -/
private theorem firstPiece_encodeChar (c : Char) (rest : List UInt8) :
    ∃ b bytes, String.utf8EncodeChar c = b :: bytes ∧ firstPiece b (bytes ++ rest) = (.char c, rest) := by
  have valid := toNat_lt_or c
  have byte {n : Nat} (h : n < 256) : (UInt8.ofNat n).toNat = n := UInt8.toNat_ofNat_of_lt' h
  unfold String.utf8EncodeChar
  dsimp only
  split_ifs with one two three
  · refine ⟨_, _, rfl, ?_⟩
    have small : UInt8.ofNat c.val.toNat < 0x80 := by
      rw [UInt8.lt_iff_toNat_lt, byte (by omega)]
      exact Nat.lt_succ_of_le one
    simp only [firstPiece, if_pos small, byte (show c.val.toNat < 256 by omega), char_ofNat c rfl, List.nil_append]
  · refine ⟨_, _, rfl, (firstPiece_two rest ?_ ?_).trans ?_⟩
    all_goals rw [byte (by omega)]
    · omega
    · omega
    · rw [payload, byte (by omega), char_ofNat c (by omega)]
  · refine ⟨_, _, rfl, (firstPiece_three rest ?_ ?_ ?_).trans ?_⟩
    · rw [byte (by omega)]; omega
    · unfold MayFollow
      rw [byte (by omega), byte (by omega)]
      omega
    · rw [byte (by omega)]; omega
    · rw [payload, payload, byte (by omega), byte (by omega), byte (by omega), char_ofNat c (by omega)]
  · refine ⟨_, _, rfl, (firstPiece_four rest ?_ ?_ ?_ ?_).trans ?_⟩
    · rw [byte (by omega)]; omega
    · unfold MayFollow
      rw [byte (by omega), byte (by omega)]
      omega
    · rw [byte (by omega)]; omega
    · rw [byte (by omega)]; omega
    · rw [payload, payload, payload, byte (by omega), byte (by omega), byte (by omega), byte (by omega),
        char_ofNat c (by omega)]

private theorem toNat_ofNat {n : Nat} (valid : n < 0xD800 ∨ 0xDFFF < n ∧ n < 0x110000) :
    (Char.ofNat n).val.toNat = n := by
  rw [Char.ofNat, dif_pos valid]
  rfl

private theorem byte_eq {n : Nat} {b : UInt8} (h : n = b.toNat) : UInt8.ofNat n = b := by
  rw [h, UInt8.ofNat_toNat]

private theorem encodeChar_one {b : UInt8} (hb : b.toNat < 0x80) :
    String.utf8EncodeChar (Char.ofNat b.toNat) = [b] := by
  rw [String.utf8EncodeChar, toNat_ofNat (by omega)]
  rw [if_pos (by omega), UInt8.ofNat_toNat]

private theorem encodeChar_two {b c : UInt8} (hb : 0xC2 ≤ b.toNat ∧ b.toNat ≤ 0xDF)
    (hc : 0x80 ≤ c.toNat ∧ c.toNat ≤ 0xBF) :
    String.utf8EncodeChar (Char.ofNat (b.toNat % 32 * 64 + payload c)) = [b, c] := by
  unfold payload
  rw [String.utf8EncodeChar, toNat_ofNat (by omega)]
  rw [if_neg (by omega), if_pos (by omega), @byte_eq _ b (by omega), @byte_eq _ c (by omega)]

private theorem encodeChar_three {b c d : UInt8} (hb : 0xE0 ≤ b.toNat ∧ b.toNat ≤ 0xEF) (hc : MayFollow b c)
    (hd : 0x80 ≤ d.toNat ∧ d.toNat ≤ 0xBF) :
    String.utf8EncodeChar (Char.ofNat ((b.toNat % 16 * 64 + payload c) * 64 + payload d)) = [b, c, d] := by
  obtain ⟨range, overlong, surrogate, -, -⟩ := hc
  unfold payload
  rw [String.utf8EncodeChar, toNat_ofNat (by omega)]
  rw [if_neg (by omega), if_neg (by omega), if_pos (by omega), @byte_eq _ b (by omega), @byte_eq _ c (by omega),
    @byte_eq _ d (by omega)]

private theorem encodeChar_four {b c d e : UInt8} (hb : 0xF0 ≤ b.toNat ∧ b.toNat ≤ 0xF4) (hc : MayFollow b c)
    (hd : 0x80 ≤ d.toNat ∧ d.toNat ≤ 0xBF) (he : 0x80 ≤ e.toNat ∧ e.toNat ≤ 0xBF) :
    String.utf8EncodeChar (Char.ofNat (((b.toNat % 8 * 64 + payload c) * 64 + payload d) * 64 + payload e)) =
      [b, c, d, e] := by
  obtain ⟨range, -, -, overlong, large⟩ := hc
  unfold payload
  rw [String.utf8EncodeChar, toNat_ofNat (by omega)]
  rw [if_neg (by omega), if_neg (by omega), if_neg (by omega), @byte_eq _ b (by omega), @byte_eq _ c (by omega),
    @byte_eq _ d (by omega), @byte_eq _ e (by omega)]

/-- What the byte `b` announces, and what is then known of the byte after it. -/
private theorem following_of_lead? {b c : UInt8} {lead : Lead} (h : lead? b = some lead)
    (inRange : ¬ (c < lead.least ∨ lead.greatest < c)) :
    lead.following = (if b.toNat < 0xE0 then 1 else if b.toNat < 0xF0 then 2 else 3) ∧
      (0xC2 ≤ b.toNat ∧ b.toNat ≤ 0xF4) ∧ MayFollow b c := by
  simp only [lead?, UInt8.le_iff_toNat_le, ← UInt8.toNat_inj, UInt8.reduceToNat] at h
  simp only [MayFollow, UInt8.lt_iff_toNat_lt] at inRange ⊢
  split_ifs at h
  all_goals
    obtain rfl := Option.some.inj h
    simp only [UInt8.reduceToNat] at inRange ⊢
    refine ⟨?_, by omega, by omega, fun _ => by omega, fun _ => by omega, fun _ => by omega, fun _ => by omega⟩
    split_ifs
    all_goals omega

private theorem toNat_of_isContinuation {c : UInt8} (h : ¬ (!isContinuation c) = true) :
    0x80 ≤ c.toNat ∧ c.toNat ≤ 0xBF := by
  simpa [isContinuation, UInt8.le_iff_toNat_le] using h

/-- A first piece that is a character is written as the bytes that it takes. -/
private theorem encodeChar_of_firstPiece {b : UInt8} {bytes rest : List UInt8} {c : Char}
    (h : firstPiece b bytes = (.char c, rest)) : b :: bytes = String.utf8EncodeChar c ++ rest := by
  unfold firstPiece at h
  split at h
  · next one =>
    cases h
    rw [encodeChar_one (UInt8.lt_iff_toNat_lt.1 one)]
    rfl
  split at h
  · cases h
  · cases h
  next lead found =>
  split at h
  · cases h
  next inRange =>
  obtain ⟨following, first, second⟩ := following_of_lead? found inRange
  split at h
  · next two =>
    cases h
    rw [two] at following
    rw [encodeChar_two ⟨first.1, by split_ifs at following <;> omega⟩ second.1]
    rfl
  split at h
  · cases h
  next d bytes =>
  split at h
  · cases h
  next third =>
  split at h
  · next one three =>
    cases h
    rw [three] at following
    rw [encodeChar_three (by split_ifs at following <;> omega) second (toNat_of_isContinuation third)]
    rfl
  next one three =>
  split at h
  · cases h
  next e bytes =>
  split at h
  · cases h
  next fourth =>
  cases h
  rw [encodeChar_four (by split_ifs at following <;> omega) second (toNat_of_isContinuation third)
    (toNat_of_isContinuation fourth)]
  rfl

/-! ### Texts -/

private theorem piecesOnto_eq (read : List Piece) (bytes : List UInt8) :
    piecesOnto read bytes = read.reverse ++ pieces bytes := by
  induction size : bytes.length using Nat.strongRecOn generalizing read bytes with
  | _ size ih =>
    subst size
    cases bytes with
    | nil => simp [pieces, piecesOnto]
    | cons b bytes =>
      have shorter := Nat.lt_succ_of_le (length_firstPiece_le b bytes)
      rw [pieces, piecesOnto, piecesOnto, ih _ shorter _ _ rfl, ih _ shorter [_] _ rfl]
      simp

theorem pieces_cons (b : UInt8) (bytes : List UInt8) :
    pieces (b :: bytes) = (firstPiece b bytes).1 :: pieces (firstPiece b bytes).2 := by
  rw [pieces, piecesOnto, piecesOnto_eq]
  rfl

theorem pieces_encode (chars : List Char) : pieces (encode chars) = chars.map .char := by
  induction chars with
  | nil => simp [pieces, piecesOnto]
  | cons c chars ih =>
    obtain ⟨b, bytes, written, first⟩ := firstPiece_encodeChar c (encode chars)
    rw [encode_cons, written, List.cons_append, pieces_cons, first, ih, List.map_cons]

private theorem charsOnto_map_char (position : Nat) (read chars : List Char) :
    charsOnto position read (chars.map .char) = .ok (read.reverse ++ chars) := by
  induction chars generalizing position read with
  | nil => simp [charsOnto]
  | cons c chars ih =>
    rw [List.map_cons, charsOnto, ih]
    simp

/-- A text that is written in UTF-8 is read back. -/
@[simp] theorem decode_encode (chars : List Char) : decode (encode chars) = .ok (String.ofList chars) := by
  rw [decode, pieces_encode, charsOnto_map_char]
  rfl

private theorem eq_encode_of_pieces {bytes : List UInt8} {chars : List Char} (h : pieces bytes = chars.map .char) :
    bytes = encode chars := by
  induction size : bytes.length using Nat.strongRecOn generalizing bytes chars with
  | _ size ih =>
    subst size
    match bytes with
    | [] =>
      obtain rfl : chars = [] := by simpa [pieces, piecesOnto] using h
      rfl
    | b :: bytes =>
      rw [pieces_cons] at h
      obtain ⟨c, rest, rfl, first, others⟩ := List.map_eq_cons_iff.1 h.symm
      have shorter := Nat.lt_succ_of_le (length_firstPiece_le b bytes)
      rw [encodeChar_of_firstPiece (Prod.ext first.symm rfl), encode_cons, ← ih _ shorter others.symm rfl]

private theorem exists_of_charsOnto {position : Nat} {read chars : List Char} {pieces : List Piece}
    (h : charsOnto position read pieces = .ok chars) :
    ∃ new, pieces = new.map .char ∧ chars = read.reverse ++ new := by
  fun_induction charsOnto position read pieces with
  | case1 =>
    cases h
    exact ⟨[], rfl, by simp⟩
  | case2 position read c rest ih =>
    obtain ⟨new, rfl, rfl⟩ := ih h
    exact ⟨c :: new, rfl, by simp⟩
  | case3 => cases h
  | case4 => cases h

/-- Bytes are read as a text exactly if they are that text in UTF-8. -/
theorem decode_eq_ok_iff {bytes : List UInt8} {text : String} :
    decode bytes = .ok text ↔ bytes = encode text.toList := by
  constructor
  · intro h
    obtain ⟨chars, read, rfl⟩ := Except.map_eq_ok_iff.1 h
    obtain ⟨new, all, rfl⟩ := exists_of_charsOnto read
    simpa using eq_encode_of_pieces all
  · rintro rfl
    rw [decode_encode, String.ofList_toList]

/-- Different texts have different bytes. -/
theorem encode_injective {left right : List Char} (h : encode left = encode right) : left = right := by
  have same : Except.ok (String.ofList left) = (Except.ok (String.ofList right) : Except Fault String) := by
    rw [← decode_encode, ← decode_encode, h]
  exact String.ofList_inj.1 (Except.ok.inj same)

@[simp] theorem decodeLossy_encode (chars : List Char) : decodeLossy (encode chars) = String.ofList chars := by
  rw [decodeLossy, pieces_encode, List.map_map]
  exact congrArg String.ofList (List.map_id chars)

/-! ### ASCII -/

/-- A character is a single byte below 128, or all its bytes are above. -/
theorem encodeChar_ascii_or (c : Char) :
    c.toNat < 0x80 ∧ String.utf8EncodeChar c = [UInt8.ofNat c.toNat] ∨
      0x80 ≤ c.toNat ∧ ∀ b ∈ String.utf8EncodeChar c, 0x80 ≤ b.toNat := by
  have byte {n : Nat} (h : n < 256) : (UInt8.ofNat n).toNat = n := UInt8.toNat_ofNat_of_lt' h
  unfold String.utf8EncodeChar
  show c.val.toNat < 0x80 ∧ _ ∨ 0x80 ≤ c.val.toNat ∧ _
  dsimp only
  split_ifs with one two three
  · exact .inl ⟨Nat.lt_succ_of_le one, rfl⟩
  all_goals
    refine .inr ⟨by omega, ?_⟩
    simp only [List.forall_mem_cons, List.not_mem_nil, false_implies, implies_true, and_true]
    repeat rw [byte (by omega)]
    omega

theorem encodeChar_ascii {c : Char} (ascii : c.toNat < 0x80) : String.utf8EncodeChar c = [UInt8.ofNat c.toNat] := by
  rcases encodeChar_ascii_or c with ⟨-, single⟩ | ⟨large, -⟩
  · exact single
  · omega

theorem encode_ne_nil {chars : List Char} (h : chars ≠ []) : encode chars ≠ [] := by
  obtain ⟨c, rest, rfl⟩ := List.exists_cons_of_ne_nil h
  obtain ⟨b, bytes, written, -⟩ := firstPiece_encodeChar c []
  simp [written]

/-- An ASCII byte in the bytes of a text stands for its character. -/
theorem eq_append_of_encode {x : Char} (ascii : x.toNat < 0x80) {chars : List Char} {left right : List UInt8}
    (h : encode chars = left ++ UInt8.ofNat x.toNat :: right) :
    ∃ before after, chars = before ++ x :: after ∧ left = encode before ∧ right = encode after := by
  have byte {n : Nat} (h : n < 256) : (UInt8.ofNat n).toNat = n := UInt8.toNat_ofNat_of_lt' h
  induction chars generalizing left with
  | nil => simp at h
  | cons c chars ih =>
    rw [encode_cons, List.append_eq_append_iff] at h
    rcases h with ⟨between, rfl, rest⟩ | ⟨between, bytes, rest⟩
    · obtain ⟨before, after, rfl, rfl, rfl⟩ := ih rest
      exact ⟨c :: before, after, rfl, rfl, rfl⟩
    · cases between with
      | nil =>
        obtain ⟨before, after, rfl, empty, rfl⟩ := @ih [] rest.symm
        rw [List.append_nil] at bytes
        exact ⟨c :: before, after, rfl, by rw [encode_cons, ← empty, bytes, List.append_nil], rfl⟩
      | cons b between =>
        -- the byte is one of those of the first character, which is then its only one
        obtain ⟨rfl, rfl⟩ := List.cons.inj rest
        rcases encodeChar_ascii_or c with ⟨small, single⟩ | ⟨-, large⟩
        · rw [single] at bytes
          have size := congrArg List.length bytes
          simp only [List.length_append, List.length_cons, List.length_nil] at size
          obtain rfl : left = [] := List.length_eq_zero_iff.1 (by omega)
          obtain rfl : between = [] := List.length_eq_zero_iff.1 (by omega)
          obtain rfl : c = x := by
            have e := congrArg UInt8.toNat (List.cons.inj bytes).1
            rw [byte (by omega), byte (by omega)] at e
            exact Char.toNat_inj.1 e
          exact ⟨[], chars, rfl, rfl, rfl⟩
        · have := large (UInt8.ofNat x.toNat) (by simp [bytes])
          rw [byte (by omega)] at this
          omega

/-- What starts with an ASCII character at the end of the bytes of a text stands at the end of the text. -/
theorem suffix_of_encode {x : Char} (ascii : x.toNat < 0x80) {ending chars : List Char}
    (h : encode (x :: ending) <:+ encode chars) : x :: ending <:+ chars := by
  obtain ⟨left, split⟩ := h
  rw [encode_cons, encodeChar_ascii ascii, List.singleton_append] at split
  obtain ⟨before, after, rfl, -, same⟩ := eq_append_of_encode ascii split.symm
  rw [encode_injective same]
  exact List.suffix_append before _

/-- An ASCII byte occurs in the bytes of a text exactly if its character occurs in the text. -/
theorem mem_encode_iff {x : Char} (ascii : x.toNat < 0x80) {chars : List Char} :
    UInt8.ofNat x.toNat ∈ encode chars ↔ x ∈ chars := by
  constructor
  · intro mem
    obtain ⟨left, right, split⟩ := List.append_of_mem mem
    obtain ⟨before, after, rfl, -⟩ := eq_append_of_encode ascii split
    simp
  · intro mem
    exact List.mem_flatMap.2 ⟨x, mem, by simp [encodeChar_ascii ascii]⟩

end ClassCensus.Text.Utf8
