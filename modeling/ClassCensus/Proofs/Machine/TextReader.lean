import ClassCensus.Proofs.Machine.Following
import ClassCensus.Proofs.TypeText.Reading

/-!
# Reading type texts by bytes

A `TextReader` holds a text in UTF-8 and the number of the next byte.  Its readings are those of `TypeParser`, but they
look at bytes, go on byte by byte, and cut names out of the text between two bytes.

* (places) a reader that follows a parser stands in front of a character (`onText`); so whatever is passed over has to
  be known as a whole character, which an ASCII byte is (`followsAt_advance`);
* (blindness) a byte outside of ASCII is part of a character that no parser asks for: all of them are treated alike
  (`Blind`), and a parser sees as much in a byte as in its character (`followsAt_peek`);
* (names) the bytes in front of a stop character are those of whole characters, so that a name is cut between characters
  (`follows_identifier`);
* (repetition) a part that takes a character cannot be repeated more often than there are characters
  (`follows_repeatWhile`).
-/

namespace ClassCensus.Machine

/-- A text and the number of a byte in it. -/
structure TextReader where
  text : String
  position : Nat

/-- The bytes of the text. -/
def TextReader.bytes (r : TextReader) : List UInt8 :=
  Text.Utf8.encode r.text.toList

/-- A reading of a text. -/
abbrev TextReading := Reading TextReader

namespace TextReader

/-- The next byte, as the character of the same number. -/
def peek : TextReading (Option Char) := do
  let r ← get
  return r.bytes[r.position]?.map Char.ofUInt8

/-- Passes over the next byte. -/
def advance : TextReading Unit :=
  modify fun r => { r with position := r.position + 1 }

/-- Refuses the text for what is wrong at the next byte. -/
def refuse {α : Type} (f : TypeFault) : TextReading α := do
  let r ← get
  throw (.typeText f r.position r.text)

/-- The characters between two places, of which there is at least one, with a byte behind them. -/
def name (start stop : TextReader) : TextReading String := do
  if stop.position = start.position ∨ stop.bytes[stop.position]? = none then refuse .unterminatedIdentifier
  let chars ← cut start.text.toList start.position stop.position
  return String.ofList chars

/-- The characters up to a stop byte; the stop byte stays ahead. -/
def identifier (isStop : Char → Bool) : TextReading String := do
  let start ← get
  let passed := (start.bytes.drop start.position).takeWhile fun b => !isStop (Char.ofUInt8 b)
  let stop := { start with position := start.position + passed.length }
  set stop
  name start stop

/-- Repeats `item` after the results `read` (latest first) while `more` holds of the next byte. -/
def repeatOnto {α : Type} (more : Option Char → Bool) (item : TextReading α) (read : List α) :
    (rounds : Nat) → TextReading (List α)
  | 0 => (fault .endless : Checked (List α))
  | rounds + 1 => do
    if more (← peek) then
      let a ← item
      repeatOnto more item (a :: read) rounds
    else return read.reverse

/-- Repeats `item` while `more` holds of the next byte. -/
def repeatWhile {α : Type} (rounds : Nat) (more : Option Char → Bool) (item : TextReading α) :
    TextReading (List α) :=
  repeatOnto more item [] rounds

/-- The end of the text. -/
def finish : TextReading Unit := do
  let r ← get
  if r.position ≠ r.bytes.length then refuse .trailingCharacters

/-- Reads a whole text with a reading that takes a number of rounds for its repetitions. -/
def parse {α : Type} (reading : (rounds : Nat) → TextReading α) (text : String) : Checked α :=
  (do let a ← reading (text.toList.length + 1); finish; return a : TextReading α).run' ⟨text, 0⟩

end TextReader

/-- The readers of a text, standing for the cursors in it. -/
def onText (text : String) : View TypeFault TypeCursor TextReader where
  state cursor := ⟨text, cursor.position⟩
  Valid cursor := ∃ before, text.toList = before ++ cursor.rest ∧ cursor.position = (Text.Utf8.encode before).length
  report f cursor := .typeText f cursor.position text

/-- All characters outside of ASCII are treated alike. -/
def Blind {β : Type} (f : Option Char → β) : Prop :=
  ∀ c c' : Char, 0x80 ≤ c.toNat → 0x80 ≤ c'.toNat → f (some c) = f (some c')

theorem ne_of_large {c x : Char} (large : 0x80 ≤ c.toNat) (ascii : x.toNat < 0x80) : c ≠ x := by
  rintro rfl
  omega

theorem blind_next {x : Char} (ascii : x.toNat < 0x80) : Blind fun next => next = some x := by
  intro c c' large large'
  simp [ne_of_large large ascii, ne_of_large large' ascii]

namespace Blind

variable {β : Type} {P Q : Option Char → Prop}

theorem not (h : Blind P) : Blind fun next => ¬ P next :=
  fun c c' large large' => congrArg Not (h c c' large large')

theorem or (h : Blind P) (h' : Blind Q) : Blind fun next => P next ∨ Q next :=
  fun c c' large large' => congrArg₂ Or (h c c' large large') (h' c c' large large')

theorem decide [DecidablePred P] (h : Blind P) : Blind fun next => decide (P next) :=
  fun c c' large large' => decide_eq_decide.2 (Eq.to_iff (h c c' large large'))

theorem ite [DecidablePred P] (h : Blind P) (a b : β) : Blind fun next => if P next then a else b := by
  intro c c' large large'
  simp only [h c c' large large']

end Blind

namespace TextReader

open View

variable {text : String} {α β : Type} {cursor : TypeCursor}

/-! ### Bytes ahead -/

private theorem encode_eq_nil_iff {chars : List Char} : Text.Utf8.encode chars = [] ↔ chars = [] :=
  ⟨fun h => by_contra fun ne => Text.Utf8.encode_ne_nil ne h, fun h => h ▸ rfl⟩

/-- The bytes ahead are those of the characters ahead. -/
private theorem drop_bytes (valid : (onText text).Valid cursor) :
    ((onText text).state cursor).bytes.drop cursor.position = Text.Utf8.encode cursor.rest := by
  obtain ⟨before, split, place⟩ := valid
  show (Text.Utf8.encode text.toList).drop cursor.position = _
  rw [split, Text.Utf8.encode_append, place, List.drop_left]

private theorem getElem?_bytes (valid : (onText text).Valid cursor) :
    ((onText text).state cursor).bytes[cursor.position]? = (Text.Utf8.encode cursor.rest).head? := by
  rw [← drop_bytes valid, List.head?_drop]

theorem length_rest_le (valid : (onText text).Valid cursor) : cursor.rest.length ≤ text.toList.length := by
  obtain ⟨before, split, -⟩ := valid
  rw [split, List.length_append]
  omega

private theorem toNat_ofUInt8 (b : UInt8) : (Char.ofUInt8 b).toNat = b.toNat :=
  UInt8.toNat_toUInt32 b

private theorem ofUInt8_ascii {c : Char} (ascii : c.toNat < 0x80) : Char.ofUInt8 (UInt8.ofNat c.toNat) = c := by
  rw [← Char.toNat_inj, toNat_ofUInt8]
  exact UInt8.toNat_ofNat_of_lt' (show c.toNat < 256 by omega)

/-- What is seen of a character: an ASCII character itself, or some character outside of ASCII like it. -/
private theorem head?_encode (c : Char) (rest : List Char) :
    ∃ b, (Text.Utf8.encode (c :: rest)).head? = some b ∧
      (c.toNat < 0x80 ∧ Char.ofUInt8 b = c ∨ 0x80 ≤ c.toNat ∧ 0x80 ≤ (Char.ofUInt8 b).toNat) := by
  rw [Text.Utf8.encode_cons]
  rcases Text.Utf8.encodeChar_ascii_or c with ⟨ascii, single⟩ | ⟨large, bytes⟩
  · rw [single]
    exact ⟨_, rfl, .inl ⟨ascii, ofUInt8_ascii ascii⟩⟩
  · obtain ⟨b, more, written⟩ := List.exists_cons_of_ne_nil (String.utf8EncodeChar_ne_nil (c := c))
    rw [written] at bytes ⊢
    refine ⟨b, rfl, .inr ⟨large, ?_⟩⟩
    rw [toNat_ofUInt8]
    exact bytes b List.mem_cons_self

/-! ### One character -/

/-- Looking at a byte shows as much as looking at its character. -/
theorem followsAt_look {k : Option Char → TextReading β} {d : TypeParser β} (blind : Blind k)
    (valid : (onText text).Valid cursor)
    (h : ∀ next, cursor.rest.head? = next → (onText text).FollowsAt (k next) d cursor) :
    (onText text).FollowsAt (peek >>= k) d cursor := by
  have reading : (peek >>= k) ((onText text).state cursor) =
      k (((onText text).state cursor).bytes[cursor.position]?.map Char.ofUInt8) ((onText text).state cursor) := rfl
  have h := h _ rfl
  rw [FollowsAt, reading, getElem?_bytes valid]
  cases rest : cursor.rest with
  | nil =>
    rw [rest] at h
    exact h
  | cons c behind =>
    rw [rest] at h
    obtain ⟨b, first, ⟨-, same⟩ | ⟨large, large'⟩⟩ := head?_encode c behind
    · rw [first, Option.map_some, same]
      exact h
    · rw [first, Option.map_some, blind _ c large' large]
      exact h

theorem followsAt_peek {k : Option Char → TextReading β} {f : Option Char → TypeParser β} (blind : Blind k)
    (valid : (onText text).Valid cursor)
    (h : ∀ next, cursor.rest.head? = next → (onText text).FollowsAt (k next) (f next) cursor) :
    (onText text).FollowsAt (peek >>= k) (TypeParser.peek >>= f) cursor :=
  followsAt_look blind valid fun _ ahead => ahead ▸ h _ rfl

/-- An ASCII character is passed over with its byte. -/
theorem followsAt_advance {c : Char} (ascii : c.toNat < 0x80) (next : cursor.rest.head? = some c)
    (valid : (onText text).Valid cursor) : (onText text).FollowsAt advance TypeParser.advance cursor := by
  obtain ⟨position, rest⟩ := cursor
  obtain ⟨behind, rfl⟩ : ∃ behind, rest = c :: behind := ⟨rest.tail, (List.cons_head?_tail next).symm⟩
  obtain ⟨before, split, place⟩ := valid
  have single := Text.Utf8.encodeChar_ascii ascii
  have size : c.utf8Size = 1 := by rw [← String.length_utf8EncodeChar, single, List.length_singleton]
  have total : TypeParser.advance ⟨position, c :: behind⟩ = .ok ⟨⟩ ⟨position + c.utf8Size, behind⟩ := rfl
  refine followsAt_of_ok total ⟨before ++ [c], ?_, ?_⟩ (by rw [size]; rfl)
  · rw [split, List.append_assoc, List.singleton_append]
  · rw [Text.Utf8.encode_append, Text.Utf8.encode_cons, single, List.length_append, size, ← place]
    rfl

/-- Going one way behind the character `x` and another way before any other. -/
theorem follows_ifNext {x : Char} (ascii : x.toNat < 0x80) {m m' : TextReading α} {p p' : TypeParser α}
    (h : (onText text).Follows m p) (h' : (onText text).Follows m' p') :
    (onText text).Follows
      (do
        if (← peek) = some x then
          advance
          m
        else m')
      (do
        if (← TypeParser.peek) = some x then
          TypeParser.advance
          p
        else p') := by
  intro cursor valid
  refine followsAt_peek ((blind_next ascii).ite _ _) valid fun next ahead =>
    .ite (fun here => ?_) fun _ => h' cursor valid
  exact (followsAt_advance ascii (ahead.trans here) valid).bind fun _ after _ valid => h after valid

/-! ### Refusals -/

theorem followsAt_refuse (f : TypeFault) (cursor : TypeCursor) :
    (onText text).FollowsAt (refuse f : TextReading α) (throw f) cursor :=
  rfl

theorem followsAt_refuse_bind (f : TypeFault) (k : β → TextReading α) (g : β → TypeParser α) (cursor : TypeCursor) :
    (onText text).FollowsAt (refuse f >>= k) (throw f >>= g) cursor :=
  rfl

/-! ### Names -/

/-- Only ASCII characters stop a name. -/
def StopsAscii (isStop : Char → Bool) : Prop :=
  ∀ c, isStop c = true → c.toNat < 0x80

/-- The bytes in front of a stop byte are those of the characters in front of the stop character. -/
private theorem takeWhile_encode {isStop : Char → Bool} (ascii : StopsAscii isStop) (chars : List Char) :
    (Text.Utf8.encode chars).takeWhile (fun b => !isStop (Char.ofUInt8 b)) =
      Text.Utf8.encode (chars.takeWhile fun c => !isStop c) := by
  have passes {c : Char} (large : 0x80 ≤ c.toNat) : (!isStop c) = true := by
    cases stop : isStop c with
    | false => rfl
    | true => exact absurd (ascii c stop) (by omega)
  induction chars with
  | nil => rfl
  | cons c chars ih =>
    rcases Text.Utf8.encodeChar_ascii_or c with ⟨small, single⟩ | ⟨large, bytes⟩
    · have same := ofUInt8_ascii small
      rw [Text.Utf8.encode_cons, single, List.singleton_append, List.takeWhile_cons, List.takeWhile_cons, same]
      split
      · rw [Text.Utf8.encode_cons, single, ih, List.singleton_append]
      · rfl
    · have pass : ∀ b ∈ String.utf8EncodeChar c, (!isStop (Char.ofUInt8 b)) = true :=
        fun b mem => passes (toNat_ofUInt8 b ▸ bytes b mem)
      rw [Text.Utf8.encode_cons, List.takeWhile_append_of_pos pass, ih, List.takeWhile_cons, if_pos (passes large),
        Text.Utf8.encode_cons]

private theorem utf8ByteSize_ofList (chars : List Char) :
    (String.ofList chars).utf8ByteSize = (Text.Utf8.encode chars).length := by
  show (String.ofList chars).toByteArray.size = _
  rw [String.toByteArray_ofList, List.utf8Encode, List.size_toByteArray]
  rfl

theorem follows_identifier {isStop : Char → Bool} (ascii : StopsAscii isStop) :
    (onText text).Follows (identifier isStop) (TypeParser.identifier isStop) := by
  intro cursor valid
  obtain ⟨before, split, place⟩ := id valid
  generalize hc : (cursor.rest.takeWhile fun c => !isStop c) = chars
  generalize hb : (cursor.rest.dropWhile fun c => !isStop c) = behind
  have whole : cursor.rest = chars ++ behind := by rw [← hc, ← hb, List.takeWhile_append_dropWhile]
  obtain ⟨after, here⟩ : ∃ after : TypeCursor, after = ⟨cursor.position + (Text.Utf8.encode chars).length, behind⟩ :=
    ⟨_, rfl⟩
  have split' : text.toList = before ++ chars ++ behind := by rw [split, whole, List.append_assoc]
  have place' : after.position = (Text.Utf8.encode (before ++ chars)).length := by
    rw [here, place, Text.Utf8.encode_append, List.length_append]
  have valid' : (onText text).Valid after := ⟨before ++ chars, by rw [here, split'], place'⟩
  have total : TypeParser.identifier isStop cursor =
      if chars.isEmpty || behind.isEmpty then .error .unterminatedIdentifier after
      else .ok (String.ofList chars) after := by
    simp only [TypeParser.identifier, hc, hb, utf8ByteSize_ofList, here]
  have reading : identifier isStop ((onText text).state cursor) =
      name ((onText text).state cursor) ((onText text).state after) ((onText text).state after) := by
    have passed : (((onText text).state cursor).bytes.drop cursor.position).takeWhile
        (fun b => !isStop (Char.ofUInt8 b)) = Text.Utf8.encode chars := by
      rw [drop_bytes valid, takeWhile_encode ascii, hc]
    have stop : (onText text).state after = ⟨text, cursor.position + (Text.Utf8.encode chars).length⟩ := by
      rw [here]
      rfl
    rw [stop, ← passed]
    rfl
  have ends_iff : ((onText text).state after).position = ((onText text).state cursor).position ∨
      ((onText text).state after).bytes[((onText text).state after).position]? = none ↔ chars = [] ∨ behind = [] := by
    have seen : ((onText text).state after).bytes[((onText text).state after).position]? =
        (Text.Utf8.encode after.rest).head? := getElem?_bytes valid'
    refine or_congr ?_ ?_
    · show after.position = cursor.position ↔ _
      rw [here, Nat.add_eq_left, List.length_eq_zero_iff, encode_eq_nil_iff]
    · rw [seen, List.head?_eq_none_iff, encode_eq_nil_iff, here]
  by_cases ends : chars = [] ∨ behind = []
  · refine followsAt_of_error (total.trans (if_pos (by simpa using ends))) ?_
    rw [reading, name, if_pos (ends_iff.2 ends)]
    rfl
  · refine followsAt_of_ok (total.trans (if_neg (by simpa using ends))) valid' ?_
    have whole : cut ((onText text).state cursor).text.toList ((onText text).state cursor).position
        ((onText text).state after).position = pure chars := by
      show cut text.toList cursor.position after.position = pure chars
      rw [split', place, place', cut_eq]
    rw [reading, name, if_neg (ends_iff.not.2 ends), whole]
    rfl

/-- What is read behind a name: the stop character is ahead. -/
theorem followsAt_identifier_bind {isStop : Char → Bool} (ascii : StopsAscii isStop) {k : String → TextReading β}
    {f : String → TypeParser β} (valid : (onText text).Valid cursor)
    (next : ∀ name after c, (onText text).Valid after → after.rest.head? = some c → isStop c = true →
      (onText text).FollowsAt (k name) (f name) after) :
    (onText text).FollowsAt (identifier isStop >>= k) (TypeParser.identifier isStop >>= f) cursor := by
  refine (follows_identifier ascii cursor valid).bind fun name after run valid => ?_
  obtain ⟨-, -, -, -, c, ahead, stops⟩ :=
    (TypeParser.reads_identifier isStop cursor name after.rest (Nat.lt_succ_self _)).1 ⟨after.position, run⟩
  exact next name after c valid ahead stops

/-! ### Repetition -/

section Repetition

variable {bound : Nat} {more : Option Char → Bool} {m : TextReading α} {p : TypeParser α} {S : Phrase α}

/-- The reading follows wherever the next character asks for an item. -/
def FollowsWhile (text : String) (more : Option Char → Bool) (m : TextReading α) (p : TypeParser α) : Prop :=
  ∀ cursor, (onText text).Valid cursor → more cursor.rest.head? = true → (onText text).FollowsAt m p cursor

/-- Every item takes a character, so the rounds last as long as there are characters. -/
private theorem followsAt_repeatOnto (h : FollowsWhile text more m p) (reads : TypeParser.Reads bound p S)
    (nonempty : ∀ taken rest a, S taken rest a → taken ≠ []) (blind : Blind more) {rounds : Nat} (read : List α)
    (few : cursor.rest.length < bound) (enough : cursor.rest.length < rounds) (valid : (onText text).Valid cursor) :
    (onText text).FollowsAt (repeatOnto more m read rounds) (TypeParser.repeatOnto more p read rounds) cursor := by
  induction rounds generalizing read cursor with
  | zero => omega
  | succ rounds ih =>
    refine followsAt_peek (fun c c' large large' => ?_) valid fun next ahead => ?_
    · rw [blind c c' large large']
    refine .ite (fun goes => ?_) fun _ => .pure _ valid
    refine (h cursor valid (ahead ▸ goes)).bind fun a after run valid => ?_
    obtain ⟨taken, split, spelt⟩ := (reads cursor a after.rest few).1 ⟨after.position, run⟩
    have moved := List.length_pos_iff.2 (nonempty _ _ _ spelt)
    rw [split, List.length_append] at few enough
    exact ih (a :: read) (by omega) (by omega) valid

private theorem stops_of_repeated {taken rest : List Char} {as : List α}
    (h : TypeParser.Repeated more S taken rest as) : more rest.head? = false := by
  induction as generalizing taken with
  | nil => exact h.2
  | cons a as ih =>
    obtain ⟨-, _, _, -, -, others⟩ := h
    exact ih others

/-- What is read behind a repetition: there are no more items ahead. -/
theorem followsAt_repeatWhile_bind (h : FollowsWhile text more m p) (reads : TypeParser.Reads bound p S)
    (nonempty : ∀ taken rest a, S taken rest a → taken ≠ []) (blind : Blind more) (few : text.toList.length < bound)
    {k : List α → TextReading β} {f : List α → TypeParser β} (valid : (onText text).Valid cursor)
    (next : ∀ as after, (onText text).Valid after → more after.rest.head? = false →
      (onText text).FollowsAt (k as) (f as) after) :
    (onText text).FollowsAt (repeatWhile bound more m >>= k) (TypeParser.repeatWhile bound more p >>= f) cursor := by
  have fewer := Nat.lt_of_le_of_lt (length_rest_le valid) few
  have all := followsAt_repeatOnto h reads nonempty blind [] fewer fewer valid
  refine FollowsAt.bind all fun as after run valid => ?_
  obtain ⟨taken, -, repeated⟩ := (reads.repeatWhile nonempty cursor as after.rest fewer).1 ⟨after.position, run⟩
  exact next as after valid (stops_of_repeated repeated)

/-- Items up to a closing character, which is passed over, and what is read behind it. -/
theorem followsAt_repeatUntil_bind {x : Char} (ascii : x.toNat < 0x80) (h : (onText text).Follows m p)
    (reads : TypeParser.Reads bound p S) (nonempty : ∀ taken rest a, S taken rest a → taken ≠ [])
    (few : text.toList.length < bound) {k : List α → TextReading β} {f : List α → TypeParser β}
    (valid : (onText text).Valid cursor) (next : ∀ as, (onText text).Follows (k as) (f as)) :
    (onText text).FollowsAt (repeatWhile bound (· ≠ some x) m >>= fun as => advance >>= fun _ => k as)
      (TypeParser.repeatWhile bound (· ≠ some x) p >>= fun as => TypeParser.advance >>= fun _ => f as) cursor := by
  refine followsAt_repeatWhile_bind (fun cursor valid _ => h cursor valid) reads nonempty
    (blind_next ascii).not.decide few valid fun as after valid stops => ?_
  have closes : after.rest.head? = some x := by simpa using stops
  exact (followsAt_advance ascii closes valid).bind fun _ after _ valid => next as after valid

end Repetition

/-! ### Whole texts -/

private theorem follows_finish : (onText text).Follows finish TypeParser.finish := by
  intro cursor valid
  obtain ⟨position, rest⟩ := cursor
  obtain ⟨before, split, place⟩ := id valid
  have size : (Text.Utf8.encode text.toList).length = position + (Text.Utf8.encode rest).length := by
    rw [split, Text.Utf8.encode_append, List.length_append, ← place]
  have reading : finish ((onText text).state ⟨position, rest⟩) =
      (if position ≠ (Text.Utf8.encode text.toList).length then refuse .trailingCharacters else pure ⟨⟩ :
        TextReading Unit) ((onText text).state ⟨position, rest⟩) := rfl
  cases rest with
  | nil =>
    refine followsAt_of_ok rfl valid ?_
    rw [reading, if_neg (by simpa using size.symm)]
    rfl
  | cons c rest =>
    have bytes := List.length_pos_iff.2 (Text.Utf8.encode_ne_nil (List.cons_ne_nil c rest))
    have total : TypeParser.finish ⟨position, c :: rest⟩ = .error .trailingCharacters ⟨position, c :: rest⟩ := rfl
    refine followsAt_of_error total ?_
    rw [reading, if_pos (by omega)]
    rfl

/-- A reading of a whole text never faults. -/
theorem parse_eq {reading : Nat → TextReading α} {parser : Nat → TypeParser α} {text : String}
    (h : ∀ bound, text.toList.length < bound → (onText text).Follows (reading bound) (parser bound)) :
    parse reading text = total (TypeParser.parse parser text) := by
  have start : (onText text).Valid ⟨0, text.toList⟩ := ⟨[], rfl, rfl⟩
  have whole := ((h _ (Nat.lt_succ_self _)).bind fun a => follows_finish.bind fun _ => .pure a) _ start
  have run : parse reading text =
      Prod.fst <$> (reading (text.toList.length + 1) >>= fun a => finish >>= fun _ => pure a)
        ((onText text).state ⟨0, text.toList⟩) := rfl
  rw [run, TypeParser.parse]
  split
  case h_1 ended =>
    rw [whole.eq_pure ended]
    rfl
  case h_2 ended =>
    rw [whole.eq_throw ended]
    rfl

end TextReader

end ClassCensus.Machine
