import ClassCensus.Proofs.ClassFile.BigEndian

/-!
# What decoders accept

`Decoder.Reads d S` says that the decoder `d` succeeds exactly where the bytes ahead start with bytes that spell a
value in the sense of `S`, and that it takes these bytes and no others.  Nothing behind the bytes taken and nothing
before them has an influence, so a success is repeated, with the same position, whatever follows
(`Decoder.Reads.extend`).

* (rules) there is one rule for each way to build a decoder: `Reads.bind` for one reading after another, `Reads.times`
  and `Reads.table` for repetition, `reads_whole` for a byte string of its own, `reads_u16` and its like for numbers;
* (formats) a `Format` says how a written form, which may hold more than the value read from it, becomes bytes and which
  value these stand for; `Format.Spells` is its spelling;
* (fields passed over) `Spans` says that the written forms of a field are all byte strings of one length, which is what
  `reads_skip` needs.
-/

namespace ClassCensus

/-- Which bytes spell which values. -/
abbrev Spelling (α : Type) := List UInt8 → α → Prop

/-- A form in which values are written. -/
structure Format (R α : Type) where
  /-- The written form keeps the limits of the format. -/
  Fits : R → Prop
  encode : R → List UInt8
  /-- The value that a reader makes of the written form. -/
  view : R → α

/-- The bytes are those of a written form that stands for the value. -/
def Format.Spells {R α : Type} (F : Format R α) : Spelling α :=
  fun bytes a => ∃ r, F.Fits r ∧ F.encode r = bytes ∧ F.view r = a

/-- A number of written forms after another. -/
def Format.repeated {R α : Type} (F : Format R α) (n : Nat) : Format (List R) (List α) where
  Fits rs := rs.length = n ∧ ∀ r ∈ rs, F.Fits r
  encode rs := rs.flatMap F.encode
  view rs := rs.map F.view

/-- A two-byte count and that many written forms. -/
def Format.table {R α : Type} (F : Format R α) : Format (List R) (List α) where
  Fits rs := rs.length < 65536 ∧ ∀ r ∈ rs, F.Fits r
  encode rs := word16 (UInt16.ofNat rs.length) ++ rs.flatMap F.encode
  view rs := rs.map F.view

/-- What the fields behind the tag `t` spell, for written forms with a tag in front. -/
def Format.SpellsBehind {R α : Type} (F : Format R α) (tag : R → UInt8) (fields : R → List UInt8) (t : UInt8) :
    Spelling α :=
  fun bytes a => ∃ r, F.Fits r ∧ tag r = t ∧ bytes = fields r ∧ a = F.view r

/-- Words of two bytes. -/
def Format.word : Format UInt16 UInt16 where
  Fits _ := True
  encode := word16
  view w := w

/-- A two-byte count and that many words of two bytes. -/
def Format.words : Format (List UInt16) (List UInt16) where
  Fits ws := ws.length < 65536
  encode ws := word16 (UInt16.ofNat ws.length) ++ ws.flatMap word16
  view ws := ws

/-! ### Fields of a fixed length -/

/-- The written forms are the byte strings of a given length. -/
def Spans {R : Type} (encode : R → List UInt8) (n : Nat) : Prop :=
  ∀ bytes, bytes.length = n ↔ ∃ r, encode r = bytes

theorem spans_byte : Spans (fun b : UInt8 => [b]) 1 := by
  intro bytes
  rw [List.length_eq_one_iff]
  simp only [eq_comm]

/-- Bytes that stand for themselves. -/
theorem spans_bytes (n : Nat) : Spans (fun bytes : {bytes : List UInt8 // bytes.length = n} => bytes.1) n := by
  intro bytes
  constructor
  · exact fun size => ⟨⟨bytes, size⟩, rfl⟩
  · intro hx
    obtain ⟨⟨_, size⟩, rfl⟩ := hx
    exact size

/-- The writings in `n` bytes of the values of a type are all byte strings of that length, if the values are the numbers
of that many bytes. -/
private theorem spans_number {R : Type} (n : Nat) {toNat : R → Nat} (ofNat : Nat → R)
    (toNat_ofNat : ∀ v < 256 ^ n, toNat (ofNat v) = v) : Spans (fun r => bigEndianBytes n (toNat r)) n := by
  intro bytes
  constructor
  · rintro rfl
    refine ⟨ofNat (bigEndian bytes), ?_⟩
    dsimp only
    rw [toNat_ofNat _ (bigEndian_lt bytes), bigEndianBytes_bigEndian]
  · intro hx
    obtain ⟨r, rfl⟩ := hx
    exact length_bigEndianBytes n (toNat r)

theorem spans_word16 : Spans word16 2 :=
  spans_number 2 UInt16.ofNat fun _ h => UInt16.toNat_ofNat_of_lt' h

theorem spans_word32 : Spans word32 4 :=
  spans_number 4 UInt32.ofNat fun _ h => UInt32.toNat_ofNat_of_lt' h

theorem Spans.append {R S : Type} {f : R → List UInt8} {g : S → List UInt8} {m n : Nat} (hf : Spans f m)
    (hg : Spans g n) : Spans (fun p : R × S => f p.1 ++ g p.2) (m + n) := by
  intro bytes
  constructor
  · intro h
    obtain ⟨r, hr⟩ := (hf (bytes.take m)).1 (by rw [List.length_take]; omega)
    obtain ⟨s, hs⟩ := (hg (bytes.drop m)).1 (by rw [List.length_drop]; omega)
    exact ⟨(r, s), by simp [hr, hs]⟩
  · intro hx
    obtain ⟨⟨r, s⟩, rfl⟩ := hx
    rw [List.length_append, (hf _).2 ⟨r, rfl⟩, (hg _).2 ⟨s, rfl⟩]

theorem Spans.flatMap {R : Type} {f : R → List UInt8} {m : Nat} (hf : Spans f m) (n : Nat) :
    Spans (fun rs : {rs : List R // rs.length = n} => rs.1.flatMap f) (n * m) := by
  intro bytes
  constructor
  · intro h
    induction n generalizing bytes with
    | zero => exact ⟨⟨[], rfl⟩, by simpa [eq_comm] using h⟩
    | succ n ih =>
      rw [Nat.succ_mul] at h
      -- the first `m` bytes are those of one row, and the others have one row less
      obtain ⟨r, hr⟩ := (hf (bytes.take m)).1 (by rw [List.length_take]; omega)
      obtain ⟨⟨rs, hn⟩, hrs⟩ := ih (bytes.drop m) (by rw [List.length_drop]; omega)
      exact ⟨⟨r :: rs, by simp [hn]⟩, by simp [hr, hrs]⟩
  · intro hx
    obtain ⟨⟨rs, rfl⟩, rfl⟩ := hx
    show (rs.flatMap f).length = rs.length * m
    induction rs with
    | nil => simp
    | cons r rs ih =>
      rw [List.flatMap_cons, List.length_append, ih, (hf _).2 ⟨r, rfl⟩, List.length_cons, Nat.succ_mul, Nat.add_comm]

theorem Spans.length_flatMap {R : Type} {f : R → List UInt8} {m : Nat} (hf : Spans f m) (rs : List R) :
    (rs.flatMap f).length = rs.length * m :=
  (hf.flatMap rs.length _).2 ⟨⟨rs, rfl⟩, rfl⟩

namespace Decoder

variable {R α β : Type}

/-- The decoder takes exactly the bytes that spell its value, whatever comes before and after them. -/
def Reads (d : Decoder α) (S : Spelling α) : Prop :=
  ∀ cursor a after, d cursor = .ok a after ↔
    ∃ taken, S taken a ∧ cursor.rest = taken ++ after.rest ∧ after.offset = cursor.offset + taken.length

theorem Reads.congr {d : Decoder α} {S T : Spelling α} (h : d.Reads S) (e : ∀ bytes a, S bytes a ↔ T bytes a) :
    d.Reads T := by
  intro cursor a after
  simp only [h cursor a after, e]

/-- A success on a byte string is a success, with the same value and position, on any longer one. -/
theorem Reads.extend {d : Decoder α} {S : Spelling α} (h : d.Reads S) {offset offset' : Nat} {bytes rest : List UInt8}
    {a : α} (more : List UInt8) (ok : d ⟨offset, bytes⟩ = .ok a ⟨offset', rest⟩) :
    d ⟨offset, bytes ++ more⟩ = .ok a ⟨offset', rest ++ more⟩ := by
  obtain ⟨taken, hs, he, ho⟩ := (h _ _ _).1 ok
  refine (h _ _ _).2 ⟨taken, hs, ?_, ho⟩
  rw [← List.append_assoc]
  exact congrArg (· ++ more) he

/-! ### Sequences -/

theorem bind_eq_ok_iff {d : Decoder α} {f : α → Decoder β} {cursor after : Cursor} {b : β} :
    (d >>= f) cursor = .ok b after ↔ ∃ a middle, d cursor = .ok a middle ∧ f a middle = .ok b after := by
  simp only [Bind.bind, EStateM.bind]
  cases d cursor with
  | ok a middle => simp
  | error e middle => simp

theorem Reads.pure (a : α) : (Pure.pure a : Decoder α).Reads fun bytes x => bytes = [] ∧ x = a := by
  intro cursor x after
  show EStateM.Result.ok a cursor = .ok x after ↔ _
  obtain ⟨offset, rest⟩ := cursor
  obtain ⟨offset', rest'⟩ := after
  constructor
  · intro h
    cases h
    exact ⟨[], by simp⟩
  · intro hx
    obtain ⟨_, ⟨rfl, rfl⟩, h, h'⟩ := hx
    simp at h h'
    simp [h, h']

theorem Reads.throw (e : FormatError) : (MonadExcept.throw e : Decoder α).Reads fun _ _ => False := by
  intro cursor x after
  show EStateM.Result.error e cursor = .ok x after ↔ _
  simp

/-- A reading behind a condition under which it fails. -/
theorem reads_unless {p : Prop} [Decidable p] {d : Decoder α} {S : Spelling α} (e : FormatError) (h : d.Reads S) :
    (do
      if p then throw e
      d : Decoder α).Reads fun bytes a => ¬ p ∧ S bytes a := by
  by_cases hp : p
  · simp only [hp, if_true, not_true, false_and]
    exact Reads.throw e
  · simpa only [hp, if_false, not_false_eq_true, true_and] using h

/-- One reading after another takes the bytes of both, those of the first in front. -/
theorem Reads.bind {d : Decoder α} {f : α → Decoder β} {S : Spelling α} {T : α → Spelling β} (hd : d.Reads S)
    (hf : ∀ a, (f a).Reads (T a)) :
    (d >>= f).Reads fun bytes b => ∃ left a, S left a ∧ ∃ right, T a right b ∧ bytes = left ++ right := by
  intro cursor b after
  rw [bind_eq_ok_iff]
  constructor
  · intro h
    obtain ⟨a, middle, h, h'⟩ := h
    obtain ⟨left, hl, e, o⟩ := (hd _ _ _).1 h
    obtain ⟨right, hr, e', o'⟩ := (hf _ _ _ _).1 h'
    refine ⟨left ++ right, ⟨left, a, hl, right, hr, rfl⟩, by rw [e, e', List.append_assoc], ?_⟩
    rw [o', o, List.length_append, Nat.add_assoc]
  · intro h
    obtain ⟨_, ⟨left, a, hl, right, hr, rfl⟩, e, o⟩ := h
    -- in between, the cursor stands where the bytes of the first reading end
    refine ⟨a, ⟨cursor.offset + left.length, right ++ after.rest⟩, (hd _ _ _).2 ⟨left, hl, ?_, rfl⟩,
      (hf _ _ _ _).2 ⟨right, hr, rfl, ?_⟩⟩
    · rw [e, List.append_assoc]
    · rw [o, List.length_append, Nat.add_assoc]

theorem Reads.map {d : Decoder α} {S : Spelling α} (f : α → β) (hd : d.Reads S) :
    (do return f (← d) : Decoder β).Reads fun bytes b => ∃ a, S bytes a ∧ b = f a := by
  refine (hd.bind fun a => Reads.pure (f a)).congr fun bytes b => ?_
  constructor
  · intro h
    obtain ⟨left, a, hs, right, ⟨rfl, rfl⟩, rfl⟩ := h
    exact ⟨a, by simpa using hs, rfl⟩
  · intro h
    obtain ⟨a, hs, rfl⟩ := h
    exact ⟨bytes, a, hs, [], ⟨rfl, rfl⟩, by simp⟩

theorem Reads.map_spells {d : Decoder α} {F : Format R α} (f : α → β) (hd : d.Reads F.Spells) :
    (do return f (← d) : Decoder β).Reads fun bytes b =>
      ∃ r : {r // F.Fits r}, bytes = F.encode r.1 ∧ b = f (F.view r.1) := by
  refine (hd.map f).congr fun bytes b => ?_
  constructor
  · intro h
    obtain ⟨_, ⟨r, hr, rfl, rfl⟩, rfl⟩ := h
    exact ⟨⟨r, hr⟩, rfl, rfl⟩
  · intro h
    obtain ⟨⟨r, hr⟩, rfl, rfl⟩ := h
    exact ⟨_, ⟨r, hr, rfl, rfl⟩, rfl⟩

/-- Looking at the offset takes no bytes and, as far as successes go, tells nothing. -/
theorem reads_offset_bind {f : Nat → Decoder β} {T : Spelling β} (hf : ∀ n, (f n).Reads T) :
    (Decoder.offset >>= f).Reads T :=
  fun cursor b after => hf cursor.offset cursor b after

theorem reads_ofExcept (result : Except FormatError α) :
    (Decoder.ofExcept result).Reads fun bytes a => bytes = [] ∧ result = .ok a := by
  cases result with
  | ok a => exact (Reads.pure a).congr fun bytes x => by simp [eq_comm]
  | error e => exact (Reads.throw e).congr fun bytes x => by simp

theorem within_eq_ok_iff {d : Decoder α} {context : FormatError → FormatError} {cursor after : Cursor} {a : α} :
    d.within context cursor = .ok a after ↔ d cursor = .ok a after := by
  unfold within
  split <;> simp_all

theorem reads_within {d : Decoder α} {S : Spelling α} (context : FormatError → FormatError) (h : d.Reads S) :
    (d.within context).Reads S := by
  intro cursor a after
  rw [within_eq_ok_iff, h]

theorem onBytes_eq_ok_iff {d : Decoder α} {bytes : List UInt8} {cursor after inner : Cursor} {a : α} :
    d.onBytes bytes cursor = .ok (a, inner) after ↔ d (Cursor.ofBytes bytes) = .ok a inner ∧ cursor = after := by
  unfold onBytes
  split <;> simp_all

/-- A reading that refuses bytes ahead of a cursor goes on if there are none. -/
theorem refuse_eq_ok_iff {inner cursor after : Cursor} {fault : FormatError} {a b : α} :
    (do
      if inner.hasMore then throw fault
      return a : Decoder α) cursor = .ok b after ↔ inner.rest = [] ∧ a = b ∧ cursor = after := by
  obtain ⟨offset, _ | ⟨x, rest⟩⟩ := inner
  · simp [Cursor.hasMore, Pure.pure, EStateM.pure]
  · simp only [Cursor.hasMore, List.isEmpty_cons, Bool.not_false, if_true, bind_eq_ok_iff, reduceCtorEq, false_and,
      iff_false]
    intro h
    obtain ⟨_, _, h, _⟩ := h
    cases h

/-- A byte string of its own has to be used up, and nothing is taken from the cursor. -/
theorem reads_whole {d : Decoder α} {S : Spelling α} (hd : d.Reads S) (context : FormatError → FormatError)
    (bytes : List UInt8) (fault : Cursor → FormatError) :
    (do
      let (a, after) ← within context (onBytes d bytes)
      if after.hasMore then throw (fault after)
      return some a : Decoder (Option α)).Reads fun taken a? => taken = [] ∧ ∃ a, S bytes a ∧ a? = some a := by
  intro cursor a? after
  rw [bind_eq_ok_iff]
  constructor
  · intro h
    obtain ⟨⟨a, inner⟩, middle, h, h'⟩ := h
    obtain ⟨ok, rfl⟩ := onBytes_eq_ok_iff.1 (within_eq_ok_iff.1 h)
    obtain ⟨he, rfl, rfl⟩ := refuse_eq_ok_iff.1 h'
    obtain ⟨taken, hs, e, -⟩ := (hd _ _ _).1 ok
    rw [he, List.append_nil] at e
    obtain rfl : bytes = taken := e
    exact ⟨[], ⟨rfl, a, hs, rfl⟩, rfl, rfl⟩
  · intro h
    obtain ⟨_, ⟨rfl, a, hs, rfl⟩, e, o⟩ := h
    -- the inner cursor starts on the byte string alone, so nothing but its end stops the reading
    have ok : d (Cursor.ofBytes bytes) = .ok a ⟨0 + bytes.length, []⟩ :=
      (hd _ _ _).2 ⟨bytes, hs, (List.append_nil bytes).symm, rfl⟩
    refine ⟨(a, _), cursor, within_eq_ok_iff.2 (onBytes_eq_ok_iff.2 ⟨ok, rfl⟩), refuse_eq_ok_iff.2 ⟨rfl, rfl, ?_⟩⟩
    cases cursor
    cases after
    simp_all

theorem decode_eq_ok_iff {d : Decoder α} {bytes : List UInt8} {a : α} :
    d.decode bytes = .ok a ↔ ∃ after, d (Cursor.ofBytes bytes) = .ok a after := by
  unfold decode
  cases d (Cursor.ofBytes bytes) with
  | ok b after => simp
  | error e after => simp

/-! ### Bytes and numbers -/

theorem reads_bytes (n : Nat) : (bytes n).Reads fun taken a => taken = a ∧ a.length = n := by
  intro cursor a after
  obtain ⟨offset, rest⟩ := cursor
  obtain ⟨offset', rest'⟩ := after
  simp only [bytes, List.splitAt_eq]
  constructor
  · intro h
    split at h
    · next full =>
      cases h
      exact ⟨_, ⟨rfl, full⟩, (List.take_append_drop n rest).symm, by rw [full]⟩
    · cases h
  · intro hx
    obtain ⟨_, ⟨rfl, rfl⟩, rfl, h⟩ := hx
    simpa using h.symm

/-- Bytes read as a number, of a type whose values are the numbers of that many bytes. -/
private theorem reads_number (n : Nat) {ofNat : Nat → α} {toNat : α → Nat} (toNat_lt : ∀ a, toNat a < 256 ^ n)
    (ofNat_toNat : ∀ a, ofNat (toNat a) = a) (toNat_ofNat : ∀ v < 256 ^ n, toNat (ofNat v) = v) :
    (do return ofNat (bigEndian (← bytes n)) : Decoder α).Reads fun taken a => taken = bigEndianBytes n (toNat a) := by
  refine (Reads.map _ (reads_bytes n)).congr fun taken a => ?_
  rw [eq_bigEndianBytes_iff (toNat_lt a)]
  constructor
  · intro h
    obtain ⟨_, ⟨rfl, h⟩, rfl⟩ := h
    refine ⟨h, (toNat_ofNat _ ?_).symm⟩
    rw [← h]
    exact bigEndian_lt taken
  · intro h
    obtain ⟨h, e⟩ := h
    exact ⟨taken, ⟨rfl, h⟩, by rw [e, ofNat_toNat]⟩

theorem reads_u8 : u8.Reads fun taken b => taken = [b] := by
  refine (reads_number 1 (fun b => b.toNat_lt) (fun _ => UInt8.ofNat_toNat)
    fun v h => UInt8.toNat_ofNat_of_lt h).congr fun taken b => ?_
  simp [bigEndianBytes]

theorem reads_u16 : u16.Reads fun taken w => taken = word16 w :=
  reads_number _ (fun w => w.toNat_lt) (fun _ => UInt16.ofNat_toNat) fun _ h => UInt16.toNat_ofNat_of_lt h

theorem reads_u32 : u32.Reads fun taken w => taken = word32 w :=
  reads_number _ (fun w => w.toNat_lt) (fun _ => UInt32.ofNat_toNat) fun _ h => UInt32.toNat_ofNat_of_lt h

theorem reads_i32 : i32.Reads fun taken w => taken = word32 w.toUInt32 := by
  refine (Reads.map UInt32.toInt32 reads_u32).congr fun taken w => ?_
  constructor
  · intro h
    obtain ⟨v, rfl, rfl⟩ := h
    simp
  · rintro rfl
    exact ⟨w.toUInt32, rfl, by simp⟩

theorem reads_u64 : u64.Reads fun taken w => taken = word64 w := by
  refine (reads_u32.bind fun high => Reads.map (fun low : UInt32 => UInt64.ofNat (high.toNat * 0x100000000 + low.toNat))
    reads_u32).congr fun taken w => ?_
  constructor
  · intro h
    obtain ⟨_, high, rfl, _, ⟨low, rfl, rfl⟩, rfl⟩ := h
    exact (word64_ofNat high low).symm
  · rintro rfl
    have hw := w.toNat_lt
    have e : UInt64.ofNat ((UInt32.ofNat (w.toNat / 0x100000000)).toNat * 0x100000000 +
        (UInt32.ofNat w.toNat).toNat) = w := by
      rw [← UInt64.toNat_inj]
      simp
      omega
    refine ⟨_, UInt32.ofNat (w.toNat / 0x100000000), rfl, _, ⟨UInt32.ofNat w.toNat, rfl, e.symm⟩, ?_⟩
    rw [← word64_ofNat, e]

theorem reads_word : u16.Reads Format.word.Spells :=
  reads_u16.congr fun taken w => by simp [Format.Spells, Format.word, eq_comm]

theorem reads_skip {encode : R → List UInt8} {n : Nat} (h : Spans encode n) :
    (skip n).Reads fun taken _ => ∃ r, encode r = taken := by
  refine (Reads.map (fun _ => ()) (reads_bytes n)).congr fun taken u => ?_
  rw [← h taken]
  constructor
  · intro hx
    obtain ⟨_, ⟨rfl, h⟩, _⟩ := hx
    exact h
  · exact fun h => ⟨taken, ⟨rfl, h⟩, rfl⟩

/-! ### Tags -/

/-- A tag decides how to go on. -/
theorem Reads.tagged {F : Format R α} {tag : R → UInt8} {fields : R → List UInt8} {next : UInt8 → Decoder α}
    (he : ∀ r, F.encode r = tag r :: fields r) (hnext : ∀ t, (next t).Reads (F.SpellsBehind tag fields t)) :
    (u8 >>= next).Reads F.Spells := by
  refine (reads_u8.bind hnext).congr fun bytes a => ?_
  constructor
  · intro h
    obtain ⟨_, _, rfl, _, ⟨r, hr, rfl, rfl, rfl⟩, rfl⟩ := h
    exact ⟨r, hr, he r, rfl⟩
  · intro h
    obtain ⟨r, hr, rfl, rfl⟩ := h
    exact ⟨_, tag r, rfl, _, ⟨r, hr, rfl, rfl, rfl⟩, he r⟩

/-- If the written forms with the tag `t` are those that `make` makes, a decoder for these goes on after `t`. -/
theorem Reads.behind {Q : Type} {F : Format R α} {tag : R → UInt8} {fields : R → List UInt8} {t : UInt8}
    {d : Decoder α} (make : Q → R) (hd : d.Reads fun bytes a => ∃ q, bytes = fields (make q) ∧ a = F.view (make q))
    (sound : ∀ q, F.Fits (make q) ∧ tag (make q) = t) (complete : ∀ r, F.Fits r → tag r = t → ∃ q, r = make q) :
    d.Reads (F.SpellsBehind tag fields t) := by
  refine hd.congr fun bytes a => ?_
  constructor
  · intro h
    obtain ⟨q, hb, ha⟩ := h
    exact ⟨make q, (sound q).1, (sound q).2, hb, ha⟩
  · intro h
    obtain ⟨r, hr, ht, hb, ha⟩ := h
    obtain ⟨q, rfl⟩ := complete r hr ht
    exact ⟨q, hb, ha⟩

/-- No written form has the tag `t`. -/
theorem Reads.throw_behind {F : Format R α} {tag : R → UInt8} {fields : R → List UInt8} {t : UInt8} (e : FormatError)
    (none : ∀ r, F.Fits r → tag r ≠ t) : (MonadExcept.throw e : Decoder α).Reads (F.SpellsBehind tag fields t) := by
  refine (Reads.throw e).congr fun bytes a => ?_
  rw [false_iff]
  intro h
  obtain ⟨r, hr, ht, -, -⟩ := h
  exact none r hr ht

/-! ### Repetition -/

/-- One more entry in front of those still to be read. -/
theorem Reads.cons_repeated {d : Decoder α} {F : Format R α} {n : Nat} {read : List α}
    {next : α → Decoder (List α)} (hd : d.Reads F.Spells)
    (hnext : ∀ a, (next a).Reads fun bytes as => ∃ l, (F.repeated n).Spells bytes l ∧ as = (a :: read).reverse ++ l) :
    (d >>= next).Reads fun bytes as => ∃ l, (F.repeated (n + 1)).Spells bytes l ∧ as = read.reverse ++ l := by
  refine (hd.bind hnext).congr fun bytes as => ?_
  constructor
  · intro h
    obtain ⟨_, _, ⟨r, hr, rfl, rfl⟩, _, ⟨_, ⟨rs, ⟨hn, hrs⟩, rfl, rfl⟩, rfl⟩, rfl⟩ := h
    refine ⟨_, ⟨r :: rs, ⟨by simp [hn], ?_⟩, rfl, rfl⟩, by simp [Format.repeated]⟩
    simpa using ⟨hr, hrs⟩
  · intro h
    obtain ⟨_, ⟨rs, ⟨hn, hrs⟩, rfl, rfl⟩, rfl⟩ := h
    obtain ⟨r, rs, rfl⟩ := List.exists_cons_of_length_eq_add_one hn
    rw [List.forall_mem_cons] at hrs
    exact ⟨_, _, ⟨r, hrs.1, rfl, rfl⟩, _, ⟨_, ⟨rs, ⟨by simpa using hn, hrs.2⟩, rfl, rfl⟩, by simp [Format.repeated]⟩,
      rfl⟩

/-- No entry is left to be read. -/
theorem Reads.nil_repeated (F : Format R α) (read : List α) :
    (Pure.pure read.reverse : Decoder (List α)).Reads fun bytes as =>
      ∃ l, (F.repeated 0).Spells bytes l ∧ as = read.reverse ++ l := by
  refine (Reads.pure read.reverse).congr fun bytes as => ?_
  constructor
  · intro h
    obtain ⟨rfl, rfl⟩ := h
    exact ⟨[], ⟨[], ⟨rfl, by simp⟩, rfl, rfl⟩, by simp⟩
  · intro h
    obtain ⟨_, ⟨rs, ⟨hn, -⟩, rfl, rfl⟩, rfl⟩ := h
    obtain rfl := List.length_eq_zero_iff.1 hn
    simp [Format.repeated]

theorem Reads.times {d : Decoder α} {F : Format R α} (hd : d.Reads F.Spells) (n : Nat) :
    (times n d).Reads (F.repeated n).Spells := by
  -- the entries read so far change with every step, so the induction is for all of them
  have onto : ∀ read, (timesOnto d read n).Reads fun bytes as =>
      ∃ l, (F.repeated n).Spells bytes l ∧ as = read.reverse ++ l := by
    induction n with
    | zero => exact Reads.nil_repeated F
    | succ n ih => exact fun read => Reads.cons_repeated hd fun a => ih (a :: read)
  exact (onto []).congr fun bytes as => by simp

/-- A count in front of a repetition makes a table. -/
theorem Reads.counted {F : Format R α} {next : Nat → Decoder (List α)}
    (hnext : ∀ n, (next n).Reads (F.repeated n).Spells) :
    (u16 >>= fun count => next count.toNat).Reads F.table.Spells := by
  refine (reads_u16.bind fun count => hnext count.toNat).congr fun bytes as => ?_
  constructor
  · intro h
    obtain ⟨_, count, rfl, _, ⟨rs, ⟨hn, hrs⟩, rfl, rfl⟩, rfl⟩ := h
    exact ⟨rs, ⟨hn ▸ count.toNat_lt, hrs⟩, by simp [Format.table, Format.repeated, hn], rfl⟩
  · intro h
    obtain ⟨rs, ⟨hn, hrs⟩, rfl, rfl⟩ := h
    exact ⟨_, UInt16.ofNat rs.length, rfl, _, ⟨rs, ⟨(UInt16.toNat_ofNat_of_lt' hn).symm, hrs⟩, rfl, rfl⟩, rfl⟩

theorem Reads.table {d : Decoder α} {F : Format R α} (hd : d.Reads F.Spells) : (table d).Reads F.table.Spells :=
  Reads.counted hd.times

theorem reads_u16List : u16List.Reads Format.words.Spells :=
  reads_word.table.congr fun bytes ws => by simp [Format.Spells, Format.table, Format.word, Format.words]

end Decoder

end ClassCensus
