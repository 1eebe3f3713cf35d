import ClassCensus.ClassFile.Pool
import ClassCensus.Proofs.ClassFile.Spelling

/-!
# Constant pools as they are written

A `WrittenConstant` is a constant with everything its bytes say: the bytes of a text, the index in a module or package
entry.  A `WrittenPool` is a list of them whose slots can be counted in two bytes.  Reading accepts exactly the written
pools (`reads_pool`) and gives each constant its slots, two for an eight-byte constant.
-/

namespace ClassCensus

/-- A text that a constant holds, with the bytes that spell it. -/
structure WrittenText where
  bytes : List UInt8
  text : String
  decodes : ModifiedUtf8.decode bytes = .ok text
  fits : bytes.length < 65536

/-- A constant as it is written. -/
inductive WrittenConstant where
  | utf8 (text : WrittenText)
  | integer (value : Int32)
  | float (bits : UInt32)
  | long (value : Int64)
  | double (bits : UInt64)
  | classInfo (name : UInt16)
  | string (text : UInt16)
  | memberRef (kind : MemberKind) (owner typedName : UInt16)
  | nameAndType (name descriptor : UInt16)
  | methodHandle (kind : UInt8) (reference : UInt16)
  | methodType (descriptor : UInt16)
  | dynamic (bootstrap typedName : UInt16)
  | invokeDynamic (bootstrap typedName : UInt16)
  | module (name : UInt16)
  | package (name : UInt16)

namespace WrittenConstant

/-- The tag in front of a constant. -/
def tag : WrittenConstant → UInt8
  | .utf8 _ => 1
  | .integer _ => 3
  | .float _ => 4
  | .long _ => 5
  | .double _ => 6
  | .classInfo _ => 7
  | .string _ => 8
  | .memberRef .field _ _ => 9
  | .memberRef .method _ _ => 10
  | .memberRef .interfaceMethod _ _ => 11
  | .nameAndType _ _ => 12
  | .methodHandle _ _ => 15
  | .methodType _ => 16
  | .dynamic _ _ => 17
  | .invokeDynamic _ _ => 18
  | .module _ => 19
  | .package _ => 20

/-- The bytes after the tag. -/
def fields : WrittenConstant → List UInt8
  | .utf8 text => word16 (UInt16.ofNat text.bytes.length) ++ text.bytes
  | .integer value => word32 value.toUInt32
  | .float bits => word32 bits
  | .long value => word64 value.toUInt64
  | .double bits => word64 bits
  | .classInfo index | .string index | .methodType index | .module index | .package index => word16 index
  | .memberRef _ first second | .nameAndType first second | .dynamic first second | .invokeDynamic first second =>
    word16 first ++ word16 second
  | .methodHandle kind reference => kind :: word16 reference

/-- The constant that is read. -/
def view : WrittenConstant → Constant
  | .utf8 text => .utf8 text.text
  | .integer value => .integer value
  | .float bits => .float bits
  | .long value => .long value
  | .double bits => .double bits
  | .classInfo name => .classInfo name
  | .string text => .string text
  | .memberRef kind owner typedName => .memberRef kind owner typedName
  | .nameAndType name descriptor => .nameAndType name descriptor
  | .methodHandle kind reference => .methodHandle kind reference
  | .methodType descriptor => .methodType descriptor
  | .dynamic bootstrap typedName => .dynamic bootstrap typedName
  | .invokeDynamic bootstrap typedName => .invokeDynamic bootstrap typedName
  | .module _ => .undecoded 19
  | .package _ => .undecoded 20

/-- Constants. -/
def format : Format WrittenConstant Constant where
  Fits _ := True
  encode c := c.tag :: c.fields
  view := view

end WrittenConstant

/-- The slots that a constant takes. -/
def Constant.slots (entry : Constant) : List Constant :=
  if entry.isWide then [entry, .unusable] else [entry]

/-- A constant pool as it is written. -/
structure WrittenPool where
  constants : List WrittenConstant
  fits : (constants.flatMap fun c => c.view.slots).length < 65535

namespace WrittenPool

/-- The slots of a pool after slot 0. -/
def slots (p : WrittenPool) : List Constant :=
  p.constants.flatMap fun c => c.view.slots

/-- The number of slots, slot 0 included, and the constants. -/
def encode (p : WrittenPool) : List UInt8 :=
  word16 (UInt16.ofNat (p.slots.length + 1)) ++ p.constants.flatMap WrittenConstant.format.encode

/-- The pool that is read; slot 0 holds no entry. -/
def view (p : WrittenPool) : ConstantPool :=
  ⟨(.unusable :: p.slots).toArray⟩

/-- Constant pools. -/
def format : Format WrittenPool ConstantPool where
  Fits _ := True
  encode := encode
  view := view

end WrittenPool

namespace ConstantPool

open Decoder

/-! ### Constants -/

private theorem reads_indices (f : UInt16 → UInt16 → Constant) :
    (do return f (← u16) (← u16) : Decoder Constant).Reads fun bytes a =>
      ∃ r : UInt16 × UInt16, bytes = word16 r.1 ++ word16 r.2 ∧ a = f r.1 r.2 := by
  refine (reads_u16.bind fun v => Reads.map (f v) reads_u16).congr fun bytes a => ?_
  constructor
  · intro h
    obtain ⟨_, v, rfl, _, ⟨w, rfl, rfl⟩, rfl⟩ := h
    exact ⟨(v, w), rfl, rfl⟩
  · intro h
    obtain ⟨⟨v, w⟩, rfl, rfl⟩ := h
    exact ⟨_, v, rfl, _, ⟨w, rfl, rfl⟩, rfl⟩

private theorem reads_methodHandle :
    (do return .methodHandle (← u8) (← u16) : Decoder Constant).Reads fun bytes a =>
      ∃ r : UInt8 × UInt16, bytes = r.1 :: word16 r.2 ∧ a = .methodHandle r.1 r.2 := by
  refine (reads_u8.bind fun k => Reads.map (Constant.methodHandle k) reads_u16).congr fun bytes a => ?_
  constructor
  · intro h
    obtain ⟨_, k, rfl, _, ⟨w, rfl, rfl⟩, rfl⟩ := h
    exact ⟨(k, w), rfl, rfl⟩
  · intro h
    obtain ⟨⟨k, w⟩, rfl, rfl⟩ := h
    exact ⟨_, k, rfl, _, ⟨w, rfl, rfl⟩, rfl⟩

private theorem reads_long :
    (do return .long (← u64).toInt64 : Decoder Constant).Reads fun bytes a =>
      ∃ v : Int64, bytes = word64 v.toUInt64 ∧ a = .long v := by
  refine (Reads.map (fun w : UInt64 => Constant.long w.toInt64) reads_u64).congr fun bytes a => ?_
  constructor
  · intro h
    obtain ⟨w, rfl, rfl⟩ := h
    exact ⟨w.toInt64, by simp, rfl⟩
  · intro h
    obtain ⟨v, rfl, rfl⟩ := h
    exact ⟨v.toUInt64, rfl, by simp⟩

private theorem reads_undecoded {tag : UInt8} (n : UInt8) (e : tag.toNat = n.toNat) :
    (do
      skip 2
      return .undecoded tag : Decoder Constant).Reads fun bytes a => ∃ w, bytes = word16 w ∧ a = .undecoded n := by
  obtain rfl : tag = n := UInt8.toNat_inj.1 e
  refine (Reads.map (fun _ => Constant.undecoded tag) (reads_skip spans_word16)).congr fun bytes a => ?_
  constructor
  · intro h
    obtain ⟨_, ⟨w, rfl⟩, rfl⟩ := h
    exact ⟨w, rfl, rfl⟩
  · intro h
    obtain ⟨w, rfl, rfl⟩ := h
    exact ⟨(), ⟨w, rfl⟩, rfl⟩

private theorem reads_textConstant (slot : Nat) : (textConstant slot).Reads fun bytes a =>
    ∃ t : WrittenText, bytes = word16 (UInt16.ofNat t.bytes.length) ++ t.bytes ∧ a = .utf8 t.text := by
  refine (reads_u16.bind fun length => (reads_bytes length.toNat).bind
    (T := fun bytes taken a => taken = [] ∧ ∃ text, ModifiedUtf8.decode bytes = .ok text ∧ a = Constant.utf8 text)
      fun bytes => ?_).congr fun bytes a => ?_
  · split
    · next text h => exact (Reads.pure _).congr fun taken a => by simp [h]
    · next e h => exact (Reads.throw _).congr fun taken a => by simp [h]
  · constructor
    · intro hx
      obtain ⟨_, length, rfl, _, ⟨b, _, ⟨rfl, h⟩, _, ⟨rfl, text, hd, rfl⟩, rfl⟩, rfl⟩ := hx
      exact ⟨⟨b, text, hd, h ▸ length.toNat_lt⟩, by simp [h], rfl⟩
    · intro hx
      obtain ⟨⟨b, text, hd, fits⟩, rfl, rfl⟩ := hx
      exact ⟨_, UInt16.ofNat b.length, rfl, _, ⟨_, b, ⟨rfl, (UInt16.toNat_ofNat_of_lt' fits).symm⟩, [],
        ⟨rfl, text, hd, rfl⟩, rfl⟩, by simp⟩

/-- The row of the tag with the number `n`. -/
private theorem constantRow {tag : UInt8} {n : Nat} (e : tag.toNat = n) {Q : Type} {d : Decoder Constant}
    (make : Q → WrittenConstant) (hd : d.Reads fun bytes a => ∃ q, bytes = (make q).fields ∧ a = (make q).view)
    (sound : ∀ q, (make q).tag.toNat = n) (complete : ∀ c : WrittenConstant, c.tag.toNat = n → ∃ q, c = make q) :
    d.Reads (WrittenConstant.format.SpellsBehind WrittenConstant.tag WrittenConstant.fields tag) := by
  refine Reads.behind make hd (fun q => ⟨trivial, UInt8.toNat_inj.1 ((sound q).trans e.symm)⟩) fun c _ hc => ?_
  exact complete c (hc ▸ e)

/-- A tag and the fields that belong to it. -/
theorem reads_constant (slot : Nat) : (constant slot).Reads WrittenConstant.format.Spells := by
  refine reads_offset_bind fun offset => Reads.tagged (fun _ => rfl) fun tag => ?_
  -- a row for each tag; that no other constant has the tag is left for the end
  split
  case' h_1 e => refine constantRow e .utf8 (reads_textConstant slot) (fun _ => rfl) ?_
  case' h_2 e => refine constantRow e .integer (Reads.map Constant.integer reads_i32) (fun _ => rfl) ?_
  case' h_3 e => refine constantRow e .float (Reads.map Constant.float reads_u32) (fun _ => rfl) ?_
  case' h_4 e => refine constantRow e .long reads_long (fun _ => rfl) ?_
  case' h_5 e => refine constantRow e .double (Reads.map Constant.double reads_u64) (fun _ => rfl) ?_
  case' h_6 e => refine constantRow e .classInfo (Reads.map Constant.classInfo reads_u16) (fun _ => rfl) ?_
  case' h_7 e => refine constantRow e .string (Reads.map Constant.string reads_u16) (fun _ => rfl) ?_
  case' h_8 e => refine constantRow e (fun r : _ × _ => .memberRef .field r.1 r.2) (reads_indices _) (fun _ => rfl) ?_
  case' h_9 e => refine constantRow e (fun r : _ × _ => .memberRef .method r.1 r.2) (reads_indices _) (fun _ => rfl) ?_
  case' h_10 e =>
    refine constantRow e (fun r : _ × _ => .memberRef .interfaceMethod r.1 r.2) (reads_indices _) (fun _ => rfl) ?_
  case' h_11 e => refine constantRow e (fun r : _ × _ => .nameAndType r.1 r.2) (reads_indices _) (fun _ => rfl) ?_
  case' h_12 e => refine constantRow e (fun r : _ × _ => .methodHandle r.1 r.2) reads_methodHandle (fun _ => rfl) ?_
  case' h_13 e => refine constantRow e .methodType (Reads.map Constant.methodType reads_u16) (fun _ => rfl) ?_
  case' h_14 e => refine constantRow e (fun r : _ × _ => .dynamic r.1 r.2) (reads_indices _) (fun _ => rfl) ?_
  case' h_15 e => refine constantRow e (fun r : _ × _ => .invokeDynamic r.1 r.2) (reads_indices _) (fun _ => rfl) ?_
  case' h_16 e => refine constantRow e .module (reads_undecoded 19 e) (fun _ => rfl) ?_
  case' h_17 e => refine constantRow e .package (reads_undecoded 20 e) (fun _ => rfl) ?_
  case' h_18 => refine Reads.throw_behind _ ?_
  case h_18 =>
    rintro c - rfl
    unfold WrittenConstant.tag at *
    split at * <;> simp_all
  all_goals
    intro c hc
    unfold WrittenConstant.tag at hc
    split at hc <;> simp_all

/-! ### Slots -/

private theorem slots_length_pos (entry : Constant) : 0 < entry.slots.length := by
  unfold Constant.slots
  split <;> simp

private theorem append_slots (entries : Array Constant) (first rest : List Constant) :
    entries ++ (first ++ rest) = entries ++ first ++ rest :=
  Array.ext' (by simp)

/-- The constants that fill `n` slots, after the slots `entries`. -/
private def SpellsSlots (entries : Array Constant) (n : Nat) : Spelling (Array Constant) := fun bytes a =>
  ∃ cs : List WrittenConstant, (cs.flatMap fun c => c.view.slots).length = n ∧
    bytes = cs.flatMap WrittenConstant.format.encode ∧ a = entries ++ (cs.flatMap fun c => c.view.slots)

/-- Of the slots to fill, those of the next constant come first; it may take more than there are. -/
private def SpellsSlotsAfter (entries : Array Constant) (n : Nat) (entry : Constant) : Spelling (Array Constant) :=
  fun bytes a => ∃ k, n = entry.slots.length + k ∧ SpellsSlots (entries ++ entry.slots) k bytes a

private theorem spellsSlots_succ (entries : Array Constant) (n : Nat) (bytes : List UInt8) (a : Array Constant) :
    (∃ left entry, WrittenConstant.format.Spells left entry ∧
      ∃ right, SpellsSlotsAfter entries (n + 1) entry right a ∧ bytes = left ++ right) ↔
    SpellsSlots entries (n + 1) bytes a := by
  constructor
  · intro h
    obtain ⟨_, _, ⟨c, -, rfl, rfl⟩, _, ⟨k, hn, cs, rfl, rfl, rfl⟩, rfl⟩ := h
    refine ⟨c :: cs, ?_, rfl, ?_⟩
    · rw [hn, List.flatMap_cons, List.length_append]
      rfl
    · rw [List.flatMap_cons, append_slots]
      rfl
  · intro h
    obtain ⟨_ | ⟨c, cs⟩, hn, rfl, rfl⟩ := h
    · cases hn
    · rw [List.flatMap_cons, List.length_append] at hn
      refine ⟨_, _, ⟨c, trivial, rfl, rfl⟩, _, ⟨_, hn.symm, cs, rfl, rfl, ?_⟩, rfl⟩
      rw [List.flatMap_cons, append_slots]
      rfl

private theorem spellsSlotsAfter_iff {entries : Array Constant} {n k : Nat} {entry : Constant} {bytes : List UInt8}
    {a : Array Constant} (h : n = entry.slots.length + k) :
    SpellsSlotsAfter entries n entry bytes a ↔ SpellsSlots (entries ++ entry.slots) k bytes a := by
  constructor
  · intro after
    obtain ⟨k', hk, spelt⟩ := after
    obtain rfl : k = k' := by omega
    exact spelt
  · exact fun spelt => ⟨k, h, spelt⟩

private theorem reads_fill (n : Nat) (entries : Array Constant) : (fill entries n).Reads (SpellsSlots entries n) := by
  -- a step fills one slot or two
  induction n using Nat.strong_induction_on generalizing entries with
  | _ n ih =>
    cases n with
    | zero =>
      refine (Reads.pure entries).congr fun bytes a => ?_
      constructor
      · intro hx
        obtain ⟨rfl, rfl⟩ := hx
        exact ⟨[], rfl, rfl, by simp⟩
      · intro hx
        obtain ⟨_ | ⟨c, cs⟩, hn, rfl, rfl⟩ := hx
        · simp
        · have := slots_length_pos c.view
          rw [List.flatMap_cons, List.length_append] at hn
          omega
    | succ n =>
      rw [fill]
      refine ((reads_constant entries.size).bind (T := SpellsSlotsAfter entries (n + 1)) fun entry => ?_).congr
        (spellsSlots_succ entries n)
      split
      · next wide =>
        -- a wide constant takes the next slot as well, which has to be there
        have e : entry.slots = [entry, .unusable] := by rw [Constant.slots, if_pos wide]
        cases n with
        | zero =>
          refine (Reads.throw _).congr fun bytes a => ?_
          rw [false_iff]
          intro hx
          obtain ⟨k, hk, -⟩ := hx
          simp only [e, List.length_cons] at hk
          omega
        | succ n =>
          have length : n + 1 + 1 = entry.slots.length + n := by
            rw [e, List.length_cons, List.length_singleton]
            omega
          refine (ih n (by omega) _).congr fun bytes a => ?_
          rw [spellsSlotsAfter_iff length, e]
          simp
      · next narrow =>
        have e : entry.slots = [entry] := by rw [Constant.slots, if_neg narrow]
        have length : n + 1 = entry.slots.length + n := by
          rw [e, List.length_singleton]
          omega
        refine (ih n (by omega) _).congr fun bytes a => ?_
        rw [spellsSlotsAfter_iff length, e]
        simp

/-- Reading a pool accepts exactly the written pools. -/
theorem reads_pool : decoder.Reads WrittenPool.format.Spells := by
  refine (reads_u16.bind (T := fun count bytes p => ∃ n, count.toNat = n + 1 ∧ ∃ a, SpellsSlots #[.unusable] n bytes a ∧
    p = ConstantPool.mk a) fun count => ?_).congr fun bytes p => ?_
  · split
    · next h =>
      refine (Reads.throw _).congr fun bytes p => ?_
      rw [false_iff]
      intro hx
      obtain ⟨n, hn, -⟩ := hx
      omega
    · next n h =>
      refine (Reads.map ConstantPool.mk (reads_fill n #[.unusable])).congr fun bytes p => ?_
      constructor
      · exact fun spelt => ⟨n, h, spelt⟩
      · intro hx
        obtain ⟨m, hm, spelt⟩ := hx
        obtain rfl : n = m := by omega
        exact spelt
  · constructor
    · intro hx
      obtain ⟨_, count, rfl, _, ⟨n, hn, _, ⟨cs, rfl, rfl, rfl⟩, rfl⟩, rfl⟩ := hx
      have small := count.toNat_lt
      refine ⟨⟨cs, by omega⟩, trivial, ?_, by simp [WrittenPool.format, WrittenPool.view, WrittenPool.slots]⟩
      show word16 (UInt16.ofNat _) ++ _ = _
      rw [WrittenPool.slots, ← hn, UInt16.ofNat_toNat]
    · intro hx
      obtain ⟨⟨cs, fits⟩, -, rfl, rfl⟩ := hx
      refine ⟨_, _, rfl, _, ⟨_, ?_, _, ⟨cs, rfl, rfl, rfl⟩, ?_⟩, rfl⟩
      · exact UInt16.toNat_ofNat_of_lt' (Nat.succ_lt_succ fits)
      · simp [WrittenPool.format, WrittenPool.view, WrittenPool.slots]

end ConstantPool

end ClassCensus
