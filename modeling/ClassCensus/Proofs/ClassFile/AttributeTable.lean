import ClassCensus.Proofs.ClassFile.Settling
import ClassCensus.Proofs.ClassFile.WrittenAttribute

/-!
# Tables of attributes, attribute by attribute

The bytes of a table of attributes, whatever the bodies hold, are read as each attribute is read alone: the results are
joined in order, and the first attribute that is refused alone is the fault of the table.  The body of an attribute is
read from bytes of its own, so the bytes of an attribute settle how it is read (`Attribute.settles_entry`), and so do
those of a table (`Attribute.settles_level`).
-/

namespace ClassCensus

/-- An attribute as bytes: the index of its name, and a body with a length in four bytes. -/
structure AttributeBytes where
  name : UInt16
  body : List UInt8
  fits : body.length < 4294967296

namespace AttributeBytes

/-- The index of the name, the length of the body, and the body. -/
def encode (a : AttributeBytes) : List UInt8 :=
  word16 a.name ++ (word32 (UInt32.ofNat a.body.length) ++ a.body)

/-- The number of attributes, and the attributes. -/
def encodeTable (as : List AttributeBytes) : List UInt8 :=
  word16 (UInt16.ofNat as.length) ++ as.flatMap encode

theorem length_encode (a : AttributeBytes) : a.encode.length = 6 + a.body.length := by
  simp only [encode, List.length_append, length_word16, length_word32]
  omega

theorem length_encodeTable (as : List AttributeBytes) :
    (encodeTable as).length = 2 + (as.map fun a => 6 + a.body.length).sum := by
  rw [encodeTable, List.length_append, length_word16, List.length_flatMap, funext length_encode]

end AttributeBytes

namespace Attribute

open Decoder

variable {pool : ConstantPool} {nested : Decoder (List Attribute)}

/-- What is read from a body, of which nothing may be left over. -/
def bodyResult (nested : Decoder (List Attribute)) (name : String) (kind : AttributeKind) (body : List UInt8) :
    Except FormatError Attribute :=
  match bodyDecoder nested kind (Cursor.ofBytes body) with
  | .ok decoded after =>
    if after.hasMore then .error (.unusedAttributeBytes name body.length after.offset) else .ok decoded
  | .error e _ => .error (.inAttribute name e)

/-- What is read from an attribute of a name. -/
def namedResult (nested : Decoder (List Attribute)) (name : String) (body : List UInt8) :
    Except FormatError (Option Attribute) :=
  match AttributeKind.ofName? name with
  | none => .ok none
  | some kind => some <$> bodyResult nested name kind body

/-- What is read from an attribute. -/
def entryResult (pool : ConstantPool) (nested : Decoder (List Attribute)) (a : AttributeBytes) :
    Except FormatError (Option Attribute) := do
  let name ← pool.utf8 a.name
  namedResult nested name a.body

/-- Behind its length, the body of an attribute of a decoded kind is read without looking at what is ahead. -/
private theorem settles_body (name : String) (kind : AttributeKind) (body : List UInt8) :
    (do
      let (decoded, after) ← within (.inAttribute name) (onBytes (bodyDecoder nested kind) body)
      if after.hasMore then throw (.unusedAttributeBytes name body.length after.offset)
      return some decoded : Decoder (Option Attribute)).Settles [] (some <$> bodyResult nested name kind body) := by
  intro offset rest
  rw [outcome_bind, bodyResult]
  unfold within onBytes outcome
  dsimp only
  cases bodyDecoder nested kind (Cursor.ofBytes body) with
  | error e after => rfl
  | ok decoded after =>
    -- nothing is left over exactly if no byte is ahead
    obtain ⟨used, _ | ⟨byte, left⟩⟩ := after <;> rfl

/-- The bytes of an attribute settle how it is read. -/
theorem settles_entry (a : AttributeBytes) :
    (entryDecoder pool nested).Settles a.encode (entryResult pool nested a) := by
  have length : (UInt32.ofNat a.body.length).toNat = a.body.length := UInt32.toNat_ofNat_of_lt' a.fits
  refine reads_u16.bind_settles rfl <| (settles_ofExcept (pool.utf8 a.name)).bind fun name =>
    reads_u32.bind_settles rfl ?_
  rw [length]
  refine (reads_bytes a.body.length).bind_settles_nil ⟨rfl, rfl⟩ ?_
  unfold namedResult
  cases AttributeKind.ofName? name with
  | none => exact settles_pure none
  | some kind => exact settles_body name kind a.body

/-- What is read from a table of which an attribute is the only entry. -/
def alone (pool : ConstantPool) (levels : Nat) (a : AttributeBytes) : Except FormatError (List Attribute) :=
  (levelDecoder pool (levels + 1)).decode (AttributeBytes.encodeTable [a])

/-- Each entry of a table leaves none or one attribute. -/
private theorem filterMap_mapM {R : Type} (entry : R → Except FormatError (Option Attribute)) (rs : List R) :
    List.filterMap id <$> rs.mapM entry = List.flatten <$> rs.mapM fun r => Option.toList <$> entry r := by
  induction rs with
  | nil => rfl
  | cons r rs ih =>
    rw [List.mapM_cons, List.mapM_cons]
    cases entry r with
    | error e => rfl
    | ok a? =>
      -- both sides put the entry in front of what the others leave
      trans (a?.toList ++ ·) <$> (List.filterMap id <$> rs.mapM entry)
      · cases rs.mapM entry <;> cases a? <;> rfl
      · rw [ih]
        cases rs.mapM fun r => Option.toList <$> entry r <;> rfl

private theorem settles_entries (levels : Nat) {as : List AttributeBytes} (few : as.length < 65536) :
    (levelDecoder pool (levels + 1)).Settles (AttributeBytes.encodeTable as)
      (List.filterMap id <$> as.mapM (entryResult pool (levelDecoder pool levels))) :=
  (Settles.table few fun a _ => settles_entry a).map (List.filterMap id)

theorem alone_eq (levels : Nat) (a : AttributeBytes) :
    alone pool levels a = Option.toList <$> entryResult pool (levelDecoder pool levels) a := by
  rw [alone, (settles_entries levels (by simp)).decode_eq, List.mapM_cons]
  cases entryResult pool (levelDecoder pool levels) a with
  | error e => rfl
  | ok a? => cases a? <;> rfl

/-- The bytes of a table settle how it is read: as its attributes are read alone, the results joined in order. -/
theorem settles_level (levels : Nat) {as : List AttributeBytes} (few : as.length < 65536) :
    (levelDecoder pool (levels + 1)).Settles (AttributeBytes.encodeTable as)
      (List.flatten <$> as.mapM (alone pool levels)) := by
  rw [funext (alone_eq levels), ← filterMap_mapM]
  exact settles_entries levels few

/-- An attribute of a name that is not decoded leaves nothing, whatever its body holds. -/
theorem alone_passedOver (levels : Nat) {a : AttributeBytes} {name : String} (holds : pool.Holds a.name (.utf8 name))
    (unknown : AttributeKind.ofName? name = none) : alone pool levels a = .ok [] := by
  rw [alone_eq, entryResult, ConstantPool.utf8_eq_ok_iff.2 holds]
  show Option.toList <$> namedResult _ name a.body = _
  rw [namedResult, unknown]
  rfl

/-- Such an attribute does not change what is read from a table, nor how a table is refused. -/
theorem decode_inserted (levels : Nat) {before after : List AttributeBytes} {a : AttributeBytes} {name : String}
    (holds : pool.Holds a.name (.utf8 name)) (unknown : AttributeKind.ofName? name = none)
    (few : (before ++ a :: after).length < 65536) :
    (levelDecoder pool (levels + 1)).decode (AttributeBytes.encodeTable (before ++ a :: after)) =
      (levelDecoder pool (levels + 1)).decode (AttributeBytes.encodeTable (before ++ after)) := by
  have fewer : (before ++ after).length < 65536 := by
    simp only [List.length_append, List.length_cons] at few ⊢
    omega
  rw [(settles_level levels few).decode_eq, (settles_level levels fewer).decode_eq, List.mapM_append, List.mapM_append,
    List.mapM_cons, alone_passedOver levels holds unknown]
  cases before.mapM (alone pool levels) with
  | error e => rfl
  | ok front =>
    cases after.mapM (alone pool levels) with
    | error e => rfl
    | ok back =>
      show Except.ok (front ++ [] :: back).flatten = Except.ok (front ++ back).flatten
      rw [List.flatten_append, List.flatten_append, List.flatten_cons, List.nil_append]

/-- A table is read as its attributes are read alone, whatever is before and behind it. -/
structure ReadsEach (pool : ConstantPool) (levels : Nat) (as : List AttributeBytes) : Prop where
  /-- It is accepted if each attribute is, with the results joined in order; its bytes are taken and no others. -/
  accepted : ∀ offset rest found after,
    levelDecoder pool (levels + 1) ⟨offset, AttributeBytes.encodeTable as ++ rest⟩ = .ok found after ↔
      ∃ parts, List.Forall₂ (fun a part => alone pool levels a = .ok part) as parts ∧ found = parts.flatten ∧
        after = ⟨offset + (2 + (as.map fun a => 6 + a.body.length).sum), rest⟩
  /-- The fault of the first attribute that is refused is the fault of the table. -/
  refused : ∀ offset rest fault,
    (∃ after, levelDecoder pool (levels + 1) ⟨offset, AttributeBytes.encodeTable as ++ rest⟩ = .error fault after) ↔
      Except.FirstError (as.map (alone pool levels)) fault

theorem readsEach (pool : ConstantPool) (levels : Nat) {as : List AttributeBytes} (few : as.length < 65536) :
    ReadsEach pool levels as where
  accepted := by
    intro offset rest found after
    rw [← outcome_eq_ok_iff, settles_level levels few, Except.map_eq_ok_iff, ← AttributeBytes.length_encodeTable]
    simp only [Except.map_eq_ok_iff, Except.mapM_eq_ok_iff, Prod.mk.injEq]
    constructor
    · intro h
      obtain ⟨_, ⟨parts, each, rfl⟩, rfl, rfl⟩ := h
      exact ⟨parts, each, rfl, rfl⟩
    · intro h
      obtain ⟨parts, each, rfl, rfl⟩ := h
      exact ⟨_, ⟨parts, each, rfl⟩, rfl, rfl⟩
  refused := by
    intro offset rest fault
    rw [← outcome_eq_error_iff, settles_level levels few, Except.map_eq_error_iff, Except.map_eq_error_iff,
      Except.mapM_eq_error_iff]

end Attribute

end ClassCensus
