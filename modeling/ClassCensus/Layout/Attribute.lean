import ClassCensus.Layout.Character

/-!
# Attributes of a tag

The content of a tag after its name is a sequence of attributes: a key, `=`, and a value in quotes, with blanks
allowed around each.

* (keys) a key starts at the first byte that is not blank, whatever it is, and ends before the next `=` or blank; no
  blank is needed after the value before it;
* (values) a value goes from its quote to the next quote of the same kind;
* (faults) the attributes before the first fault are kept beside it (`attributesOnto`), since a reader may refuse one
  of them first; positions count from the start of the content of the tag.
-/

namespace ClassCensus.Layout

/-- What is wrong with the form of an attribute. -/
inductive AttributeFault where
  | missingEquals (position : Nat)
  | duplicate (position previous : Nat)
  | missingValue (position : Nat)
  | unquotedValue (position : Nat)
  | missingQuote (position : Nat) (quote : Char)
deriving DecidableEq

/-- The text of a fault of the form of an attribute. -/
def AttributeFault.message : AttributeFault → String
  | .missingEquals position => s!"position {position}: attribute key must be directly followed by `=` or space"
  | .duplicate position previous =>
    s!"position {position}: duplicated attribute, previous declaration at position {previous}"
  | .missingValue position => s!"position {position}: `=` must be followed by an attribute value"
  | .unquotedValue position => s!"position {position}: attribute value must be enclosed in `\"` or `'`"
  | .missingQuote position quote =>
    s!"position {position}: missing closing quote `{String.singleton quote}` in attribute value"

/-- An attribute as it is written: where its key starts, its key and its value. -/
structure RawAttribute where
  position : Nat
  key : List UInt8
  value : List UInt8
deriving DecidableEq

/-- A position in a tag with the bytes after it. -/
structure TagCursor where
  position : Nat
  rest : List UInt8

/-- Passes over the bytes for which `p` holds, and gives them. -/
def TagCursor.takeWhile (p : UInt8 → Bool) (cursor : TagCursor) : List UInt8 × TagCursor :=
  let taken := cursor.rest.takeWhile p
  (taken, ⟨cursor.position + taken.length, cursor.rest.dropWhile p⟩)

theorem TagCursor.length_takeWhile_le (p : UInt8 → Bool) (cursor : TagCursor) :
    (cursor.takeWhile p).2.rest.length ≤ cursor.rest.length := by
  exact (List.dropWhile_sublist p).length_le

/-- Passes over blanks. -/
def TagCursor.skipBlanks (cursor : TagCursor) : TagCursor :=
  (cursor.takeWhile isBlank).2

/-- The value ahead, after `=`. -/
def TagCursor.value (cursor : TagCursor) : Except AttributeFault (List UInt8 × TagCursor) :=
  let cursor := cursor.skipBlanks
  match cursor.rest with
  | [] => .error (.missingValue cursor.position)
  | quote :: rest =>
    if quote ≠ ascii '"' ∧ quote ≠ ascii '\'' then .error (.unquotedValue cursor.position)
    else
      let (value, after) := TagCursor.takeWhile (· ≠ quote) ⟨cursor.position + 1, rest⟩
      match after.rest with
      | [] => .error (.missingQuote after.position (Char.ofNat quote.toNat))
      | _ :: rest => .ok (value, ⟨after.position + 1, rest⟩)

/-- A byte that ends a key. -/
def endsKey (b : UInt8) : Bool :=
  b = ascii '=' || isBlank b

/-- The attribute whose key starts with the byte `first` at `start`, after the attributes `read`. -/
def attributeAt (read : List RawAttribute) (start : Nat) (first : UInt8) (rest : List UInt8) :
    Except AttributeFault (RawAttribute × TagCursor) :=
  let (keyRest, afterKey) := TagCursor.takeWhile (!endsKey ·) ⟨start + 1, rest⟩
  let equals := afterKey.skipBlanks
  match equals.rest with
  | [] => .error (.missingEquals equals.position)
  | b :: rest =>
    if b ≠ ascii '=' then .error (.missingEquals equals.position)
    else match read.find? (·.key = first :: keyRest) with
    | some previous => .error (.duplicate start previous.position)
    | none =>
      match TagCursor.value ⟨equals.position + 1, rest⟩ with
      | .error fault => .error fault
      | .ok (value, after) => .ok (⟨start, first :: keyRest, value⟩, after)

theorem TagCursor.length_of_value {cursor after : TagCursor} {value : List UInt8}
    (h : cursor.value = .ok (value, after)) : after.rest.length < cursor.rest.length := by
  unfold TagCursor.value at h
  have hblank := cursor.length_takeWhile_le isBlank
  simp only at h
  split at h
  · simp at h
  · next quote rest hrest =>
    have hquote := TagCursor.length_takeWhile_le (· ≠ quote) ⟨cursor.skipBlanks.position + 1, rest⟩
    have hlen : cursor.skipBlanks.rest.length = rest.length + 1 := by rw [hrest]; rfl
    rw [skipBlanks] at hlen
    split at h
    · simp at h
    · split at h
      · simp at h
      · next afterRest hafter =>
        simp only [Except.ok.injEq, Prod.mk.injEq] at h
        rw [hafter] at hquote
        rw [← h.2]
        simp only [List.length_cons] at hquote ⊢
        omega

theorem length_of_attributeAt {read : List RawAttribute} {start : Nat} {first : UInt8} {rest : List UInt8}
    {found : RawAttribute} {after : TagCursor} (h : attributeAt read start first rest = .ok (found, after)) :
    after.rest.length < rest.length := by
  unfold attributeAt at h
  have hkey := TagCursor.length_takeWhile_le (!endsKey ·) ⟨start + 1, rest⟩
  have hblank := TagCursor.length_takeWhile_le isBlank (TagCursor.takeWhile (!endsKey ·) ⟨start + 1, rest⟩).2
  simp only at h hkey
  split at h
  · simp at h
  · next b rest' hrest =>
    rw [TagCursor.skipBlanks] at hrest
    rw [hrest, List.length_cons] at hblank
    split at h
    · simp at h
    · split at h
      · simp at h
      · split at h
        · simp at h
        · next value after' hvalue =>
          simp only [Except.ok.injEq, Prod.mk.injEq] at h
          have := TagCursor.length_of_value hvalue
          rw [← h.2]
          simp only at this
          omega

/-- The attributes of a tag from a cursor on, after the attributes `read` (latest first), up to the first fault. -/
def attributesOnto (read : List RawAttribute) (cursor : TagCursor) : List RawAttribute × Option AttributeFault :=
  match _hrest : cursor.skipBlanks.rest with
  | [] => (read.reverse, none)
  | first :: rest =>
    match _hfound : attributeAt read cursor.skipBlanks.position first rest with
    | .error fault => (read.reverse, some fault)
    | .ok (found, after) => attributesOnto (found :: read) after
termination_by cursor.rest.length
decreasing_by
  have := length_of_attributeAt _hfound
  have hblank := cursor.length_takeWhile_le isBlank
  have hlen : cursor.skipBlanks.rest.length = rest.length + 1 := by rw [_hrest]; rfl
  rw [TagCursor.skipBlanks] at hlen
  omega

end ClassCensus.Layout
