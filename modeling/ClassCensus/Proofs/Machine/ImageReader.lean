import ClassCensus.Proofs.ClassFile.Spelling
import ClassCensus.Proofs.Machine.Following

/-!
# Reading images by offset

An `ImageReader` holds a whole byte string and the offset of the next byte.  Its readings are those of `Decoder`, with
the operations of a machine: the bytes ahead are counted by a difference, taken as a slice and then addressed one by
one.

* (offsets) an offset never leaves the bytes (`onImage`), so that slices and differences stay inside their domains; sums
  of offsets need no word of their own, for the end of a slice is compared with the end of the bytes;
* (primitives) `follows_bytes` is the only place where an image is sliced, and the numbers are read from its result.
-/

namespace ClassCensus.Machine

/-- A byte string and a place in it. -/
structure ImageReader where
  image : List UInt8
  offset : Nat

/-- A reading of an image. -/
abbrev ImageReading := Reading ImageReader

namespace ImageReader

/-- There are bytes ahead. -/
def hasMore (r : ImageReader) : Bool := r.offset < r.image.length

/-- The number of bytes ahead. -/
def remaining (r : ImageReader) : Checked Nat :=
  minus r.image.length r.offset

/-- The next `n` bytes. -/
def bytes (n : Nat) : ImageReading (List UInt8) := do
  let r ← get
  let available ← r.remaining
  if n > available then throw (.endOfData n r.offset available)
  let taken ← slice r.image r.offset n
  set { r with offset := r.offset + n }
  return taken

/-- Passes over the next `n` bytes. -/
def skip (n : Nat) : ImageReading Unit := do
  let _ ← bytes n

/-- The next byte. -/
def u8 : ImageReading UInt8 := do
  let taken ← bytes 1
  item taken 0

/-- The next two bytes as a number. -/
def u16 : ImageReading UInt16 := do
  let taken ← bytes 2
  return UInt16.ofNat (bigEndian (← items taken 0 2))

/-- The next four bytes as a number. -/
def u32 : ImageReading UInt32 := do
  let taken ← bytes 4
  return UInt32.ofNat (bigEndian (← items taken 0 4))

/-- The next four bytes as a signed number. -/
def i32 : ImageReading Int32 := do
  return (← u32).toInt32

/-- The next eight bytes as a number, read in two halves. -/
def u64 : ImageReading UInt64 := do
  let high ← u32
  let low ← u32
  return UInt64.ofNat (high.toNat * 0x100000000 + low.toNat)

/-- The offset of the byte before the next one. -/
def lastOffset : ImageReading Nat := do
  minus (← get).offset 1

/-- Reads `n` entries after the entries `read` (latest first). -/
def timesOnto {α : Type} (entry : ImageReading α) (read : List α) : Nat → ImageReading (List α)
  | 0 => return read.reverse
  | n + 1 => do
    let a ← entry
    timesOnto entry (a :: read) n

/-- Reads `n` entries. -/
def times {α : Type} (n : Nat) (entry : ImageReading α) : ImageReading (List α) :=
  timesOnto entry [] n

/-- A two-byte count and that many entries. -/
def table {α : Type} (entry : ImageReading α) : ImageReading (List α) := do
  let count ← u16
  times count.toNat entry

/-- A two-byte count and that many two-byte numbers. -/
def u16List : ImageReading (List UInt16) :=
  table u16

/-- The same reading with its failures set in a context. -/
def within {α : Type} (context : FormatError → FormatError) (reading : ImageReading α) : ImageReading α := fun r =>
  inContext context (reading r)

end ImageReader

/-- The readers of an image, standing for the cursors in it. -/
def onImage (image : List UInt8) : View FormatError Cursor ImageReader where
  state cursor := ⟨image, cursor.offset⟩
  Valid cursor := cursor.offset ≤ image.length ∧ cursor.rest = image.drop cursor.offset
  report e _ := e

namespace ImageReader

open View

variable {image : List UInt8} {α : Type}

theorem valid_start : (onImage image).Valid (Cursor.ofBytes image) :=
  ⟨Nat.zero_le _, rfl⟩

theorem length_rest {cursor : Cursor} (valid : (onImage image).Valid cursor) :
    cursor.rest.length = image.length - cursor.offset := by
  rw [valid.2, List.length_drop]

theorem remaining_eq {cursor : Cursor} (valid : (onImage image).Valid cursor) :
    ((onImage image).state cursor).remaining = pure cursor.remaining := by
  have inside : cursor.offset ≤ image.length := valid.1
  rw [Cursor.remaining, length_rest valid]
  exact guarded_eq inside

theorem hasMore_eq {cursor : Cursor} (valid : (onImage image).Valid cursor) :
    ((onImage image).state cursor).hasMore = cursor.hasMore := by
  have inside : cursor.offset ≤ image.length := valid.1
  have length := length_rest valid
  show decide (cursor.offset < image.length) = !cursor.rest.isEmpty
  cases rest : cursor.rest with
  | nil => simp [rest] at length ⊢; omega
  | cons b bytes => simp [rest] at length ⊢; omega

/-! ### Bytes -/

theorem follows_bytes (n : Nat) : (onImage image).Follows (bytes n) (Decoder.bytes n) := by
  intro cursor valid
  have inside : cursor.offset ≤ image.length := valid.1
  have length := length_rest valid
  have total : Decoder.bytes n cursor =
      if (cursor.rest.take n).length = n then .ok (cursor.rest.take n) ⟨cursor.offset + n, cursor.rest.drop n⟩
      else .error (.endOfData n cursor.offset cursor.remaining) cursor := by
    rw [Decoder.bytes, List.splitAt_eq]
  refine .get (.operation (remaining_eq valid) ?_)
  by_cases few : n > cursor.remaining
  · have short : (cursor.rest.take n).length ≠ n := by
      rw [List.length_take]
      show min n cursor.remaining ≠ n
      omega
    rw [if_pos few]
    exact followsAt_of_error (total.trans (if_neg short)) rfl
  · have enough : cursor.offset + n ≤ image.length := by
      rw [Cursor.remaining] at few
      omega
    have whole : (cursor.rest.take n).length = n := by
      rw [List.length_take]
      omega
    rw [if_neg few]
    refine .operation (guarded_eq enough) ?_
    rw [valid.2] at total whole
    exact followsAt_of_ok (total.trans (if_pos whole)) ⟨enough, List.drop_drop⟩ rfl

theorem follows_skip (n : Nat) : (onImage image).Follows (skip n) (Decoder.skip n) :=
  (follows_bytes n).bind fun _ => .pure _

/-- What is made of all the bytes asked for, one by one. -/
private theorem follows_number (n : Nat) (f : List UInt8 → α) :
    (onImage image).Follows (do return f (← items (← bytes n) 0 n)) (do return f (← Decoder.bytes n)) := by
  intro cursor valid
  refine (follows_bytes n cursor valid).bind fun taken after run valid => ?_
  obtain ⟨-, ⟨-, all⟩, -⟩ := (Decoder.reads_bytes n cursor taken after).1 run
  exact .operation (items_all all) (.pure _ valid)

theorem follows_u8 : (onImage image).Follows u8 Decoder.u8 := by
  intro cursor valid
  refine (follows_bytes 1 cursor valid).bind fun taken after run valid => ?_
  obtain ⟨-, ⟨-, one⟩, -⟩ := (Decoder.reads_bytes 1 cursor taken after).1 run
  obtain ⟨b, rfl⟩ := List.length_eq_one_iff.1 one
  have value : UInt8.ofNat (bigEndian [b]) = b := by simp [bigEndian]
  rw [value]
  exact .pure b valid

theorem follows_u16 : (onImage image).Follows u16 Decoder.u16 :=
  follows_number 2 fun taken => UInt16.ofNat (bigEndian taken)

theorem follows_u32 : (onImage image).Follows u32 Decoder.u32 :=
  follows_number 4 fun taken => UInt32.ofNat (bigEndian taken)

theorem follows_i32 : (onImage image).Follows i32 Decoder.i32 :=
  follows_u32.bind fun _ => .pure _

theorem follows_u64 : (onImage image).Follows u64 Decoder.u64 :=
  follows_u32.bind fun _ => follows_u32.bind fun _ => .pure _

/-! ### Repetitions and contexts -/

private theorem follows_timesOnto {entry : ImageReading α} {d : Decoder α}
    (h : (onImage image).Follows entry d) (n : Nat)
    (read : List α) : (onImage image).Follows (timesOnto entry read n) (Decoder.timesOnto d read n) := by
  induction n generalizing read with
  | zero => exact .pure _
  | succ n ih => exact h.bind fun a => ih (a :: read)

theorem follows_times {entry : ImageReading α} {d : Decoder α} (h : (onImage image).Follows entry d) (n : Nat) :
    (onImage image).Follows (times n entry) (Decoder.times n d) :=
  follows_timesOnto h n []

theorem follows_table {entry : ImageReading α} {d : Decoder α} (h : (onImage image).Follows entry d) :
    (onImage image).Follows (table entry) (Decoder.table d) :=
  follows_u16.bind fun count => follows_times h count.toNat

theorem follows_u16List : (onImage image).Follows u16List Decoder.u16List :=
  follows_table follows_u16

theorem follows_within {m : ImageReading α} {d : Decoder α} (h : (onImage image).Follows m d)
    (context : FormatError → FormatError) :
    (onImage image).Follows (within context m) (Decoder.within context d) := by
  intro cursor valid
  have h := h cursor valid
  rw [FollowsAt, within, Decoder.within]
  cases run : d cursor with
  | ok a after =>
    rw [h.eq_pure run]
    exact ⟨h.valid run, rfl⟩
  | error e after =>
    rw [h.eq_throw run]
    rfl

theorem follows_throw (e : FormatError) : (onImage image).Follows (throw e : ImageReading α) (throw e) :=
  fun _ _ => rfl

/-- A computation that reads nothing and never faults. -/
theorem follows_total (x : Except FormatError α) :
    (onImage image).Follows (monadLift (total x)) (Decoder.ofExcept x) := by
  intro cursor valid
  cases x with
  | ok a => exact .pure a valid
  | error e => exact rfl

/-- A byte that is read is refused where it stands, just before the place behind it. -/
theorem followsAt_refused {cursor after : Cursor} {b : UInt8} {report : Nat → FormatError}
    (run : Decoder.u8 cursor = .ok b after) :
    (onImage image).FollowsAt (do throw (report (← lastOffset)) : ImageReading α) (throw (report cursor.offset))
      after := by
  obtain ⟨_, rfl, -, behind⟩ := (Decoder.reads_u8 cursor b after).1 run
  have before : minus after.offset 1 = pure cursor.offset := by
    rw [behind]
    exact guarded_eq (Nat.le_add_left 1 _)
  rw [lastOffset, bind_assoc]
  exact .get (.operation before rfl)

/-- Reading the place takes nothing. -/
theorem followsAt_offset {m : ImageReading α} {f : Nat → Decoder α} {cursor : Cursor}
    (h : (onImage image).FollowsAt m (f cursor.offset) cursor) :
    (onImage image).FollowsAt m (Decoder.offset >>= f) cursor :=
  h

/-! ### Whole byte strings -/

/-- A byte string of its own is read by a reader of its own. -/
theorem followsAt_within_onBytes {β : Type} {body : List UInt8} {m : ImageReading α} {d : Decoder α}
    (h : (onImage body).Follows m d) (context : FormatError → FormatError) {k : α × ImageReader → ImageReading β}
    {f : α × Cursor → Decoder β} {cursor : Cursor}
    (next : ∀ a inner, (onImage body).Valid inner →
      (onImage image).FollowsAt (k (a, (onImage body).state inner)) (f (a, inner)) cursor) :
    (onImage image).FollowsAt (monadLift (inContext context (m.run ⟨body, 0⟩)) >>= k)
      (Decoder.within context (Decoder.onBytes d body) >>= f) cursor := by
  have h := h (Cursor.ofBytes body) valid_start
  have start : m.run ⟨body, 0⟩ = m ((onImage body).state (Cursor.ofBytes body)) := rfl
  have total : (Decoder.within context (Decoder.onBytes d body) >>= f) cursor =
      EStateM.bind (Decoder.within context (Decoder.onBytes d body)) f cursor := rfl
  rw [FollowsAt, total, EStateM.bind, Decoder.within, Decoder.onBytes, start]
  cases run : d (Cursor.ofBytes body) with
  | ok a inner =>
    rw [h.eq_pure run]
    exact next a inner (h.valid run)
  | error e inner =>
    rw [h.eq_throw run]
    rfl

/-- A reading of a whole image never faults. -/
theorem run_eq {m : ImageReading α} {d : Decoder α} (h : (onImage image).Follows m d) :
    m.run' ⟨image, 0⟩ = total (d.decode image) := by
  have h := h (Cursor.ofBytes image) valid_start
  have start : m.run' ⟨image, 0⟩ = Prod.fst <$> m ((onImage image).state (Cursor.ofBytes image)) := rfl
  rw [start, Decoder.decode]
  cases run : d (Cursor.ofBytes image) with
  | ok a after =>
    rw [h.eq_pure run]
    rfl
  | error e after =>
    rw [h.eq_throw run]
    rfl

end ImageReader

end ClassCensus.Machine
