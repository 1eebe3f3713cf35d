import ClassCensus.Proofs.ClassFile.Spelling
import ClassCensus.Proofs.Outcome

/-!
# Bytes that settle what is read

`Decoder.Settles` says of bytes that a decoder comes to the same result wherever they stand: it succeeds with the same
value and takes them, or it is refused with the same fault.  There is a rule for each way to build a decoder; a decoder
that accepts the bytes is settled by them (`Decoder.Reads.settles`), so the rules are needed for refusals.
-/

namespace ClassCensus

namespace Decoder

variable {α β R : Type}

/-- The value and the place behind it, or the fault without the place where it shows. -/
def outcome (d : Decoder α) (cursor : Cursor) : Except FormatError (α × Cursor) :=
  match d cursor with
  | .ok a after => .ok (a, after)
  | .error e _ => .error e

theorem outcome_eq_ok_iff {d : Decoder α} {cursor after : Cursor} {a : α} :
    d.outcome cursor = .ok (a, after) ↔ d cursor = .ok a after := by
  unfold outcome
  split <;> simp_all

theorem outcome_eq_error_iff {d : Decoder α} {cursor : Cursor} {e : FormatError} :
    d.outcome cursor = .error e ↔ ∃ after, d cursor = .error e after := by
  unfold outcome
  split <;> simp_all

theorem outcome_bind (d : Decoder α) (f : α → Decoder β) (cursor : Cursor) :
    (d >>= f).outcome cursor = d.outcome cursor >>= fun read => (f read.1).outcome read.2 := by
  unfold outcome
  simp only [Bind.bind, EStateM.bind]
  cases d cursor <;> rfl

theorem decode_eq_outcome (d : Decoder α) (bytes : List UInt8) :
    d.decode bytes = Prod.fst <$> d.outcome (Cursor.ofBytes bytes) := by
  unfold decode outcome
  cases d (Cursor.ofBytes bytes) <;> rfl

/-- Where the bytes are ahead, the decoder has the result, whatever is before and behind them; if it succeeds it takes
the bytes. -/
def Settles (d : Decoder α) (bytes : List UInt8) (result : Except FormatError α) : Prop :=
  ∀ offset rest, d.outcome ⟨offset, bytes ++ rest⟩ = (fun a => (a, ⟨offset + bytes.length, rest⟩)) <$> result

theorem Reads.settles {d : Decoder α} {S : Spelling α} (h : d.Reads S) {bytes : List UInt8} {a : α} (hs : S bytes a) :
    d.Settles bytes (.ok a) :=
  fun _ _ => outcome_eq_ok_iff.2 ((h _ _ _).2 ⟨bytes, hs, rfl, rfl⟩)

theorem Settles.decode_eq {d : Decoder α} {bytes : List UInt8} {result : Except FormatError α}
    (h : d.Settles bytes result) : d.decode bytes = result := by
  have alone := h 0 []
  rw [List.append_nil] at alone
  rw [decode_eq_outcome, Cursor.ofBytes, alone]
  cases result <;> rfl

theorem settles_pure (a : α) : (Pure.pure a : Decoder α).Settles [] (.ok a) :=
  fun _ _ => rfl

theorem settles_ofExcept (result : Except FormatError α) : (ofExcept result).Settles [] result := by
  intro offset rest
  cases result <;> rfl

/-- A decoder that goes on after another one is settled by the bytes of both. -/
theorem Settles.bind {d : Decoder α} {f : α → Decoder β} {left right : List UInt8} {result : Except FormatError α}
    {g : α → Except FormatError β} (h : d.Settles left result) (h' : ∀ a, (f a).Settles right (g a)) :
    (d >>= f).Settles (left ++ right) (result >>= g) := by
  intro offset rest
  rw [outcome_bind, List.append_assoc, h offset (right ++ rest)]
  cases result with
  | error e => rfl
  | ok a =>
    have next := h' a (offset + left.length) rest
    rw [List.length_append, ← Nat.add_assoc]
    exact next

/-- What is read first is accepted. -/
theorem Reads.bind_settles {d : Decoder α} {f : α → Decoder β} {S : Spelling α} (h : d.Reads S)
    {left right : List UInt8} {a : α} {result : Except FormatError β} (hs : S left a)
    (h' : (f a).Settles right result) : (d >>= f).Settles (left ++ right) result := by
  intro offset rest
  have first : d.outcome ⟨offset, left ++ (right ++ rest)⟩ = .ok (a, ⟨offset + left.length, right ++ rest⟩) :=
    h.settles hs offset (right ++ rest)
  rw [outcome_bind, List.append_assoc, first, List.length_append, ← Nat.add_assoc]
  exact h' (offset + left.length) rest

theorem Reads.bind_settles_nil {d : Decoder α} {f : α → Decoder β} {S : Spelling α} (h : d.Reads S)
    {bytes : List UInt8} {a : α} {result : Except FormatError β} (hs : S bytes a) (h' : (f a).Settles [] result) :
    (d >>= f).Settles bytes result := by
  have whole := h.bind_settles hs h'
  rwa [List.append_nil] at whole

theorem Settles.map {d : Decoder α} {bytes : List UInt8} {result : Except FormatError α} (f : α → β)
    (h : d.Settles bytes result) : (do return f (← d) : Decoder β).Settles bytes (f <$> result) := by
  have mapped := h.bind fun a => settles_pure (f a)
  rw [List.append_nil] at mapped
  cases result <;> exact mapped

/-- Entries that are settled one by one settle their repetition. -/
theorem Settles.times {d : Decoder α} {encode : R → List UInt8} {result : R → Except FormatError α} (rs : List R)
    (h : ∀ r ∈ rs, d.Settles (encode r) (result r)) :
    (times rs.length d).Settles (rs.flatMap encode) (rs.mapM result) := by
  -- the entries read so far change with every step, so the induction is for all of them
  have onto : ∀ read, (timesOnto d read rs.length).Settles (rs.flatMap encode)
      ((read.reverse ++ ·) <$> rs.mapM result) := by
    induction rs with
    | nil =>
      intro read
      have none : (read.reverse ++ ·) <$> ([] : List R).mapM result = .ok read.reverse := by
        rw [List.mapM_nil]
        exact congrArg Except.ok (List.append_nil _)
      rw [none]
      exact settles_pure read.reverse
    | cons r rs ih =>
      intro read
      rw [List.forall_mem_cons] at h
      have more : (read.reverse ++ ·) <$> (r :: rs).mapM result =
          result r >>= fun a => ((a :: read).reverse ++ ·) <$> rs.mapM result := by
        rw [List.mapM_cons]
        cases result r with
        | error e => rfl
        | ok a =>
          cases rs.mapM result with
          | error e => rfl
          | ok as =>
            show Except.ok (read.reverse ++ a :: as) = Except.ok ((a :: read).reverse ++ as)
            rw [List.reverse_cons, List.append_assoc, List.singleton_append]
      rw [more, List.flatMap_cons]
      exact h.1.bind fun a => ih h.2 (a :: read)
  have whole : (List.reverse [] ++ ·) <$> rs.mapM result = rs.mapM result := by
    cases rs.mapM result <;> rfl
  exact whole ▸ onto []

/-- Entries that are settled one by one settle a table of them. -/
theorem Settles.table {d : Decoder α} {encode : R → List UInt8} {result : R → Except FormatError α} {rs : List R}
    (few : rs.length < 65536) (h : ∀ r ∈ rs, d.Settles (encode r) (result r)) :
    (table d).Settles (word16 (UInt16.ofNat rs.length) ++ rs.flatMap encode) (rs.mapM result) := by
  have entries := Settles.times rs h
  rw [← UInt16.toNat_ofNat_of_lt' few] at entries
  exact reads_u16.bind_settles rfl entries

/-! ### Bytes that are accepted under a condition -/

/-- Where the bytes are ahead, the decoder succeeds exactly if the condition holds; it then has the value and takes the
bytes. -/
def AcceptsIff (d : Decoder α) (bytes : List UInt8) (p : Prop) (a : α) : Prop :=
  ∀ offset rest b after,
    d ⟨offset, bytes ++ rest⟩ = .ok b after ↔ p ∧ b = a ∧ after = ⟨offset + bytes.length, rest⟩

variable {p q : Prop} {a : α}

theorem Settles.acceptsIff {d : Decoder α} {bytes : List UInt8} (h : d.Settles bytes (.ok a)) :
    d.AcceptsIff bytes True a := by
  intro offset rest b after
  rw [← outcome_eq_ok_iff, h, Except.map_eq_ok_iff]
  simp only [Except.ok.injEq, Prod.mk.injEq, exists_eq_left', true_and]
  exact and_congr eq_comm eq_comm

theorem Reads.acceptsIff {d : Decoder α} {S : Spelling α} (h : d.Reads S) {bytes : List UInt8} (hs : S bytes a) :
    d.AcceptsIff bytes True a :=
  (h.settles hs).acceptsIff

/-- A decoder that accepts less than another one accepts bytes for the other one if it spells them the same way. -/
theorem Reads.acceptsIff_of_le {d e : Decoder α} {S T : Spelling α} (hd : d.Reads S) (he : e.Reads T)
    (le : ∀ bytes a, S bytes a → T bytes a) {bytes : List UInt8} (spelt : T bytes a) :
    d.AcceptsIff bytes (S bytes a) a := by
  intro offset rest b after
  constructor
  · intro read
    obtain ⟨taken, hs, split, past⟩ := (hd _ _ _).1 read
    -- the other decoder comes to both results, so they are one
    have other := (he _ _ _).2 ⟨taken, le _ _ hs, split, past⟩
    have whole := (he ⟨offset, bytes ++ rest⟩ a ⟨offset + bytes.length, rest⟩).2 ⟨bytes, spelt, rfl, rfl⟩
    obtain ⟨rfl, rfl⟩ := EStateM.Result.ok.inj (other.symm.trans whole)
    obtain rfl := List.append_cancel_right split
    exact ⟨hs, rfl, rfl⟩
  · intro h
    obtain ⟨hs, rfl, rfl⟩ := h
    exact (hd _ _ _).2 ⟨bytes, hs, rfl, rfl⟩

theorem AcceptsIff.congr {d : Decoder α} {bytes : List UInt8} (h : d.AcceptsIff bytes p a) (e : p ↔ q) :
    d.AcceptsIff bytes q a :=
  fun offset rest b after => (h offset rest b after).trans (and_congr_left fun _ => e)

/-- A decoder that goes on after another one succeeds if both do. -/
theorem AcceptsIff.bind {d : Decoder α} {f : α → Decoder β} {left right : List UInt8} {b : β}
    (h : d.AcceptsIff left p a) (h' : (f a).AcceptsIff right q b) :
    (d >>= f).AcceptsIff (left ++ right) (p ∧ q) b := by
  intro offset rest c after
  rw [bind_eq_ok_iff, List.append_assoc, List.length_append, ← Nat.add_assoc]
  simp only [h offset (right ++ rest), and_assoc, exists_and_left, exists_eq_left, h' (offset + left.length) rest]

/-- What is read first is accepted without a condition. -/
theorem Reads.bind_acceptsIff {d : Decoder α} {f : α → Decoder β} {S : Spelling α} (h : d.Reads S)
    {left right : List UInt8} {b : β} (hs : S left a) (h' : (f a).AcceptsIff right p b) :
    (d >>= f).AcceptsIff (left ++ right) p b :=
  ((h.acceptsIff hs).bind h').congr (iff_of_eq (true_and p))

/-- A result that is known succeeds, and nothing is read. -/
theorem bind_ofExcept_acceptsIff {result : Except FormatError α} {f : α → Decoder β} {bytes : List UInt8} {b : β}
    (known : result = .ok a) (h : (f a).AcceptsIff bytes p b) : (ofExcept result >>= f).AcceptsIff bytes p b :=
  (reads_ofExcept result).bind_acceptsIff ⟨rfl, known⟩ h

theorem AcceptsIff.bind_nil {d : Decoder α} {f : α → Decoder β} {bytes : List UInt8} {b : β}
    (h : d.AcceptsIff bytes p a) (h' : (f a).AcceptsIff [] q b) : (d >>= f).AcceptsIff bytes (p ∧ q) b := by
  have whole := h.bind h'
  rwa [List.append_nil] at whole

theorem AcceptsIff.map {d : Decoder α} {bytes : List UInt8} (f : α → β) (h : d.AcceptsIff bytes p a) :
    (do return f (← d) : Decoder β).AcceptsIff bytes p (f a) :=
  (h.bind_nil (settles_pure (f a)).acceptsIff).congr (iff_of_eq (and_true p))

theorem AcceptsIff.times {d : Decoder α} {encode : R → List UInt8} {fits : R → Prop} {view : R → α} (rs : List R)
    (h : ∀ r ∈ rs, d.AcceptsIff (encode r) (fits r) (view r)) :
    (Decoder.times rs.length d).AcceptsIff (rs.flatMap encode) (∀ r ∈ rs, fits r) (rs.map view) := by
  have onto : ∀ read, (timesOnto d read rs.length).AcceptsIff (rs.flatMap encode) (∀ r ∈ rs, fits r)
      (read.reverse ++ rs.map view) := by
    induction rs with
    | nil =>
      intro read
      rw [List.map_nil, List.append_nil]
      exact (settles_pure read.reverse).acceptsIff.congr (by simp)
    | cons r rs ih =>
      intro read
      rw [List.forall_mem_cons] at h
      have more := h.1.bind (f := fun a => timesOnto d (a :: read) rs.length) (ih h.2 (view r :: read))
      rw [List.reverse_cons, List.append_assoc, List.singleton_append] at more
      exact more.congr List.forall_mem_cons.symm
  exact onto []

theorem AcceptsIff.table {d : Decoder α} {F : Format R α} {rs : List R} (few : rs.length < 65536)
    (h : ∀ r ∈ rs, d.AcceptsIff (F.encode r) (F.Fits r) (F.view r)) :
    (Decoder.table d).AcceptsIff (F.table.encode rs) (F.table.Fits rs) (F.table.view rs) := by
  have entries := AcceptsIff.times rs h
  rw [← UInt16.toNat_ofNat_of_lt' few] at entries
  exact (reads_u16.bind_acceptsIff rfl entries).congr (and_iff_right few).symm

/-- A byte string of its own that is used up. -/
theorem AcceptsIff.whole {d : Decoder α} {bytes : List UInt8} (h : d.AcceptsIff bytes p a)
    (context : FormatError → FormatError) (fault : Cursor → FormatError) :
    (do
      let (a, after) ← within context (onBytes d bytes)
      if after.hasMore then throw (fault after)
      return some a : Decoder (Option α)).AcceptsIff [] p (some a) := by
  have alone := h 0 []
  simp only [List.append_nil] at alone
  intro offset rest b after
  rw [bind_eq_ok_iff]
  constructor
  · intro read
    obtain ⟨⟨c, inner⟩, middle, outer, used⟩ := read
    obtain ⟨body, rfl⟩ := onBytes_eq_ok_iff.1 (within_eq_ok_iff.1 outer)
    obtain ⟨-, rfl, rfl⟩ := refuse_eq_ok_iff.1 used
    obtain ⟨hp, rfl, -⟩ := (alone c inner).1 body
    exact ⟨hp, rfl, rfl⟩
  · intro read
    obtain ⟨hp, rfl, rfl⟩ := read
    have body := (alone a _).2 ⟨hp, rfl, rfl⟩
    exact ⟨_, _, within_eq_ok_iff.2 (onBytes_eq_ok_iff.2 ⟨body, rfl⟩), refuse_eq_ok_iff.2 ⟨rfl, rfl, rfl⟩⟩

end Decoder

end ClassCensus
