import ClassCensus.Proofs.Layout.ConstructEnd
import ClassCensus.Proofs.Layout.Scanning

/-!
# Documents as pieces

A document is read piece by piece: a blank, a construct, or a run of text up to the next `<`; at a `<` that starts no
construct the reading ends.  What holds of a document if it holds behind each piece, holds of all documents
(`piece_induction`).

* (positions) a construct is the same wherever it stands (`construct_eq_ok_at`), and so are all events
  (`map_event_eventsOnto`).
-/

namespace ClassCensus.Layout

/-- The construct with its position left open. -/
private theorem exists_construct_at {offset : Nat} {bytes rest : List UInt8} {found : Located}
    (h : construct offset bytes = .ok (found, rest)) (offset' : Nat) :
    ∃ past, construct offset' bytes = .ok (⟨found.event, offset', past⟩, rest) := by
  unfold construct at h ⊢
  split at h
  · cases h
  split at h
  · cases h
  split at h
  · cases h
  · cases h
    exact ⟨_, rfl⟩

/-- A construct is read again at any place and before any other bytes. -/
theorem construct_eq_ok_at {offset : Nat} {bytes rest : List UInt8} {found : Located}
    (h : construct offset bytes = .ok (found, rest)) :
    ∃ content, bytes = content ++ ascii '>' :: rest ∧ ∀ offset' rest', construct offset' (content ++ ascii '>' :: rest') =
      .ok (⟨found.event, offset', offset' + content.length + 2⟩, rest') := by
  obtain ⟨content, rfl, -, again, -⟩ := construct_eq_ok h
  refine ⟨content, rfl, fun offset' rest' => ?_⟩
  obtain ⟨past, there⟩ := exists_construct_at (again rest') offset'
  obtain ⟨content', same, e, -⟩ := construct_eq_ok there
  obtain rfl : content = content' := (List.append_inj' same (by simp)).1
  rw [there, ← e]

theorem exists_construct_error {offset : Nat} {bytes : List UInt8} {fault : LocatedFault}
    (h : construct offset bytes = .error fault) (offset' : Nat) : ∃ fault', construct offset' bytes = .error fault' := by
  cases there : construct offset' bytes with
  | error fault' => exact ⟨fault', rfl⟩
  | ok result =>
    obtain ⟨found, rest⟩ := result
    obtain ⟨past, here⟩ := exists_construct_at there offset
    rw [h] at here
    cases here

/-- The bytes up to the next bracket, and what follows them. -/
theorem exists_split_bracket (bytes : List UInt8) :
    ∃ run rest, bytes = run ++ rest ∧ ascii '<' ∉ run ∧ ∀ c ∈ rest.head?, c = ascii '<' := by
  refine ⟨bytes.takeWhile (· ≠ ascii '<'), bytes.dropWhile (· ≠ ascii '<'), List.takeWhile_append_dropWhile.symm,
    fun mem => ?_, fun c mem => ?_⟩
  · simpa using List.all_eq_true.1 List.all_takeWhile _ mem
  · have first := List.head?_dropWhile_not (· ≠ ascii '<') bytes
    rw [Option.mem_def.1 mem] at first
    simpa using first

/-- Induction over the pieces of a document. -/
theorem piece_induction {motive : List UInt8 → Prop} (nil : motive [])
    (blank : ∀ b rest, isBlank b = true → motive rest → motive (b :: rest))
    (fault : ∀ rest, (∀ offset, ∃ fault, construct offset rest = .error fault) → motive (ascii '<' :: rest))
    (construct : ∀ event content rest, (∀ offset rest', construct offset (content ++ ascii '>' :: rest') =
        .ok (⟨event, offset, offset + content.length + 2⟩, rest')) →
      motive rest → motive (ascii '<' :: (content ++ ascii '>' :: rest)))
    (text : ∀ b run rest, isBlank b = false → ascii '<' ∉ b :: run → (∀ c ∈ rest.head?, c = ascii '<') →
      motive rest → motive (b :: run ++ rest))
    (bytes : List UInt8) : motive bytes := by
  induction size : bytes.length using Nat.strong_induction_on generalizing bytes with
  | _ size ih =>
    subst size
    cases bytes with
    | nil => exact nil
    | cons b rest =>
      cases firm : isBlank b with
      | true => exact blank b rest firm (ih _ (Nat.lt_succ_self _) rest rfl)
      | false =>
        by_cases bracket : b = ascii '<'
        · subst bracket
          cases h : Layout.construct 0 rest with
          | error fault' => exact fault rest (exists_construct_error h)
          | ok result =>
            obtain ⟨found, rest⟩ := result
            obtain ⟨content, rfl, again⟩ := construct_eq_ok_at h
            exact construct _ _ _ again (ih _ (Nat.lt_succ_of_lt (length_of_construct h)) _ rfl)
        · obtain ⟨run, rest, rfl, others, stops⟩ := exists_split_bracket rest
          have noBracket : ascii '<' ∉ b :: run := List.not_mem_cons_of_ne_of_not_mem (Ne.symm bracket) others
          have less : rest.length < (b :: (run ++ rest)).length := by
            simp only [List.length_cons, List.length_append]
            omega
          exact text b run rest firm noBracket stops (ih _ less rest rfl)

/-- What the events are does not depend on where the bytes stand. -/
theorem map_event_eventsOnto (offset offset' : Nat) (bytes : List UInt8) :
    (eventsOnto [] offset bytes).1.map Located.event = (eventsOnto [] offset' bytes).1.map Located.event ∧
      ((eventsOnto [] offset bytes).2 = none ↔ (eventsOnto [] offset' bytes).2 = none) := by
  induction bytes using piece_induction generalizing offset offset' with
  | nil => simp [eventsOnto_nil]
  | blank b rest blank ih =>
    rw [eventsOnto_blank blank, eventsOnto_blank blank]
    exact ih _ _
  | fault rest refused =>
    obtain ⟨fault, here⟩ := refused offset
    obtain ⟨fault', there⟩ := refused offset'
    rw [eventsOnto_fault here, eventsOnto_fault there]
    simp
  | construct event content rest again ih =>
    rw [eventsOnto_construct (again offset rest), eventsOnto_construct (again offset' rest), eventsOnto_eq,
      eventsOnto_eq [_]]
    obtain ⟨events, unbroken⟩ := ih (offset + content.length + 2) (offset' + content.length + 2)
    simp [events, unbroken]
  | text b run rest firm noBracket stops ih =>
    rw [eventsOnto_run firm noBracket stops, eventsOnto_run firm noBracket stops, eventsOnto_eq, eventsOnto_eq [_]]
    obtain ⟨events, unbroken⟩ := ih (offset + (b :: run).length) (offset' + (b :: run).length)
    simpa using ⟨events, unbroken⟩

end ClassCensus.Layout
