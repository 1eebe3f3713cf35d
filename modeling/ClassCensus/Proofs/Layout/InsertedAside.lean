import ClassCensus.Proofs.Layout.AcceptedLayout
import ClassCensus.Proofs.Layout.Truncation

/-!
# Asides anywhere in a layout

The prolog of a document has its declaration first, and at most one document type declaration, which comes before the
root element (`PrologKept`).  Layouts are not held to this: an aside of any kind may be put between any two constructs of
an accepted layout, which is then accepted with the same names (`dottedNames_inserted`).

* (places) a document can be cut between any two of its events, and the bytes before are read as they were if a `<`
  follows them (`exists_cut`).
-/

namespace ClassCensus.Layout

/-- The declaration of a document is its first construct, and its document type is declared at most once, before the
root element. -/
structure PrologKept (events : List Event) : Prop where
  declaration_first : ∀ before after, events = before ++ .declaration :: after → before = []
  doctype_once : events.count .doctype ≤ 1
  doctype_before : ∀ before after, events = before ++ .doctype :: after → ∀ event ∈ before, event.isAside = true

theorem not_prologKept_declaration {first : List Event} (some : first ≠ []) (rest : List Event) :
    ¬ PrologKept (first ++ .declaration :: rest) :=
  fun kept => some (kept.declaration_first first rest rfl)

theorem not_prologKept_doctype {first : List Event} (late : ∃ event ∈ first, event.isAside = false ∨ event = .doctype)
    (rest : List Event) : ¬ PrologKept (first ++ .doctype :: rest) := by
  rintro ⟨-, once, early⟩
  obtain ⟨event, mem, part | rfl⟩ := late
  · exact Bool.false_ne_true (part.symm.trans (early first rest rfl event mem))
  · have positive := List.count_pos_iff.2 mem
    rw [List.count_append, List.count_cons_self] at once
    omega

/-! ### Places -/

/-- The position behind events that are read from a position on. -/
def pastOf (offset : Nat) (events : List Located) : Nat :=
  events.getLast?.elim offset Located.past

theorem pastOf_cons (offset : Nat) (found : Located) (events : List Located) :
    pastOf offset (found :: events) = pastOf found.past events := by
  cases events with
  | nil => rfl
  | cons next events => simp [pastOf, List.getLast?_cons]

/-- The bytes `left` are read as the events `before`, whatever construct follows them; before `right` so too. -/
structure CutAt (offset : Nat) (before after : List Located) (fault? : Option LocatedFault)
    (left right : List UInt8) : Prop where
  length : pastOf offset before = offset + left.length
  behind : eventsOnto [] (offset + left.length) right = (after, fault?)
  apart : ∀ rest, rest.head? = some (ascii '<') → eventsOnto [] offset (left ++ rest) =
    (before ++ (eventsOnto [] (offset + left.length) rest).1, (eventsOnto [] (offset + left.length) rest).2)

namespace CutAt

variable {offset : Nat} {before after : List Located} {fault? : Option LocatedFault} {left right : List UInt8}

theorem start (h : eventsOnto [] offset right = (after, fault?)) : CutAt offset [] after fault? [] right where
  length := rfl
  behind := h
  apart _ _ := rfl

/-- A cut behind blanks is one behind the blanks and more of them. -/
theorem blank {b : UInt8} (blank : isBlank b = true) (some : before ≠ [])
    (h : CutAt (offset + 1) before after fault? left right) : CutAt offset before after fault? (b :: left) right := by
  have place : offset + 1 + left.length = offset + (b :: left).length := by
    rw [List.length_cons]
    omega
  obtain ⟨length, behind, apart⟩ := h
  rw [place] at length behind
  refine ⟨?_, behind, fun rest bracket => ?_⟩
  · rw [← length]
    obtain ⟨found, events, rfl⟩ := List.exists_cons_of_ne_nil some
    rw [pastOf_cons, pastOf_cons]
  · rw [List.cons_append, eventsOnto_blank blank, apart rest bracket, place]

/-- A piece that is an event is one event more before the cut. -/
theorem event {found : Located} {piece : List UInt8} (past : found.past = offset + piece.length)
    (read : ∀ rest, rest.head? = some (ascii '<') →
      eventsOnto [] offset (piece ++ (left ++ rest)) = eventsOnto [found] found.past (left ++ rest))
    (h : CutAt found.past before after fault? left right) :
    CutAt offset (found :: before) after fault? (piece ++ left) right := by
  have place : found.past + left.length = offset + (piece ++ left).length := by
    rw [past, List.length_append]
    omega
  obtain ⟨length, behind, apart⟩ := h
  rw [place] at length behind
  refine ⟨by rw [pastOf_cons, length], behind, fun rest bracket => ?_⟩
  rw [List.append_assoc, read rest bracket, eventsOnto_eq, apart rest bracket, place]
  rfl

end CutAt

/-- A document can be cut between any two of its events. -/
theorem exists_cut {offset : Nat} {bytes : List UInt8} {before after : List Located} {fault? : Option LocatedFault}
    (events : eventsOnto [] offset bytes = (before ++ after, fault?)) :
    ∃ left right, bytes = left ++ right ∧ CutAt offset before after fault? left right := by
  induction bytes using piece_induction generalizing offset before with
  | nil =>
    rw [eventsOnto_nil] at events
    obtain ⟨rfl, rfl⟩ : before = [] ∧ after = [] := by simpa using congrArg Prod.fst events
    exact ⟨[], [], rfl, .start ((eventsOnto_nil [] offset).trans events)⟩
  | blank b rest blank ih =>
    rcases eq_or_ne before [] with rfl | some
    · exact ⟨[], b :: rest, rfl, .start events⟩
    · rw [eventsOnto_blank blank] at events
      obtain ⟨left, right, rfl, cut⟩ := ih events
      exact ⟨b :: left, right, rfl, cut.blank blank some⟩
  | fault rest refused =>
    obtain ⟨fault, refused⟩ := refused offset
    have none : before = [] := by
      rw [eventsOnto_fault refused] at events
      exact (List.append_eq_nil_iff.1 (congrArg Prod.fst events).symm).1
    subst none
    exact ⟨[], _, rfl, .start events⟩
  | construct event content rest again ih =>
    cases before with
    | nil => exact ⟨[], _, rfl, .start events⟩
    | cons found before =>
      have piece (rest : List UInt8) := eventsOnto_construct (again offset rest) []
      rw [piece, eventsOnto_eq] at events
      obtain ⟨⟨rfl, others⟩, faults⟩ : (_ = found ∧ _ = before ++ after) ∧ _ = fault? := by simpa using events
      obtain ⟨left, right, rfl, cut⟩ := ih (Prod.ext others faults)
      refine ⟨ascii '<' :: (content ++ [ascii '>']) ++ left, right, by simp, cut.event ?_ fun rest _ => ?_⟩
      · simp [Nat.add_assoc]
      rw [← piece]
      simp
  | text b run rest firm noBracket stops ih =>
    cases before with
    | nil => exact ⟨[], _, rfl, .start events⟩
    | cons found before =>
      rw [eventsOnto_run firm noBracket stops, eventsOnto_eq] at events
      obtain ⟨⟨rfl, others⟩, faults⟩ : (_ = found ∧ _ = before ++ after) ∧ _ = fault? := by simpa using events
      obtain ⟨left, right, rfl, cut⟩ := ih (Prod.ext others faults)
      refine ⟨b :: run ++ left, right, by simp, cut.event (by simp) fun rest bracket => ?_⟩
      -- the run ends where it did, at what is left of the document or at the bracket
      refine eventsOnto_run firm noBracket (fun c mem => ?_) [] offset
      cases left with
      | nil => exact Option.some.inj (mem.symm.trans bracket)
      | cons first left => exact stops c mem

/-! ### Insertions -/

/-- The bytes after a `<` are an aside, of which nothing is left. -/
def WritesAside (event : Event) (bytes : List UInt8) : Prop :=
  event.isAside = true ∧ ∃ found, construct 0 bytes = .ok (found, []) ∧ found.event = event

/-- The document with a `<` and other bytes put in at a position. -/
def inserted (position : Nat) (bytes document : List UInt8) : List UInt8 :=
  document.take position ++ ascii '<' :: bytes ++ document.drop position

variable {before after : List Located} {event : Event} {aside : List UInt8}

/-- An aside between two events is one event more. -/
theorem eventsOnto_inserted {bytes : List UInt8} {fault? : Option LocatedFault}
    (place : eventsOnto [] 0 bytes = (before ++ after, fault?)) (writes : WritesAside event aside) :
    (eventsOnto [] 0 (inserted (pastOf 0 before) aside bytes)).1.map Located.event =
        before.map Located.event ++ event :: after.map Located.event ∧
      ((eventsOnto [] 0 (inserted (pastOf 0 before) aside bytes)).2 = none ↔ fault? = none) := by
  obtain ⟨left, right, rfl, length, behind, apart⟩ := exists_cut place
  obtain ⟨-, found, written, rfl⟩ := writes
  obtain ⟨content, rfl, again⟩ := construct_eq_ok_at written
  have whole : inserted (pastOf 0 before) (content ++ [ascii '>']) (left ++ right) =
      left ++ ascii '<' :: (content ++ ascii '>' :: right) := by
    rw [inserted, length, Nat.zero_add, List.take_left, List.drop_left]
    simp
  rw [whole, apart _ rfl, eventsOnto_construct (again _ _), eventsOnto_eq]
  obtain ⟨events, unbroken⟩ := map_event_eventsOnto (0 + left.length + content.length + 2) (0 + left.length) right
  rw [behind] at events unbroken
  rw [Nat.zero_add] at events unbroken
  simpa using ⟨events, unbroken⟩

/-- A byte order mark is not made by an insertion. -/
theorem isPrefixOf_inserted {document : List UInt8} (unmarked : byteOrderMark.isPrefixOf document = false)
    (position : Nat) (bytes : List UInt8) : byteOrderMark.isPrefixOf (inserted position bytes document) = false := by
  rw [← Bool.not_eq_true, List.isPrefixOf_iff_prefix] at unmarked ⊢
  intro marked
  rw [inserted, List.append_assoc, List.cons_append] at marked
  rcases Nat.lt_or_ge (document.take position).length byteOrderMark.length with short | long
  · -- the bracket would be a byte of the mark
    have bracket : document.take position ++ [ascii '<'] <+: byteOrderMark := by
      refine List.prefix_of_prefix_length_le ⟨bytes ++ document.drop position, by simp⟩ marked ?_
      rw [List.length_append]
      exact short
    have mem : ascii '<' ∈ byteOrderMark := bracket.subset (by simp)
    revert mem
    decide
  · have inside := List.prefix_of_prefix_length_le marked (List.prefix_append _ _) long
    exact unmarked (inside.trans (List.take_prefix position document))

theorem eventsOf_inserted {document : List UInt8} (place : (eventsOf document).1 = before ++ after)
    (writes : WritesAside event aside) :
    eventsIn (inserted (markLength document + pastOf 0 before) aside document) =
        before.map Located.event ++ event :: after.map Located.event ∧
      ((eventsOf (inserted (markLength document + pastOf 0 before) aside document)).2 = none ↔
        (eventsOf document).2 = none) := by
  cases unmarked : byteOrderMark.isPrefixOf document with
  | false =>
    have start : markLength document = 0 := by simp [markLength, unmarked]
    simp only [eventsIn, eventsOf, start, Nat.zero_add, unmarked, isPrefixOf_inserted unmarked] at place ⊢
    exact eventsOnto_inserted (Prod.ext place rfl) writes
  | true =>
    obtain ⟨body, rfl⟩ := List.isPrefixOf_iff_prefix.1 unmarked
    have start : markLength (byteOrderMark ++ body) = byteOrderMark.length := by simp [markLength]
    have moved : inserted (byteOrderMark.length + pastOf 0 before) aside (byteOrderMark ++ body) =
        byteOrderMark ++ inserted (pastOf 0 before) aside body := by
      rw [inserted, List.take_length_add_append, List.drop_length_add_append, inserted]
      simp
    rw [start, moved]
    exact eventsOnto_inserted (Prod.ext place rfl) writes

theorem element?_of_isAside (aside : event.isAside = true) : event.element? = none := by
  cases event with
  | comment | instruction | declaration | doctype => rfl
  | opening | empty | closing | text | cdata => cases aside

theorem oneElement_aside_iff (aside : event.isAside = true) (first rest : List Event) :
    OneElement (first ++ event :: rest) ↔ OneElement (first ++ rest) := by
  have parts : (first ++ event :: rest).filter (!·.isAside) = (first ++ rest).filter (!·.isAside) := by
    simp [aside]
  have all : (∀ other ∈ first ++ event :: rest, other.Sound) ↔ ∀ other ∈ first ++ rest, other.Sound := by
    simp only [List.forall_mem_append, List.forall_mem_cons, sound_of_isAside aside, true_and]
  constructor
  · rintro ⟨sound, element⟩
    exact ⟨all.1 sound, parts ▸ element⟩
  · rintro ⟨sound, element⟩
    exact ⟨all.2 sound, parts ▸ element⟩

theorem exists_element?_aside_iff (aside : event.isAside = true) (first rest : List Event) (n : String) :
    (∃ other ∈ first ++ event :: rest, other.element? = some n) ↔ ∃ other ∈ first ++ rest, other.element? = some n := by
  simp only [List.mem_append, List.mem_cons, or_and_right, exists_or, exists_eq_left, element?_of_isAside aside,
    reduceCtorEq, false_or]

/-- A declaration, a document type declaration, a comment or an instruction may stand between any two constructs of a
layout, in front of them and behind them: the layout is accepted with it as it is without it, with the same names.  This
is so where the prolog does not allow it, too. -/
theorem dottedNames_inserted {document : List UInt8} (place : (eventsOf document).1 = before ++ after)
    (writes : WritesAside event aside) :
    eventsIn (inserted (markLength document + pastOf 0 before) aside document) =
        before.map Located.event ++ event :: after.map Located.event ∧
      (∀ names, dottedNames (inserted (markLength document + pastOf 0 before) aside document) = .ok names ↔
        dottedNames document = .ok names) ∧
      (event = .declaration ∧ before ≠ [] ∨
          event = .doctype ∧ (∃ found ∈ before, found.event.isAside = false ∨ found.event = .doctype) →
        ¬ PrologKept (eventsIn (inserted (markLength document + pastOf 0 before) aside document))) := by
  obtain ⟨events, unbroken⟩ := eventsOf_inserted place writes
  have split : eventsIn document = before.map Located.event ++ after.map Located.event := by
    rw [eventsIn, place, List.map_append]
  refine ⟨events, fun names => ?_, ?_⟩
  · simp only [dottedNames_eq_ok_iff, unbroken, events, split, oneElement_aside_iff writes.1,
      exists_element?_aside_iff writes.1]
  · rw [events]
    rintro (⟨rfl, some⟩ | ⟨rfl, found, mem, late⟩)
    · exact not_prologKept_declaration (List.map_eq_nil_iff.not.2 some) _
    · exact not_prologKept_doctype ⟨found.event, List.mem_map_of_mem mem, late⟩ _

example : inserted (markLength markedLayout + pastOf 0 ((eventsOf markedLayout).1.take 2)) (asciiText "!DOCTYPE a>")
    markedLayout = byteOrderMark ++ asciiText "<a>x<!DOCTYPE a><b.c/></a> " := by
  decide +kernel

/-- A document type declaration in the root element of a layout, behind a text. -/
theorem dottedNames_inserted_doctype :
    (eventsOf markedLayout).1 = (eventsOf markedLayout).1.take 2 ++ (eventsOf markedLayout).1.drop 2 ∧
      WritesAside .doctype (asciiText "!DOCTYPE a>") ∧
      dottedNames (inserted (markLength markedLayout + pastOf 0 ((eventsOf markedLayout).1.take 2))
        (asciiText "!DOCTYPE a>") markedLayout) = .ok (NameSet.ofList ["b.c"]) ∧
      ¬ PrologKept (eventsIn (inserted (markLength markedLayout + pastOf 0 ((eventsOf markedLayout).1.take 2))
        (asciiText "!DOCTYPE a>") markedLayout)) := by
  have accepted : dottedNames markedLayout = .ok (NameSet.ofList ["b.c"]) := by decide +kernel
  have place := (List.take_append_drop 2 (eventsOf markedLayout).1).symm
  have writes : WritesAside .doctype (asciiText "!DOCTYPE a>") := ⟨rfl, ⟨.doctype, 0, 12⟩, by rfl, rfl⟩
  have late : ∃ found ∈ (eventsOf markedLayout).1.take 2, found.event.isAside = false ∨ found.event = .doctype := by
    have part : ((eventsOf markedLayout).1.take 2).any (!·.event.isAside) = true := by decide +kernel
    obtain ⟨found, mem, part⟩ := List.any_eq_true.1 part
    exact ⟨found, mem, .inl (by simpa using part)⟩
  obtain ⟨-, same, broken⟩ := dottedNames_inserted place writes
  exact ⟨place, writes, (same _).2 accepted, broken (.inr ⟨rfl, late⟩)⟩

def doctypeBehind : List UInt8 :=
  asciiText "<a/><!DOCTYPE a>"

def declarationInside : List UInt8 :=
  asciiText "<a><?xml version='1.0'?></a>"

def doctypeTwice : List UInt8 :=
  asciiText "<!DOCTYPE a><!DOCTYPE a><a/>"

/-- A document type may be declared behind the root element or twice, and a declaration may stand in the root
element. -/
theorem dottedNames_misplaced :
    (dottedNames doctypeBehind = .ok ∅ ∧ ¬ PrologKept (eventsIn doctypeBehind)) ∧
      (dottedNames declarationInside = .ok ∅ ∧ ¬ PrologKept (eventsIn declarationInside)) ∧
      dottedNames doctypeTwice = .ok ∅ ∧ ¬ PrologKept (eventsIn doctypeTwice) := by
  have behind : eventsIn doctypeBehind = [.empty (asciiText "a")] ++ [.doctype] := by decide +kernel
  have inside : eventsIn declarationInside =
      [.opening (asciiText "a")] ++ [.declaration, .closing (asciiText "a")] := by
    decide +kernel
  have twice : eventsIn doctypeTwice = [.doctype] ++ [.doctype, .empty (asciiText "a")] := by decide +kernel
  refine ⟨⟨by decide +kernel, ?_⟩, ⟨by decide +kernel, ?_⟩, by decide +kernel, ?_⟩
  · rw [behind]
    exact not_prologKept_doctype ⟨_, List.mem_singleton_self _, .inl rfl⟩ _
  · rw [inside]
    exact not_prologKept_declaration (List.cons_ne_nil _ _) _
  · rw [twice]
    exact not_prologKept_doctype ⟨_, List.mem_singleton_self _, .inr rfl⟩ _

end ClassCensus.Layout
