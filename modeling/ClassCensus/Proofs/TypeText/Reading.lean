import ClassCensus.TypeText.Cursor
import Mathlib.Data.List.Basic
import Mathlib.Data.List.TakeWhile

/-!
# What type parsers accept

`TypeParser.Reads bound parser S` says that on fewer than `bound` characters the parser succeeds exactly if the
characters ahead start with some that spell a value in the sense of `S`, and that it takes these.  Since a name ends
where a stop character follows, what is spelled may depend on the characters behind.

* (rules) there is one rule for each way to build a parser; `Reads.ifNext` looks one character ahead, `reads_identifier`
  reads a name, `Reads.repeatWhile` repeats;
* (texts) a parser that reads `S` accepts as a whole exactly the texts that are spelled with nothing behind
  (`parse_eq_ok_iff`).
-/

namespace ClassCensus

/-- Which characters, in front of which others, spell which values. -/
abbrev Phrase (α : Type) := List Char → List Char → α → Prop

/-- The name has a character and no stop character. -/
structure IsIdentifier (isStop : Char → Bool) (name : String) : Prop where
  ne_empty : name ≠ ""
  noStop : ∀ c ∈ name.toList, isStop c = false

instance (isStop : Char → Bool) (name : String) : Decidable (IsIdentifier isStop name) :=
  decidable_of_iff (name ≠ "" ∧ name.toList.all (fun c => !isStop c) = true)
    ⟨fun h => ⟨h.1, by simpa using h.2⟩, fun h => ⟨h.ne_empty, by simpa using h.noStop⟩⟩

namespace TypeParser

variable {α β : Type} {bound : Nat}

/-- On fewer than `bound` characters the parser takes exactly the characters that spell its value. -/
def Reads (bound : Nat) (parser : TypeParser α) (S : Phrase α) : Prop :=
  ∀ cursor a rest, cursor.rest.length < bound →
    ((∃ position, parser cursor = .ok a ⟨position, rest⟩) ↔ ∃ taken, cursor.rest = taken ++ rest ∧ S taken rest a)

theorem Reads.congr {parser : TypeParser α} {S T : Phrase α} (h : Reads bound parser S)
    (e : ∀ taken rest a, S taken rest a ↔ T taken rest a) : Reads bound parser T := by
  intro cursor a rest few
  simp only [h cursor a rest few, e]

/-- The characters ahead decide what is read and what is left. -/
theorem Reads.unique {parser : Nat → TypeParser α} {S : Phrase α} (h : ∀ bound, Reads bound (parser bound) S)
    {taken taken' rest rest' : List Char} {a a' : α} (hs : S taken rest a) (hs' : S taken' rest' a')
    (same : taken ++ rest = taken' ++ rest') : a = a' ∧ rest = rest' := by
  have few := Nat.lt_succ_self (taken ++ rest).length
  obtain ⟨position, first⟩ := (h _ ⟨0, taken ++ rest⟩ a rest few).2 ⟨taken, rfl, hs⟩
  obtain ⟨position', second⟩ := (h _ ⟨0, taken ++ rest⟩ a' rest' few).2 ⟨taken', same, hs'⟩
  cases first.symm.trans second
  exact ⟨rfl, rfl⟩

/-! ### Sequences -/

theorem bind_eq_ok_iff {parser : TypeParser α} {f : α → TypeParser β} {cursor after : TypeCursor} {b : β} :
    (parser >>= f) cursor = .ok b after ↔ ∃ a middle, parser cursor = .ok a middle ∧ f a middle = .ok b after := by
  simp only [Bind.bind, EStateM.bind]
  cases parser cursor with
  | ok a middle => simp
  | error e middle => simp

theorem Reads.pure (a : α) : Reads bound (Pure.pure a) fun taken _ x => taken = [] ∧ x = a := by
  intro cursor x rest _
  show (∃ position, EStateM.Result.ok a cursor = .ok x ⟨position, rest⟩) ↔ _
  constructor
  · intro h
    obtain ⟨_, h⟩ := h
    cases h
    exact ⟨[], rfl, rfl, rfl⟩
  · intro h
    obtain ⟨_, h, rfl, rfl⟩ := h
    exact ⟨cursor.position, by rw [show rest = cursor.rest from h.symm]⟩

theorem Reads.throw (e : TypeFault) : Reads bound (MonadExcept.throw e : TypeParser α) fun _ _ _ => False := by
  intro cursor x rest _
  show (∃ position, EStateM.Result.error e cursor = .ok x ⟨position, rest⟩) ↔ _
  simp

theorem Reads.throw_bind (e : TypeFault) (f : α → TypeParser β) :
    Reads bound (MonadExcept.throw e >>= f) fun _ _ _ => False := by
  intro cursor x rest _
  show (∃ position, EStateM.Result.error e cursor = .ok x ⟨position, rest⟩) ↔ _
  simp

/-- One reading after another; what the second takes stands behind what the first takes. -/
theorem Reads.bind {parser : TypeParser α} {f : α → TypeParser β} {S : Phrase α} {T : α → Phrase β}
    (h : Reads bound parser S) (h' : ∀ a, Reads bound (f a) (T a)) :
    Reads bound (parser >>= f) fun taken rest b =>
      ∃ a left right, taken = left ++ right ∧ S left (right ++ rest) a ∧ T a right rest b := by
  intro cursor b rest few
  have fewer {left middle : List Char} (e : cursor.rest = left ++ middle) : middle.length < bound := by
    rw [e, List.length_append] at few
    omega
  constructor
  · intro hx
    obtain ⟨_, hx⟩ := hx
    obtain ⟨a, ⟨p, middle⟩, first, second⟩ := bind_eq_ok_iff.1 hx
    obtain ⟨left, e, hs⟩ := (h _ _ _ few).1 ⟨_, first⟩
    obtain ⟨right, rfl, ht⟩ := (h' _ _ _ _ (fewer e)).1 ⟨_, second⟩
    exact ⟨left ++ right, by rw [e, List.append_assoc], a, left, right, rfl, hs, ht⟩
  · intro hx
    obtain ⟨_, e, a, left, right, rfl, hs, ht⟩ := hx
    rw [List.append_assoc] at e
    obtain ⟨p, first⟩ := (h cursor a (right ++ rest) few).2 ⟨left, e, hs⟩
    obtain ⟨q, second⟩ := (h' a ⟨p, right ++ rest⟩ b rest (fewer e)).2 ⟨right, rfl, ht⟩
    exact ⟨q, bind_eq_ok_iff.2 ⟨a, _, first, second⟩⟩

theorem Reads.map {parser : TypeParser α} {S : Phrase α} (f : α → β) (h : Reads bound parser S) :
    Reads bound (do return f (← parser)) fun taken rest b => ∃ a, S taken rest a ∧ b = f a := by
  refine (h.bind fun a => Reads.pure (f a)).congr fun taken rest b => ?_
  constructor
  · intro hx
    obtain ⟨a, left, _, rfl, hs, rfl, rfl⟩ := hx
    exact ⟨a, by simpa using hs, rfl⟩
  · intro hx
    obtain ⟨a, hs, rfl⟩ := hx
    exact ⟨a, taken, [], by simp, by simpa using hs, rfl, rfl⟩

/-! ### One character -/

/-- Looking ahead takes nothing and decides how to go on. -/
theorem Reads.choose {f : Option Char → TypeParser β} {S : Phrase β}
    (h : ∀ next, ∃ T, Reads bound (f next) T ∧
      ∀ taken rest b, (taken ++ rest).head? = next → (T taken rest b ↔ S taken rest b)) :
    Reads bound (peek >>= f) S := by
  intro cursor b rest few
  obtain ⟨T, reads, e⟩ := h cursor.rest.head?
  have ahead : (peek >>= f) cursor = f cursor.rest.head? cursor := rfl
  rw [ahead, reads _ _ _ few]
  refine exists_congr fun taken => and_congr_right fun split => e taken rest b ?_
  rw [split]

/-- Passing over the next character, if there is one. -/
theorem Reads.advance {parser : TypeParser α} {S : Phrase α} (h : Reads bound parser S) :
    Reads bound (TypeParser.advance >>= fun _ => parser) fun taken rest a =>
      (∃ c behind, taken = c :: behind ∧ S behind rest a) ∨ taken ++ rest = [] ∧ S [] rest a := by
  intro cursor a rest few
  obtain ⟨position, _ | ⟨c, ahead⟩⟩ := cursor
  · have same : (TypeParser.advance >>= fun _ => parser) ⟨position, []⟩ = parser ⟨position, []⟩ := rfl
    rw [same, h _ _ _ few]
    constructor
    · intro hx
      obtain ⟨taken, e, hs⟩ := hx
      obtain ⟨rfl, rfl⟩ := List.append_eq_nil_iff.1 e.symm
      exact ⟨[], rfl, .inr ⟨rfl, hs⟩⟩
    · intro hx
      obtain ⟨taken, e, ⟨c, behind, rfl, -⟩ | ⟨-, hs⟩⟩ := hx
      · cases e
      · obtain ⟨rfl, rfl⟩ := List.append_eq_nil_iff.1 e.symm
        exact ⟨[], rfl, hs⟩
  · have passed : (TypeParser.advance >>= fun _ => parser) ⟨position, c :: ahead⟩ =
        parser ⟨position + c.utf8Size, ahead⟩ := rfl
    rw [passed, h _ _ _ (Nat.lt_of_succ_lt few)]
    constructor
    · intro hx
      obtain ⟨behind, rfl, hs⟩ := hx
      exact ⟨c :: behind, rfl, .inl ⟨c, behind, rfl, hs⟩⟩
    · intro hx
      obtain ⟨_, e, ⟨_, behind, rfl, hs⟩ | ⟨none, -⟩⟩ := hx
      · obtain ⟨rfl, rfl⟩ := List.cons.inj e
        exact ⟨behind, rfl, hs⟩
      · rw [none] at e
        cases e

/-- The character that is passed over is the one ahead. -/
theorem advance_iff {P : List Char → Prop} {Q : Prop} {c : Char} {taken rest : List Char}
    (ahead : (taken ++ rest).head? = some c) :
    ((∃ c' behind, taken = c' :: behind ∧ P behind) ∨ taken ++ rest = [] ∧ Q) ↔
      ∃ behind, taken = c :: behind ∧ P behind := by
  constructor
  · intro h
    obtain ⟨c', behind, rfl, hp⟩ | ⟨none, -⟩ := h
    · obtain rfl := Option.some.inj ahead
      exact ⟨behind, rfl, hp⟩
    · rw [none] at ahead
      cases ahead
  · intro h
    obtain ⟨behind, rfl, hp⟩ := h
    exact .inl ⟨c, behind, rfl, hp⟩

/-- Going one way behind the character `c` and another way before any other. -/
theorem Reads.ifNext {parser other : TypeParser α} {S T : Phrase α} (c : Char) (h : Reads bound parser S)
    (h' : Reads bound other T) :
    Reads bound
      (do
        if (← peek) = some c then
          TypeParser.advance
          parser
        else other) fun taken rest a =>
      (∃ behind, taken = c :: behind ∧ S behind rest a) ∨ (taken ++ rest).head? ≠ some c ∧ T taken rest a := by
  refine Reads.choose fun next => ?_
  by_cases e : next = some c
  · rw [if_pos e]
    refine ⟨_, h.advance, fun taken rest a ahead => ?_⟩
    rw [advance_iff (ahead.trans e)]
    exact (or_iff_left fun other => other.1 (ahead.trans e)).symm
  · rw [if_neg e]
    refine ⟨_, h', fun taken rest a ahead => ?_⟩
    rw [ahead, and_iff_right e, or_iff_right]
    rintro ⟨behind, rfl, -⟩
    exact e ahead.symm

/-! ### Names -/

theorem reads_identifier (isStop : Char → Bool) : Reads bound (identifier isStop) fun taken rest name =>
    taken = name.toList ∧ IsIdentifier isStop name ∧ ∃ c, rest.head? = some c ∧ isStop c = true := by
  intro cursor name rest _
  obtain ⟨position, ahead⟩ := cursor
  simp only [identifier]
  constructor
  · intro hx
    obtain ⟨_, h⟩ := hx
    split at h
    · cases h
    next given =>
      cases h
      simp only [Bool.or_eq_true, List.isEmpty_iff, not_or] at given
      refine ⟨_, (List.takeWhile_append_dropWhile).symm, String.toList_ofList.symm, ⟨?_, ?_⟩, ?_⟩
      · rw [Ne, String.ofList_eq_empty_iff]
        exact given.1
      · rw [String.toList_ofList]
        intro c mem
        simpa using List.mem_takeWhile_imp mem
      · have stop := List.head_dropWhile_not (fun c => !isStop c) given.2
        exact ⟨_, List.head?_eq_some_head given.2, by simpa using stop⟩
  · intro hx
    obtain ⟨_, rfl, rfl, ⟨given, noStop⟩, c, stops, stop⟩ := hx
    obtain ⟨behind, rfl⟩ : ∃ behind, rest = c :: behind := by
      cases rest with
      | nil => cases stops
      | cons c' behind => exact ⟨behind, by rw [Option.some.inj stops]⟩
    have pass : ∀ c ∈ name.toList, (!isStop c) = true := by simpa using noStop
    rw [List.takeWhile_append_of_pos pass, List.dropWhile_append_of_pos pass,
      List.takeWhile_cons_of_neg (by simp [stop]), List.dropWhile_cons_of_neg (by simp [stop]), List.append_nil,
      String.ofList_toList]
    refine ⟨position + name.utf8ByteSize, if_neg ?_⟩
    simpa using given

/-- A name up to the character `stop`, which is passed over. -/
theorem Reads.name (stop : Char) (f : String → β) :
    Reads bound (do
        let name ← identifier (· = stop)
        TypeParser.advance
        return f name) fun taken _ b =>
      ∃ name, taken = name.toList ++ [stop] ∧ IsIdentifier (· = stop) name ∧ b = f name := by
  refine ((reads_identifier (· = stop)).bind fun name => (Reads.pure (f name)).advance).congr fun taken rest b => ?_
  constructor
  · intro h
    obtain ⟨name, _, right, rfl, ⟨rfl, legal, c, ahead, stops⟩, passed⟩ := h
    obtain rfl : c = stop := by simpa using stops
    obtain ⟨_, rfl, rfl, rfl⟩ := (advance_iff ahead).1 passed
    exact ⟨name, rfl, legal, rfl⟩
  · intro h
    obtain ⟨name, rfl, legal, rfl⟩ := h
    exact ⟨name, name.toList, [stop], rfl, ⟨rfl, legal, stop, rfl, by simp⟩, .inl ⟨stop, [], rfl, rfl, rfl⟩⟩

/-! ### Repetition -/

/-- Characters that spell values one after the other, as long as `more` holds of the next character. -/
def Repeated (more : Option Char → Bool) (S : Phrase α) : Phrase (List α) := fun taken rest as =>
  match as with
  | [] => taken = [] ∧ more rest.head? = false
  | a :: as => more (taken ++ rest).head? = true ∧
    ∃ left right, taken = left ++ right ∧ S left (right ++ rest) a ∧ Repeated more S right rest as

/-- Values that each take a character are read as long as there are more. -/
theorem Reads.repeatWhile {more : Option Char → Bool} {item : TypeParser α} {S : Phrase α} (h : Reads bound item S)
    (nonempty : ∀ taken rest a, S taken rest a → taken ≠ []) :
    Reads bound (repeatWhile bound more item) (Repeated more S) := by
  have shorter {left middle ahead : List Char} (given : left ≠ []) (e : ahead = left ++ middle) :
      middle.length < ahead.length := by
    have := List.length_pos_iff.2 given
    rw [e, List.length_append]
    omega
  -- the values read so far and the steps left change, so the induction is for all of them
  have onto (steps : Nat) (read : List α) (cursor : TypeCursor) (as : List α) (rest : List Char)
      (few : cursor.rest.length < bound) (enough : cursor.rest.length < steps) :
      (∃ position, repeatOnto more item read steps cursor = .ok as ⟨position, rest⟩) ↔
        ∃ taken later, cursor.rest = taken ++ rest ∧ Repeated more S taken rest later ∧ as = read.reverse ++ later := by
    induction steps generalizing read cursor with
    | zero => omega
    | succ steps ih =>
      have step : repeatOnto more item read (steps + 1) cursor =
          if more cursor.rest.head? then (item >>= fun a => repeatOnto more item (a :: read) steps) cursor
          else .ok read.reverse cursor := by
        rw [repeatOnto]
        show (if more cursor.rest.head? then item >>= fun a => repeatOnto more item (a :: read) steps
          else Pure.pure read.reverse : TypeParser (List α)) cursor = _
        split <;> rfl
      rw [step]
      constructor
      · intro hx
        obtain ⟨_, hx⟩ := hx
        by_cases goes : more cursor.rest.head? = true
        · rw [if_pos goes] at hx
          obtain ⟨a, ⟨p, middle⟩, first, others⟩ := bind_eq_ok_iff.1 hx
          obtain ⟨left, e, hs⟩ := (h cursor a middle few).1 ⟨_, first⟩
          have fewer := shorter (nonempty _ _ _ hs) e
          obtain ⟨right, later, rfl, repeated, rfl⟩ :=
            (ih (a :: read) ⟨p, middle⟩ (fewer.trans few) (by show middle.length < steps; omega)).1 ⟨_, others⟩
          refine ⟨left ++ right, a :: later, by rw [e, List.append_assoc], ⟨?_, left, right, rfl, hs, repeated⟩, ?_⟩
          · rwa [List.append_assoc, ← e]
          · rw [List.reverse_cons, List.append_assoc, List.singleton_append]
        · rw [if_neg goes] at hx
          cases hx
          exact ⟨[], [], rfl, ⟨rfl, by simpa using goes⟩, (List.append_nil _).symm⟩
      · intro hx
        obtain ⟨taken, later, e, repeated, rfl⟩ := hx
        cases later with
        | nil =>
          obtain ⟨rfl, stops⟩ := repeated
          obtain rfl : cursor.rest = rest := e
          rw [if_neg (by simp [stops]), List.append_nil]
          exact ⟨cursor.position, rfl⟩
        | cons a later =>
          obtain ⟨goes, left, right, rfl, hs, repeated⟩ := repeated
          rw [← e] at goes
          rw [List.append_assoc] at e
          have fewer := shorter (nonempty _ _ _ hs) e
          obtain ⟨p, first⟩ := (h cursor a (right ++ rest) few).2 ⟨left, e, hs⟩
          obtain ⟨q, others⟩ := (ih (a :: read) ⟨p, right ++ rest⟩ (fewer.trans few)
            (by show (right ++ rest).length < steps; omega)).2 ⟨right, later, rfl, repeated, by simp⟩
          exact ⟨q, by rw [if_pos goes, bind_eq_ok_iff.2 ⟨a, _, first, others⟩]⟩
  intro cursor as rest few
  rw [TypeParser.repeatWhile, onto bound [] cursor as rest few few]
  refine exists_congr fun taken => ?_
  simp

/-- Values with a spelling of their own, each of which shows in its first character that there is one more, spelled one
after the other; `Q` is what the spelling of the last needs behind it. -/
theorem repeated_iff {more : Option Char → Bool} {S : Phrase α} (spell : α → List Char) (Legal : α → Prop)
    (Q : List Char → Prop)
    (hS : ∀ taken rest a, Q rest → more (taken ++ rest).head? = true → (S taken rest a ↔ taken = spell a ∧ Legal a))
    (starts : ∀ a rest, Legal a → more (spell a ++ rest).head? = true)
    (before : ∀ a rest, Legal a → Q (spell a ++ rest))
    {taken rest : List Char} {as : List α} (behind : Q rest) :
    Repeated more S taken rest as ↔
      taken = as.flatMap spell ∧ (∀ a ∈ as, Legal a) ∧ more rest.head? = false := by
  induction as generalizing taken with
  | nil => simp [Repeated]
  | cons a as ih =>
    have next {right : List Char} (h : right = as.flatMap spell ∧ (∀ a ∈ as, Legal a) ∧ more rest.head? = false) :
        Q (right ++ rest) := by
      obtain ⟨rfl, legal, -⟩ := h
      cases as with
      | nil => exact behind
      | cons b bs =>
        rw [List.flatMap_cons, List.append_assoc]
        exact before b _ (legal b List.mem_cons_self)
    rw [Repeated, List.flatMap_cons, List.forall_mem_cons]
    constructor
    · intro h
      obtain ⟨goes, left, right, rfl, hs, repeated⟩ := h
      rw [List.append_assoc] at goes
      have others := ih.1 repeated
      obtain ⟨rfl, legal⟩ := (hS _ _ _ (next others) goes).1 hs
      exact ⟨by rw [others.1], ⟨legal, others.2.1⟩, others.2.2⟩
    · intro h
      obtain ⟨rfl, ⟨legal, others⟩, stops⟩ := h
      have others : as.flatMap spell = as.flatMap spell ∧ (∀ a ∈ as, Legal a) ∧ more rest.head? = false :=
        ⟨rfl, others, stops⟩
      have goes := starts a (as.flatMap spell ++ rest) legal
      refine ⟨?_, spell a, as.flatMap spell, rfl, (hS _ _ _ (next others) goes).2 ⟨rfl, legal⟩, ih.2 others⟩
      rwa [List.append_assoc]

/-! ### Texts -/

private theorem finish_eq_ok_iff {cursor after : TypeCursor} {a b : α} :
    (finish >>= fun _ => Pure.pure a : TypeParser α) cursor = .ok b after ↔
      cursor.rest = [] ∧ a = b ∧ cursor = after := by
  obtain ⟨position, _ | ⟨c, rest⟩⟩ := cursor
  · have done : (finish >>= fun _ => Pure.pure a : TypeParser α) ⟨position, []⟩ = .ok a ⟨position, []⟩ := rfl
    simp [done]
  · have fails : (finish >>= fun _ => Pure.pure a : TypeParser α) ⟨position, c :: rest⟩ =
        .error .trailingCharacters ⟨position, c :: rest⟩ := rfl
    simp [fails]

theorem parse_eq_ok_iff {parser : Nat → TypeParser α} {S : Phrase α} (h : ∀ bound, Reads bound (parser bound) S)
    {text : String} {a : α} : parse parser text = .ok a ↔ S text.toList [] a := by
  have whole : parse parser text = .ok a ↔ ∃ after,
      (parser (text.toList.length + 1) >>= fun a => finish >>= fun _ => Pure.pure a : TypeParser α) ⟨0, text.toList⟩ =
        .ok a after := by
    unfold parse
    dsimp only
    split
    · next e =>
      rw [e]
      simp
    · next e =>
      rw [e]
      simp
  rw [whole]
  constructor
  · intro hx
    obtain ⟨_, hx⟩ := hx
    obtain ⟨_, ⟨position, _⟩, read, hx⟩ := bind_eq_ok_iff.1 hx
    obtain ⟨rfl, rfl, rfl⟩ := finish_eq_ok_iff.1 hx
    obtain ⟨taken, e, hs⟩ := (h _ ⟨0, text.toList⟩ _ [] (Nat.lt_succ_self _)).1 ⟨position, read⟩
    rw [List.append_nil] at e
    rwa [← e] at hs
  · intro hs
    obtain ⟨position, read⟩ := (h _ ⟨0, text.toList⟩ a [] (Nat.lt_succ_self _)).2 ⟨_, (List.append_nil _).symm, hs⟩
    exact ⟨_, bind_eq_ok_iff.2 ⟨a, _, read, finish_eq_ok_iff.2 ⟨rfl, rfl, rfl⟩⟩⟩

/-- A text that is not accepted is refused with a fault at a position of it. -/
theorem parse_eq_error_iff {parser : Nat → TypeParser α} {text : String} :
    (∃ fault position, parse parser text = .error (.typeText fault position text)) ↔
      ¬ ∃ a, parse parser text = .ok a := by
  unfold parse
  dsimp only
  split <;> simp

end TypeParser

end ClassCensus
