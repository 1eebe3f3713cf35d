import ClassCensus.Layout.Outline
import ClassCensus.Proofs.Outcome
import ClassCensus.Proofs.Text.Utf8

/-!
# Steps of an outline

`Outline.Steps` lists what one event can do to an outline, and under which conditions; `Outline.step` succeeds exactly
in these cases (`Outline.step_eq_ok_iff`).

* (root) an element may start in another one, or as the root if none has been seen (`Outline.MayStart`); a document
  ends exactly where no element may start (`Outline.finish_eq_ok_iff`).
-/

namespace ClassCensus.Layout

open Text.Utf8 (encode)

/-- The event has no part in the structure of elements and in their content. -/
def Event.isAside : Event → Bool
  | .comment | .instruction | .declaration | .doctype => true
  | .opening _ | .empty _ | .closing _ | .text _ | .cdata => false

namespace Outline

variable {outline after : Outline}

/-- The outline after elements with the given names, with the same elements open as before. -/
def adding (outline : Outline) (names : List String) : Outline :=
  ⟨outline.opened, true, (names.filter isDotted).reverse ++ outline.dotted⟩

theorem adding_nil (seen : outline.rootSeen = true) : outline.adding [] = outline := by
  obtain ⟨opened, rootSeen, dotted⟩ := outline
  obtain rfl : rootSeen = true := seen
  rfl

theorem adding_adding (first second : List String) :
    (outline.adding first).adding second = outline.adding (first ++ second) := by
  simp [adding]

/-- The outline in the element with the given name. -/
def entering (outline : Outline) (name : String) : Outline :=
  { outline.adding [name] with opened := name :: outline.opened }

/-- An element may start here: it is in another one, or it is the root. -/
def MayStart (outline : Outline) : Prop :=
  outline.opened = [] → outline.rootSeen = false

/-! ### Steps -/

/-- What an event does to an outline. -/
inductive Steps (outline : Outline) : Event → Outline → Prop
  | opening {content : List UInt8} {name : String} (start : outline.MayStart) (checked : checkTag content = .ok name) :
      outline.Steps (.opening content) (outline.entering name)
  | empty {content : List UInt8} {name : String} (start : outline.MayStart) (checked : checkTag content = .ok name) :
      outline.Steps (.empty content) (outline.adding [name])
  | closing {name : String} {opened : List String} (innermost : outline.opened = name :: opened) :
      outline.Steps (.closing (encode name.toList)) { outline with opened }
  | text {bytes : List UInt8} {text : String} (inside : outline.opened ≠ []) (read : unescape bytes = .ok text) :
      outline.Steps (.text bytes) outline
  | cdata (inside : outline.opened ≠ []) : outline.Steps .cdata outline
  | aside {event : Event} (aside : event.isAside = true) : outline.Steps event outline

theorem element_eq_ok_iff {content : List UInt8} {past : Nat} {name : String} :
    outline.element content past = .ok (name, after) ↔
      outline.MayStart ∧ checkTag content = .ok name ∧ after = outline.adding [name] := by
  have start : ¬ (outline.opened.isEmpty && outline.rootSeen) = true ↔ outline.MayStart := by
    simp [MayStart, List.isEmpty_iff]
  have added (name : String) : (if isDotted name then name :: outline.dotted else outline.dotted) =
      ([name].filter isDotted).reverse ++ outline.dotted := by
    cases dotted : isDotted name
    all_goals simp [dotted]
  rw [element, Except.refuse_eq_ok_iff, start, Except.bind_eq_ok_iff]
  refine and_congr_right fun _ => ⟨?_, ?_⟩
  · rintro ⟨found, checked, e⟩
    cases e
    exact ⟨checked, by rw [adding, ← added]⟩
  · rintro ⟨checked, rfl⟩
    exact ⟨name, checked, by rw [adding, ← added]; rfl⟩

theorem close_eq_ok_iff {name : List UInt8} {offset : Nat} :
    outline.close name offset = .ok after ↔
      ∃ expected opened, outline.opened = expected :: opened ∧ name = encode expected.toList ∧
        after = { outline with opened } := by
  have found_iff (expected : String) : (Text.Utf8.decode name).toOption = some expected ↔
      name = encode expected.toList := by
    rw [← Text.Utf8.decode_eq_ok_iff]
    cases Text.Utf8.decode name
    all_goals simp [Except.toOption]
  unfold close
  split
  · next none => simp [none]
  · next expected opened some =>
    constructor
    · intro h
      dsimp only at h
      split at h
      · next same =>
        cases h
        exact ⟨expected, opened, some, (found_iff expected).1 same, rfl⟩
      · cases h
    · rintro ⟨expected', opened', e, same, rfl⟩
      cases some.symm.trans e
      exact if_pos ((found_iff expected).2 same)

theorem step_eq_ok_iff {found : Located} : outline.step found = .ok after ↔ outline.Steps found.event after := by
  obtain ⟨event, first, past⟩ := found
  constructor
  · intro h
    cases event with
    | opening content =>
      obtain ⟨⟨name, middle⟩, element, e⟩ := Except.bind_eq_ok_iff.1 h
      obtain ⟨start, checked, rfl⟩ := element_eq_ok_iff.1 element
      cases e
      exact .opening start checked
    | empty content =>
      obtain ⟨⟨name, middle⟩, element, e⟩ := Except.bind_eq_ok_iff.1 h
      obtain ⟨start, checked, rfl⟩ := element_eq_ok_iff.1 element
      cases e
      exact .empty start checked
    | closing name =>
      obtain ⟨expected, opened, innermost, rfl, rfl⟩ := close_eq_ok_iff.1 h
      exact .closing innermost
    | text bytes =>
      rw [step] at h
      obtain ⟨inside, h⟩ := Except.refuse_eq_ok_iff.1 h
      obtain ⟨text, read, e⟩ := Except.bind_eq_ok_iff.1 h
      cases e
      exact .text (by simpa using inside) (Except.mapError_eq_ok_iff.1 read)
    | cdata =>
      simp only [step] at h
      split at h
      · cases h
      · next inside =>
        cases h
        exact .cdata (by simpa using inside)
    | comment | instruction | declaration | doctype =>
      cases h
      exact .aside rfl
  · intro h
    cases h with
    | opening start checked | empty start checked =>
      refine Except.bind_eq_ok_iff.2 ⟨_, element_eq_ok_iff.2 ⟨start, checked, rfl⟩, rfl⟩
    | closing innermost => exact close_eq_ok_iff.2 ⟨_, _, innermost, rfl, rfl⟩
    | text inside read =>
      rw [step]
      refine Except.refuse_eq_ok_iff.2 ⟨by simpa using inside, ?_⟩
      exact Except.bind_eq_ok_iff.2 ⟨_, Except.mapError_eq_ok_iff.2 read, rfl⟩
    | cdata inside => exact if_neg (by simpa using inside)
    | aside aside =>
      cases event with
      | comment | instruction | declaration | doctype => rfl
      | opening | empty | closing | text | cdata => cases aside

/-! ### The end -/

theorem finish_eq_ok_iff {names : List String} :
    outline.finish = .ok names ↔ ¬ outline.MayStart ∧ names = outline.dotted := by
  unfold finish MayStart
  split
  · next some => simp [some]
  · next none =>
    cases outline.rootSeen
    all_goals simp [none, eq_comm]

/-- A document cannot end where an element may start. -/
theorem exists_finish_error (start : outline.MayStart) : ∃ fault, outline.finish = .error fault := by
  cases h : outline.finish with
  | error fault => exact ⟨fault, rfl⟩
  | ok names => exact absurd start (finish_eq_ok_iff.1 h).1

end Outline

end ClassCensus.Layout
