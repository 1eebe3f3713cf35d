import ClassCensus.Proofs.Layout.BalancedEvents
import ClassCensus.Proofs.NameSet

/-!
# Which layouts are accepted

A layout is accepted exactly if its markup has no fault, its events are sound one by one, and those that are no asides
are the events of exactly one element (`dottedNames_eq_ok_iff`).  Where the events stand in the document has no part in
this, only what they are and in which order they come.

* (sound) a tag is sound if its name and the keys of its attributes are names and the values have no fault
  (`checkTag_eq_ok_iff`).
-/

namespace ClassCensus.Layout

open Text.Utf8 (encode)

/-- The events of a document, up to the first fault of its markup. -/
def eventsIn (document : List UInt8) : List Event :=
  (eventsOf document).1.map Located.event

/-- The events are sound, and those that are no asides are the events of exactly one element. -/
structure OneElement (events : List Event) : Prop where
  sound : ∀ event ∈ events, event.Sound
  element : IsElement (events.filter (!·.isAside))

/-! ### Tags -/

theorem checkAttribute_eq_ok_iff {element : String} {found : RawAttribute} :
    checkAttribute element found = .ok () ↔ isName (Text.Utf8.decodeLossy found.key) = true ∧
      ascii '<' ∉ found.value ∧ ∃ text, unescape found.value = .ok text := by
  rw [checkAttribute, Except.refuse_eq_ok_iff, Except.refuse_eq_ok_iff, Except.bind_eq_ok_iff]
  simp [Except.mapError_eq_ok_iff, pure, Except.pure]

/-- The checks of a tag. -/
theorem checkTag_eq_ok_iff {content : List UInt8} {element : String} :
    checkTag content = .ok element ↔ tagName content = encode element.toList ∧ isName element = true ∧
      (∀ found ∈ (tagAttributes content).1, checkAttribute element found = .ok ()) ∧
      (tagAttributes content).2 = none := by
  rw [checkTag, Except.bind_eq_ok_iff]
  simp only [Except.mapError_eq_ok_iff, Text.Utf8.decode_eq_ok_iff]
  constructor
  · rintro ⟨name, bytes, h⟩
    obtain ⟨named, h⟩ := Except.refuse_eq_ok_iff.1 h
    obtain ⟨⟨⟩, checked, h⟩ := Except.bind_eq_ok_iff.1 h
    split at h
    · cases h
    next whole =>
    obtain rfl := Except.ok.inj h
    exact ⟨bytes, by simpa using named, Except.forM_eq_ok_iff.1 checked, whole⟩
  · rintro ⟨bytes, named, checked, whole⟩
    refine ⟨element, bytes, Except.refuse_eq_ok_iff.2 ⟨by simpa using named, ?_⟩⟩
    refine Except.bind_eq_ok_iff.2 ⟨(), Except.forM_eq_ok_iff.2 checked, ?_⟩
    rw [whole]
    rfl

/-! ### Events -/

theorem sound_of_isAside {event : Event} (aside : event.isAside = true) : event.Sound := by
  cases event with
  | comment | instruction | declaration | doctype => trivial
  | opening | empty | closing | text | cdata => cases aside

namespace Outline

variable {outline after : Outline}

theorem Steps.sound {event : Event} (step : outline.Steps event after) : event.Sound := by
  cases step with
  | opening _ checked | empty _ checked => exact ⟨_, checked⟩
  | text _ read => exact ⟨_, read⟩
  | closing | cdata => trivial
  | aside aside => exact sound_of_isAside aside

/-- All events that are read are sound. -/
theorem sound_of_events {events : List Located} (read : events.foldlM step outline = .ok after) :
    ∀ found ∈ events, found.event.Sound := by
  induction events generalizing outline with
  | nil => simp
  | cons found events ih =>
    rw [List.foldlM_cons] at read
    obtain ⟨middle, first, read⟩ := Except.bind_eq_ok_iff.1 read
    exact List.forall_mem_cons.2 ⟨(step_eq_ok_iff.1 first).sound, ih read⟩

end Outline

/-- The names of a layout are found event by event, and hold if its markup has no fault. -/
theorem dottedNames_eq (document : List UInt8) :
    dottedNames document = Outline.ofEvents (eventsOf document).1 >>= fun outline =>
      match (eventsOf document).2 with
      | some located => .error (.markup located.fault located.offset)
      | none => NameSet.ofList <$> outline.finish := by
  rfl

/-- The accepted layouts and their names. -/
theorem dottedNames_eq_ok_iff {document : List UInt8} {names : NameSet} :
    dottedNames document = .ok names ↔ (eventsOf document).2 = none ∧ OneElement (eventsIn document) ∧
      ∀ n, n ∈ names ↔ Outline.isDotted n = true ∧ ∃ event ∈ eventsIn document, event.element? = some n := by
  have named {after : Outline} (read : Outline.ofEvents (eventsOf document).1 = .ok after) (n : String) :
      n ∈ NameSet.ofList after.dotted ↔
        Outline.isDotted n = true ∧ ∃ event ∈ eventsIn document, event.element? = some n := by
    rw [NameSet.mem_ofList, Outline.mem_dotted_iff read, eventsIn]
    simp [Outline.start]
  have element_iff (sound : ∀ found ∈ (eventsOf document).1, found.event.Sound) :
      Outline.start.Accepts (eventsOf document).1 ↔ OneElement (eventsIn document) := by
    rw [Outline.accepts_iff_isElement sound]
    exact ⟨fun element => ⟨List.forall_mem_map.2 sound, element⟩, fun h => h.element⟩
  constructor
  · intro accepted
    rw [dottedNames_eq] at accepted
    obtain ⟨after, read, rest⟩ := Except.bind_eq_ok_iff.1 accepted
    have sound := Outline.sound_of_events read
    cases fault? : (eventsOf document).2 with
    | some fault =>
      rw [fault?] at rest
      cases rest
    | none =>
      rw [fault?] at rest
      obtain ⟨dotted, finished, rfl⟩ := Except.map_eq_ok_iff.1 rest
      obtain ⟨-, rfl⟩ := Outline.finish_eq_ok_iff.1 finished
      refine ⟨rfl, (element_iff sound).1 ⟨after.dotted, ?_⟩, named read⟩
      exact Except.bind_eq_ok_iff.2 ⟨after, read, finished⟩
  · rintro ⟨unbroken, one, members⟩
    have sound : ∀ found ∈ (eventsOf document).1, found.event.Sound := List.forall_mem_map.1 one.sound
    obtain ⟨dotted, accepted⟩ := (element_iff sound).2 one
    obtain ⟨after, read, finished⟩ := Except.bind_eq_ok_iff.1 accepted
    have same : NameSet.ofList dotted = names := by
      obtain ⟨-, rfl⟩ := Outline.finish_eq_ok_iff.1 finished
      apply Std.ExtTreeSet.ext_mem
      intro n
      rw [named read, members]
    rw [dottedNames_eq]
    refine Except.bind_eq_ok_iff.2 ⟨after, read, ?_⟩
    rw [unbroken]
    exact Except.map_eq_ok_iff.2 ⟨dotted, finished, same⟩

end ClassCensus.Layout
