import ClassCensus.Proofs.Layout.OutlineStep

/-!
# Events of exactly one element

`IsElement` and `IsContent` are a grammar of events: an element is the tag of an empty element, or a start tag and the
end tag with the same name with elements, text and sections of character data between them.  Events that are sound one
by one are accepted exactly if those that are no asides are one element (`ofEvents_balanced`).

* (rest) while elements stand open, what may follow is the rest of each of them, one after the other (`Closes`); one
  event is read exactly if it starts such rests, and what follows it closes the new state (`Outline.closes_of_steps`,
  `Outline.exists_steps_of_closes`);
* (machine) so a run of the machine from any state in an element accepts the rests of the elements that stand open
  (`Outline.accepts_iff_closes`).
-/

namespace ClassCensus.Layout

open Text.Utf8 (encode)

mutual

/-- The events are those of exactly one element. -/
inductive IsElement : List Event → Prop
  | empty (content : List UInt8) : IsElement [.empty content]
  | filled (content : List UInt8) {inner : List Event} (between : IsContent inner) :
      IsElement (.opening content :: (inner ++ [.closing (tagName content)]))

/-- The events are elements, text and sections of character data in any order. -/
inductive IsContent : List Event → Prop
  | nil : IsContent []
  | element {first rest : List Event} (element : IsElement first) (others : IsContent rest) : IsContent (first ++ rest)
  | text (bytes : List UInt8) {rest : List Event} (others : IsContent rest) : IsContent (.text bytes :: rest)
  | cdata {rest : List Event} (others : IsContent rest) : IsContent (.cdata :: rest)

end

/-- What the event says passes the checks of its own: the name and the attributes of a tag, the references of a text. -/
def Event.Sound : Event → Prop
  | .opening content | .empty content => ∃ name, checkTag content = .ok name
  | .text bytes => ∃ text, unescape bytes = .ok text
  | .closing _ | .cdata | .comment | .instruction | .declaration | .doctype => True

/-- The name of the element that the event starts. -/
def Event.element? : Event → Option String
  | .opening content | .empty content => (checkTag content).toOption
  | .closing _ | .text _ | .cdata | .comment | .instruction | .declaration | .doctype => none

/-- The events that are no asides. -/
def significant (events : List Located) : List Event :=
  (events.map Located.event).filter (!·.isAside)

theorem significant_nil : significant [] = [] := rfl

theorem significant_aside {found : Located} (aside : found.event.isAside = true) (events : List Located) :
    significant (found :: events) = significant events := by
  simp [significant, aside]

theorem significant_part {found : Located} (part : found.event.isAside = false) (events : List Located) :
    significant (found :: events) = found.event :: significant events := by
  simp [significant, part]

/-! ### Rests of elements -/

/-- The rests of the elements with the given names, the innermost first. -/
inductive Closes : List String → List Event → Prop
  | nil : Closes [] []
  | cons {name : String} {opened : List String} {inner rest : List Event} (between : IsContent inner)
      (others : Closes opened rest) : Closes (name :: opened) (inner ++ .closing (encode name.toList) :: rest)

theorem closes_nil_iff {opened : List String} : Closes opened [] ↔ opened = [] := by
  constructor
  · intro h
    generalize none : [] = events at h
    cases h with
    | nil => rfl
    | cons => simp at none
  · rintro rfl
    exact .nil

theorem closes_singleton_iff {name : String} {events : List Event} :
    Closes [name] events ↔ ∃ inner, IsContent inner ∧ events = inner ++ [.closing (encode name.toList)] := by
  constructor
  · intro h
    cases h with
    | cons between others =>
      cases others with
      | nil => exact ⟨_, between, rfl⟩
  · rintro ⟨inner, between, rfl⟩
    exact .cons between .nil

theorem eq_nil_of_closes {events : List Event} (h : Closes [] events) : events = [] := by
  cases h with
  | nil => rfl

/-- The name of a tag that passes the checks, as it stands there. -/
theorem tagName_of_checkTag {content : List UInt8} {name : String} (h : checkTag content = .ok name) :
    tagName content = encode name.toList := by
  obtain ⟨element, read, h⟩ := Except.bind_eq_ok_iff.1 h
  obtain ⟨-, h⟩ := Except.refuse_eq_ok_iff.1 h
  obtain ⟨_, -, h⟩ := Except.bind_eq_ok_iff.1 h
  split at h
  · cases h
  · cases h
    exact Text.Utf8.decode_eq_ok_iff.1 (Except.mapError_eq_ok_iff.1 read)

namespace Closes

variable {opened : List String} {events : List Event}

/-- A part of the content may stand before the rest of the innermost element. -/
theorem behind (inside : opened ≠ []) {first : List Event}
    (part : ∀ {others : List Event}, IsContent others → IsContent (first ++ others)) (h : Closes opened events) :
    Closes opened (first ++ events) := by
  cases h with
  | nil => exact absurd rfl inside
  | cons between others =>
    rw [← List.append_assoc]
    exact .cons (part between) others

theorem opening (inside : opened ≠ []) {content : List UInt8} {name : String}
    (checked : checkTag content = .ok name) (h : Closes (name :: opened) events) :
    Closes opened (.opening content :: events) := by
  cases h with
  | cons between others =>
    rw [← tagName_of_checkTag checked]
    simpa using others.behind inside (.element (.filled content between))

end Closes

namespace Outline

variable {outline after : Outline}

/-- In an element, what follows an event that has been read is what follows in the new state. -/
theorem closes_of_steps (seen : outline.rootSeen = true) {event : Event} {events : List Event}
    (part : event.isAside = false) (step : outline.Steps event after) (h : Closes after.opened events) :
    Closes outline.opened (event :: events) := by
  have inside (start : outline.MayStart) : outline.opened ≠ [] :=
    fun none => absurd ((start none).symm.trans seen) Bool.false_ne_true
  cases step with
  | opening start checked => exact h.opening (inside start) checked
  | empty start checked => exact h.behind (inside start) (.element (.empty _))
  | closing innermost =>
    rw [innermost]
    exact .cons .nil h
  | text inside _ => exact @Closes.behind _ _ inside [_] (.text _) h
  | cdata inside => exact @Closes.behind _ _ inside [_] .cdata h
  | aside aside => exact absurd (part.symm.trans aside) Bool.false_ne_true

/-- In an element, an event that may follow is read. -/
theorem exists_steps_of_closes {event : Event} {events : List Event} (sound : event.Sound)
    (h : Closes outline.opened (event :: events)) : ∃ after, outline.Steps event after ∧ Closes after.opened events := by
  generalize innermost : outline.opened = opened at h
  generalize whole : event :: events = all at h
  cases h with
  | nil => cases whole
  | @cons name outer inner rest between others =>
    have inside : outline.opened ≠ [] := by simp [innermost]
    have start : outline.MayStart := fun none => absurd none inside
    cases between with
    | nil =>
      cases whole
      exact ⟨_, .closing innermost, others⟩
    | text bytes between =>
      cases whole
      obtain ⟨text, read⟩ := sound
      exact ⟨outline, .text inside read, innermost ▸ .cons between others⟩
    | cdata between =>
      cases whole
      exact ⟨outline, .cdata inside, innermost ▸ .cons between others⟩
    | element element between =>
      cases element with
      | empty content =>
        cases whole
        obtain ⟨found, checked⟩ := sound
        refine ⟨_, .empty start checked, ?_⟩
        rw [adding, innermost]
        exact .cons between others
      | filled content between' =>
        cases whole
        obtain ⟨found, checked⟩ := sound
        refine ⟨_, .opening start checked, ?_⟩
        rw [entering, innermost, tagName_of_checkTag checked]
        simpa using Closes.cons between' (.cons between others)

/-- The machine reads the events, and the document may end there. -/
def Accepts (outline : Outline) (events : List Located) : Prop :=
  ∃ names, (events.foldlM step outline >>= finish) = .ok names

theorem accepts_nil_iff : outline.Accepts [] ↔ ¬ outline.MayStart := by
  constructor
  · rintro ⟨names, finished⟩
    exact (finish_eq_ok_iff.1 finished).1
  · intro ended
    exact ⟨outline.dotted, finish_eq_ok_iff.2 ⟨ended, rfl⟩⟩

theorem accepts_cons_iff {found : Located} {events : List Located} :
    outline.Accepts (found :: events) ↔ ∃ after, outline.Steps found.event after ∧ after.Accepts events := by
  simp only [Accepts, List.foldlM_cons, bind_assoc, Except.bind_eq_ok_iff, ← step_eq_ok_iff]
  constructor
  · rintro ⟨names, after, step, rest⟩
    exact ⟨after, step, names, rest⟩
  · rintro ⟨after, step, names, rest⟩
    exact ⟨names, after, step, rest⟩

theorem accepts_aside_iff {found : Located} (aside : found.event.isAside = true) {events : List Located} :
    outline.Accepts (found :: events) ↔ outline.Accepts events := by
  have same {after : Outline} : outline.Steps found.event after ↔ after = outline := by
    constructor
    · intro step
      generalize found.event = event at aside step
      cases step with
      | aside => rfl
      | opening | empty | closing | text | cdata => cases aside
    · rintro rfl
      exact .aside aside
  simp [accepts_cons_iff, same]

theorem Steps.rootSeen {event : Event} (step : outline.Steps event after) (seen : outline.rootSeen = true) :
    after.rootSeen = true := by
  cases step with
  | opening | empty => rfl
  | closing | text | cdata | aside => exact seen

/-- After the start of the root, the events are accepted that are the rests of the elements that stand open. -/
theorem accepts_iff_closes (seen : outline.rootSeen = true) {events : List Located}
    (sound : ∀ found ∈ events, found.event.Sound) :
    outline.Accepts events ↔ Closes outline.opened (significant events) := by
  induction events generalizing outline with
  | nil =>
    rw [accepts_nil_iff, significant_nil, closes_nil_iff]
    simp [MayStart, seen]
  | cons found events ih =>
    obtain ⟨first, others⟩ := List.forall_mem_cons.1 sound
    cases part : found.event.isAside with
    | true => rw [accepts_aside_iff part, significant_aside part, ih seen others]
    | false =>
      rw [accepts_cons_iff, significant_part part]
      constructor
      · rintro ⟨after, step, rest⟩
        exact closes_of_steps seen part step ((ih (step.rootSeen seen) others).1 rest)
      · intro h
        obtain ⟨after, step, rest⟩ := exists_steps_of_closes first h
        exact ⟨after, step, (ih (step.rootSeen seen) others).2 rest⟩

/-- From the start, the events of exactly one element are accepted. -/
theorem accepts_iff_isElement {events : List Located} (sound : ∀ found ∈ events, found.event.Sound) :
    start.Accepts events ↔ IsElement (significant events) := by
  have fresh : start.MayStart := fun _ => rfl
  induction events with
  | nil =>
    rw [accepts_nil_iff, significant_nil]
    exact iff_of_false (not_not_intro fresh) nofun
  | cons found events ih =>
    obtain ⟨first, others⟩ := List.forall_mem_cons.1 sound
    cases part : found.event.isAside with
    | true =>
      rw [significant_aside part]
      exact (accepts_aside_iff part).trans (ih others)
    | false =>
      rw [accepts_cons_iff, significant_part part]
      generalize found.event = event at first part
      constructor
      · rintro ⟨after, step, rest⟩
        cases step with
        | opening _ checked =>
          obtain ⟨inner, between, e⟩ := closes_singleton_iff.1 ((accepts_iff_closes rfl others).1 rest)
          rw [e, ← tagName_of_checkTag checked]
          exact .filled _ between
        | empty _ checked =>
          rw [eq_nil_of_closes ((accepts_iff_closes rfl others).1 rest)]
          exact .empty _
        | closing innermost => cases innermost
        | text inside => exact absurd rfl inside
        | cdata inside => exact absurd rfl inside
        | aside aside => exact absurd (part.symm.trans aside) Bool.false_ne_true
      · intro h
        generalize rest : significant events = remaining at h
        cases h with
        | empty content =>
          obtain ⟨name, checked⟩ := first
          exact ⟨_, .empty fresh checked, (accepts_iff_closes rfl others).2 (rest ▸ .nil)⟩
        | filled content between =>
          obtain ⟨name, checked⟩ := first
          refine ⟨_, .opening fresh checked, (accepts_iff_closes rfl others).2 ?_⟩
          rw [rest, tagName_of_checkTag checked]
          exact .cons between .nil

/-! ### Names -/

theorem Steps.mem_dotted_iff {event : Event} (step : outline.Steps event after) (name : String) :
    name ∈ after.dotted ↔ name ∈ outline.dotted ∨ isDotted name = true ∧ event.element? = some name := by
  -- a tag adds the name of its element, if that is dotted
  have added (found : String) : name ∈ (outline.adding [found]).dotted ↔
      name ∈ outline.dotted ∨ isDotted name = true ∧ some found = some name := by
    simp only [adding, List.mem_append, List.mem_reverse, List.mem_filter, List.mem_singleton, Option.some.injEq,
      eq_comm (a := found)]
    exact or_comm.trans (or_congr_right and_comm)
  cases step with
  | @opening content found _ checked | @empty content found _ checked =>
    rw [Event.element?, checked]
    exact added found
  | closing | text | cdata => simp [Event.element?]
  | aside aside =>
    cases event with
    | comment | instruction | declaration | doctype => simp [Event.element?]
    | opening | empty | closing | text | cdata => cases aside

/-- The names that a run finds are the dotted names of the elements that its events start. -/
theorem mem_dotted_iff {events : List Located} (read : events.foldlM step outline = .ok after) (name : String) :
    name ∈ after.dotted ↔
      name ∈ outline.dotted ∨ isDotted name = true ∧ ∃ found ∈ events, found.event.element? = some name := by
  induction events generalizing outline with
  | nil =>
    cases read
    simp
  | cons found events ih =>
    rw [List.foldlM_cons] at read
    obtain ⟨middle, first, read⟩ := Except.bind_eq_ok_iff.1 read
    rw [ih read, (step_eq_ok_iff.1 first).mem_dotted_iff]
    simp only [List.exists_mem_cons_iff, and_or_left, or_assoc]

end Outline

/-- Events that are sound one by one are accepted exactly if they are, besides asides, those of one element.  The names
found are then exactly the dotted names of the elements in it. -/
theorem ofEvents_balanced (events : List Located) (sound : ∀ found ∈ events, found.event.Sound) :
    (IsElement (significant events) →
      ∃ names, (Outline.ofEvents events >>= Outline.finish) = .ok names ∧
        ∀ name, name ∈ names ↔
          Outline.isDotted name = true ∧ ∃ found ∈ events, found.event.element? = some name) ∧
    (¬ IsElement (significant events) →
      ∃ fault, (Outline.ofEvents events >>= Outline.finish) = .error fault) := by
  rw [← Outline.accepts_iff_isElement sound]
  constructor
  · rintro ⟨names, accepted⟩
    obtain ⟨after, read, finished⟩ := Except.bind_eq_ok_iff.1 accepted
    obtain ⟨-, rfl⟩ := Outline.finish_eq_ok_iff.1 finished
    refine ⟨after.dotted, accepted, fun name => ?_⟩
    rw [Outline.mem_dotted_iff read]
    simp [Outline.start]
  · intro refused
    cases result : Outline.ofEvents events >>= Outline.finish with
    | error fault => exact ⟨fault, rfl⟩
    | ok names => exact absurd ⟨names, result⟩ refused

/-- The events of `<?xml?><a>x<b.c/></a><!---->`. -/
def nestedEvents : List Located :=
  [⟨.declaration, 0, 7⟩, ⟨.opening (asciiText "a"), 7, 10⟩, ⟨.text (asciiText "x"), 10, 11⟩,
    ⟨.empty (asciiText "b.c"), 11, 17⟩, ⟨.closing (asciiText "a"), 17, 21⟩, ⟨.comment, 21, 28⟩]

theorem ofEvents_balanced_nested :
    (∀ found ∈ nestedEvents, found.event.Sound) ∧ IsElement (significant nestedEvents) ∧
      ∃ names, (Outline.ofEvents nestedEvents >>= Outline.finish) = .ok names ∧
        ∀ name, name ∈ names ↔
          Outline.isDotted name = true ∧ ∃ found ∈ nestedEvents, found.event.element? = some name := by
  have outer : checkTag (asciiText "a") = .ok "a" := by decide +kernel
  have inner : checkTag (asciiText "b.c") = .ok "b.c" := by decide +kernel
  have text : unescape (asciiText "x") = .ok "x" := by decide +kernel
  have sound : ∀ found ∈ nestedEvents, found.event.Sound := by
    simp only [nestedEvents, List.forall_mem_cons, List.not_mem_nil, false_implies, implies_true, and_true, true_and,
      Event.Sound]
    exact ⟨⟨_, outer⟩, ⟨_, text⟩, ⟨_, inner⟩⟩
  have element : IsElement (significant nestedEvents) :=
    .filled (asciiText "a") (.text _ (.element (.empty _) .nil))
  exact ⟨sound, element, (ofEvents_balanced nestedEvents sound).1 element⟩

end ClassCensus.Layout
