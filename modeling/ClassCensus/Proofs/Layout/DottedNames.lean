import ClassCensus.Layout.Outline
import ClassCensus.Proofs.Layout.OutlineStep
import ClassCensus.Proofs.NameSet
import ClassCensus.Proofs.Outcome

/-!
# The names that layouts hold

A step of an outline adds at most one name to those that it has found, and that one has been checked
(`Outline.finds_step`).  So all names of a layout are names of elements that contain a dot
(`isName_of_mem_dottedNames`); none is empty or has a line break.
-/

namespace ClassCensus.Layout

/-! ### Names -/

theorem ne_empty_of_isName {name : String} (h : isName name = true) : name ≠ "" := by
  rintro rfl
  cases h

theorem isNameChar_of_mem {name : String} (h : isName name = true) : ∀ c ∈ name.toList, isNameChar c = true := by
  unfold isName at h
  split at h
  · cases h
  · next first rest e =>
    obtain ⟨start, others⟩ := Bool.and_eq_true_iff.1 h
    rw [e]
    refine List.forall_mem_cons.2 ⟨?_, List.all_eq_true.1 others⟩
    rw [isNameChar, start, Bool.true_or]

theorem lineBreak_notMem_of_isName {name : String} (h : isName name = true) : '\n' ∉ name.toList := by
  intro mem
  have char := isNameChar_of_mem h _ mem
  revert char
  decide

/-! ### Tags -/

/-- A tag that passes the checks is that of an element with a name. -/
theorem isName_of_checkTag {content : List UInt8} {element : String} (h : checkTag content = .ok element) :
    isName element = true := by
  obtain ⟨name, -, h⟩ := Except.bind_eq_ok_iff.1 h
  obtain ⟨given, h⟩ := Except.refuse_eq_ok_iff.1 h
  obtain ⟨_, -, h⟩ := Except.bind_eq_ok_iff.1 h
  split at h
  · cases h
  · cases h
    simpa using given

namespace Outline

variable {outline after : Outline}

/-- At most one name has been found more, and it is a checked one with a dot. -/
def Finds (outline after : Outline) : Prop :=
  after.dotted = outline.dotted ∨
    ∃ name, isName name = true ∧ isDotted name = true ∧ after.dotted = name :: outline.dotted

theorem finds_adding {name : String} (checked : isName name = true) : outline.Finds (outline.adding [name]) := by
  cases dotted : isDotted name with
  | false => exact .inl (by simp [adding, dotted])
  | true => exact .inr ⟨name, checked, dotted, by simp [adding, dotted]⟩

/-- What one event adds to the names. -/
theorem finds_step {found : Located} (h : outline.step found = .ok after) : outline.Finds after := by
  obtain ⟨event, start, past⟩ := found
  cases step_eq_ok_iff.1 h with
  | opening _ checked | empty _ checked => exact finds_adding (isName_of_checkTag checked)
  | closing | text | cdata | aside => exact .inl rfl

/-- All names found so far are checked ones with a dot. -/
def Checked (outline : Outline) : Prop :=
  ∀ name ∈ outline.dotted, isName name = true ∧ isDotted name = true

theorem Checked.of_finds (h : outline.Checked) (finds : outline.Finds after) : after.Checked := by
  rcases finds with same | ⟨name, isName, dotted, more⟩
  · rw [Checked, same]
    exact h
  · rw [Checked, more]
    exact List.forall_mem_cons.2 ⟨⟨isName, dotted⟩, h⟩

theorem Checked.of_events {events : List Located} (h : outline.Checked)
    (read : events.foldlM step outline = .ok after) : after.Checked := by
  induction events generalizing outline with
  | nil =>
    cases read
    exact h
  | cons event events ih =>
    rw [List.foldlM_cons] at read
    obtain ⟨middle, first, read⟩ := Except.bind_eq_ok_iff.1 read
    exact ih (h.of_finds (finds_step first)) read

end Outline

/-- The names of a layout are names of elements that contain a dot. -/
theorem isName_of_mem_dottedNames {document : List UInt8} {s : NameSet} (h : dottedNames document = .ok s) {n : String}
    (mem : n ∈ s) : isName n = true ∧ Outline.isDotted n = true := by
  obtain ⟨outline, read, h⟩ := Except.bind_eq_ok_iff.1 h
  have checked : outline.Checked := Outline.Checked.of_events (by simp [Outline.Checked, Outline.start]) read
  split at h
  · cases h
  · obtain ⟨names, finished, h⟩ := Except.bind_eq_ok_iff.1 h
    cases h
    obtain ⟨-, rfl⟩ := Outline.finish_eq_ok_iff.1 finished
    exact checked n (NameSet.mem_ofList.1 mem)

end ClassCensus.Layout
