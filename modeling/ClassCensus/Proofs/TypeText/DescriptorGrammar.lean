import ClassCensus.Proofs.TypeText.Reading
import ClassCensus.TypeText.Descriptor

/-!
# The grammar of descriptors

What descriptors look like: `FieldType.spell` and `Descriptor.spell` write a descriptor down, and its names and
dimensions are `Legal` if it can be read back.  A text is a descriptor exactly if it is the spelling of a legal one
(`Descriptor.parse_eq_ok_iff`).
-/

namespace ClassCensus

/-- The letter of a primitive type. -/
def PrimitiveType.letter : PrimitiveType → Char
  | .byte => 'B'
  | .char => 'C'
  | .double => 'D'
  | .float => 'F'
  | .int => 'I'
  | .long => 'J'
  | .short => 'S'
  | .boolean => 'Z'

theorem PrimitiveType.ofLetter?_eq_some_iff {c : Char} {type : PrimitiveType} :
    ofLetter? c = some type ↔ c = type.letter := by
  constructor
  · intro h
    obtain ⟨before, after, e, -⟩ := List.lookup_eq_some_iff.1 h
    have mem : (c, type) ∈ letters := by simp [e]
    revert mem
    simp only [letters, List.mem_cons, Prod.mk.injEq, List.not_mem_nil, or_false]
    rintro (⟨rfl, rfl⟩ | ⟨rfl, rfl⟩ | ⟨rfl, rfl⟩ | ⟨rfl, rfl⟩ | ⟨rfl, rfl⟩ | ⟨rfl, rfl⟩ | ⟨rfl, rfl⟩ | ⟨rfl, rfl⟩) <;>
      rfl
  · rintro rfl
    cases type <;> rfl

theorem PrimitiveType.letter_injective {type other : PrimitiveType} (h : type.letter = other.letter) :
    type = other := by
  have same := ofLetter?_eq_some_iff.2 h
  rw [ofLetter?_eq_some_iff.2 rfl] at same
  exact Option.some.inj same

theorem PrimitiveType.letter_ne_of_eq_none {c : Char} (h : ofLetter? c = none) (type : PrimitiveType) :
    type.letter ≠ c := by
  rintro rfl
  rw [ofLetter?_eq_some_iff.2 rfl] at h
  cases h

/-- The letter of a primitive type is not that of a type variable or of a class. -/
theorem PrimitiveType.letter_ne (type : PrimitiveType) : type.letter ≠ 'T' ∧ type.letter ≠ 'L' := by
  cases type <;> decide

/-- The characters of an element type. -/
def ElementType.spell : ElementType → List Char
  | .primitive type => [type.letter]
  | .object name => 'L' :: (name.toList ++ [';'])

/-- The class of an element type has a name. -/
def ElementType.Legal : ElementType → Prop
  | .primitive _ => True
  | .object name => IsIdentifier (· = ';') name

/-- An element type starts with a letter other than that of no value. -/
theorem ElementType.spell_eq_cons (element : ElementType) :
    ∃ c behind, element.spell = c :: behind ∧ c ∉ ['[', '(', ')', 'V'] := by
  cases element with
  | primitive type => exact ⟨type.letter, [], rfl, by cases type <;> decide⟩
  | object name => exact ⟨'L', _, rfl, by decide⟩

namespace FieldType

/-- The characters of a type. -/
def spell (type : FieldType) : List Char :=
  List.replicate type.dimensions '[' ++ type.element.spell

/-- The type keeps the limits of the format. -/
structure Legal (type : FieldType) : Prop where
  dimensions_le : type.dimensions ≤ maxDimensions
  element : type.element.Legal

/-- A type starts with a bracket or with the letter of its element type. -/
theorem spell_eq_cons (type : FieldType) : ∃ c behind, type.spell = c :: behind ∧ c ∉ ['(', ')', 'V'] := by
  obtain ⟨_ | n, element⟩ := type
  · obtain ⟨c, behind, e, other⟩ := element.spell_eq_cons
    exact ⟨c, behind, e, fun mem => other (List.mem_cons_of_mem _ mem)⟩
  · exact ⟨'[', List.replicate n '[' ++ element.spell, by simp [spell, List.replicate_succ], by decide⟩

theorem spell_ne_nil (type : FieldType) : type.spell ≠ [] := by
  obtain ⟨c, behind, e, -⟩ := type.spell_eq_cons
  simp [e]

theorem head?_spell_append_ne (type : FieldType) (rest : List Char) {c : Char} (h : c ∈ ['(', ')', 'V']) :
    (type.spell ++ rest).head? ≠ some c := by
  obtain ⟨c', behind, e, other⟩ := type.spell_eq_cons
  rw [e]
  intro same
  exact other (Option.some.inj same ▸ h)

end FieldType

namespace Descriptor

/-- The characters of the result of a method. -/
def spellResult : Option FieldType → List Char
  | none => ['V']
  | some type => type.spell

/-- The characters of a descriptor. -/
def spell : Descriptor → List Char
  | .field type => type.spell
  | .method parameters result? => '(' :: (parameters.flatMap FieldType.spell ++ ')' :: spellResult result?)

/-- All types keep the limits of the format. -/
def Legal (d : Descriptor) : Prop :=
  ∀ type ∈ d.types, type.Legal

end Descriptor

namespace TypeParser

variable {bound : Nat}

private theorem exists_brackets (ahead : List Char) :
    ∃ n rest, ahead = List.replicate n '[' ++ rest ∧ rest.head? ≠ some '[' := by
  induction ahead with
  | nil => exact ⟨0, [], rfl, by simp⟩
  | cons c ahead ih =>
    by_cases bracket : c = '['
    · obtain ⟨n, rest, rfl, stops⟩ := ih
      exact ⟨n + 1, rest, by rw [bracket, List.replicate_succ, List.cons_append], stops⟩
    · exact ⟨0, c :: ahead, rfl, by simpa using bracket⟩

private theorem takeWhile_brackets {n : Nat} {rest : List Char} (stops : rest.head? ≠ some '[') :
    (List.replicate n '[' ++ rest).takeWhile (· = '[') = List.replicate n '[' := by
  rw [List.takeWhile_append_of_pos (by simp)]
  cases rest with
  | nil => simp
  | cons c rest => simpa using stops

theorem reads_dimensions : Reads bound dimensions fun taken rest n =>
    taken = List.replicate n '[' ∧ n ≤ maxDimensions ∧ rest.head? ≠ some '[' := by
  intro cursor n rest _
  obtain ⟨position, ahead⟩ := cursor
  obtain ⟨m, ahead, rfl, stops⟩ := exists_brackets ahead
  simp only [dimensions]
  rw [takeWhile_brackets stops, List.length_replicate, List.drop_left' List.length_replicate]
  constructor
  · intro hx
    obtain ⟨_, h⟩ := hx
    split at h
    · next few =>
      cases h
      exact ⟨_, rfl, rfl, few, stops⟩
    · cases h
  · intro hx
    obtain ⟨_, e, rfl, few, stops'⟩ := hx
    have brackets := congrArg (List.takeWhile (· = '[')) e
    rw [takeWhile_brackets stops, takeWhile_brackets stops', List.replicate_inj] at brackets
    obtain rfl := brackets.1
    obtain rfl := List.append_cancel_left e
    rw [if_pos few]
    exact ⟨_, rfl⟩

theorem reads_elementType : Reads bound elementType fun taken _ element => taken = element.spell ∧ element.Legal := by
  refine Reads.choose fun next => ?_
  rcases next with _ | c
  · refine ⟨_, .throw _, fun taken rest element ahead => ?_⟩
    rw [false_iff]
    rintro ⟨rfl, -⟩
    cases element <;> cases ahead
  · dsimp only
    cases letter : PrimitiveType.ofLetter? c with
    | some type =>
      refine ⟨_, (Reads.pure _).advance, fun taken rest element ahead => ?_⟩
      rw [advance_iff ahead]
      obtain rfl := PrimitiveType.ofLetter?_eq_some_iff.1 letter
      constructor
      · rintro ⟨_, rfl, rfl, rfl⟩
        exact ⟨rfl, trivial⟩
      · rintro ⟨rfl, -⟩
        rcases element with other | name
        · obtain rfl := PrimitiveType.letter_injective (Option.some.inj ahead)
          exact ⟨[], rfl, rfl, rfl⟩
        · exact absurd (Option.some.inj ahead).symm type.letter_ne.2
    | none =>
      have notPrimitive := PrimitiveType.letter_ne_of_eq_none letter
      dsimp only
      by_cases isClass : c = 'L'
      · subst isClass
        refine ⟨_, (Reads.name ';' ElementType.object).advance, fun taken rest element ahead => ?_⟩
        rw [advance_iff ahead]
        constructor
        · rintro ⟨_, rfl, name, rfl, legal, rfl⟩
          exact ⟨rfl, legal⟩
        · rintro ⟨rfl, legal⟩
          rcases element with type | name
          · exact absurd (Option.some.inj ahead) (notPrimitive type)
          · exact ⟨_, rfl, name, rfl, legal, rfl⟩
      · rw [if_pos isClass]
        refine ⟨_, .throw_bind _ _, fun taken rest element ahead => ?_⟩
        rw [false_iff]
        rintro ⟨rfl, -⟩
        rcases element with type | name
        · exact notPrimitive type (Option.some.inj ahead)
        · exact isClass (Option.some.inj ahead).symm

theorem reads_fieldType : Reads bound fieldType fun taken _ type => taken = type.spell ∧ type.Legal := by
  refine (reads_dimensions.bind fun n => reads_elementType.map (FieldType.mk n)).congr fun taken rest type => ?_
  constructor
  · rintro ⟨n, _, _, rfl, ⟨rfl, few, -⟩, element, ⟨rfl, legal⟩, rfl⟩
    exact ⟨rfl, few, legal⟩
  · rintro ⟨rfl, few, legal⟩
    refine ⟨type.dimensions, _, _, rfl, ⟨rfl, few, ?_⟩, type.element, ⟨rfl, legal⟩, rfl⟩
    obtain ⟨c, behind, e, other⟩ := type.element.spell_eq_cons
    rw [e]
    intro same
    exact other (Option.some.inj same ▸ List.mem_cons_self)

theorem Reads.result {α : Type} {type : TypeParser α} {S : Phrase α} (h : Reads bound type S) :
    Reads bound (result type) fun taken rest result? =>
      taken = ['V'] ∧ result? = none ∨ (taken ++ rest).head? ≠ some 'V' ∧ ∃ a, S taken rest a ∧ result? = some a := by
  refine ((Reads.pure none).ifNext 'V' (h.map some)).congr fun taken rest result? => or_congr_left ?_
  constructor
  · rintro ⟨_, rfl, rfl, rfl⟩
    exact ⟨rfl, rfl⟩
  · rintro ⟨rfl, rfl⟩
    exact ⟨[], rfl, rfl, rfl⟩

/-- The types of parameters, up to the closing bracket. -/
theorem reads_parameters : Reads bound (repeatWhile bound (· ≠ some ')') fieldType) fun taken rest types =>
    taken = types.flatMap FieldType.spell ∧ (∀ type ∈ types, type.Legal) ∧ rest.head? = some ')' := by
  refine (reads_fieldType.repeatWhile fun taken rest type h => h.1 ▸ type.spell_ne_nil).congr fun taken rest types => ?_
  rw [repeated_iff FieldType.spell FieldType.Legal (fun _ => True) (fun _ _ _ _ _ => Iff.rfl) (fun type rest _ => ?_)
    (fun _ _ _ => trivial) trivial]
  · simp
  · exact decide_eq_true (type.head?_spell_append_ne rest (by decide))

theorem reads_descriptor : Reads bound (descriptor bound) fun taken _ d => taken = d.spell ∧ d.Legal := by
  have method := reads_parameters.bind fun types =>
    ((@reads_fieldType bound).result.map (Descriptor.method types)).advance
  refine (method.ifNext '(' (reads_fieldType.map Descriptor.field)).congr fun taken rest d => ?_
  constructor
  · rintro (⟨_, rfl, types, _, right, rfl, ⟨rfl, legal, closes⟩, passed⟩ | ⟨-, type, ⟨rfl, legal⟩, rfl⟩)
    · obtain ⟨_, rfl, _, ⟨rfl, rfl⟩ | ⟨-, result, ⟨rfl, legal'⟩, rfl⟩, rfl⟩ := (advance_iff closes).1 passed
      · exact ⟨rfl, by simpa [Descriptor.Legal, Descriptor.types] using legal⟩
      · refine ⟨rfl, fun type mem => ?_⟩
        rcases List.mem_append.1 mem with mem | mem
        · exact legal type mem
        · exact List.mem_singleton.1 mem ▸ legal'
    · exact ⟨rfl, by simpa [Descriptor.Legal, Descriptor.types] using legal⟩
  · rintro ⟨rfl, legal⟩
    cases d with
    | field type =>
      exact .inr ⟨type.head?_spell_append_ne rest (by decide), type, ⟨rfl, legal type List.mem_cons_self⟩, rfl⟩
    | method types result? =>
      refine .inl ⟨_, rfl, types, _, _, rfl,
        ⟨rfl, fun type mem => legal type (List.mem_append_left _ mem), rfl⟩, .inl ⟨_, _, rfl, result?, ?_, rfl⟩⟩
      cases result? with
      | none => exact .inl ⟨rfl, rfl⟩
      | some result =>
        exact .inr ⟨result.head?_spell_append_ne rest (by decide), result,
          ⟨rfl, legal result (List.mem_append_right _ List.mem_cons_self)⟩, rfl⟩

end TypeParser

theorem FieldType.parse_eq_ok_iff {text : String} {type : FieldType} :
    FieldType.parse text = .ok type ↔ text.toList = type.spell ∧ type.Legal :=
  TypeParser.parse_eq_ok_iff fun _ => TypeParser.reads_fieldType

/-- A text is a descriptor exactly if it is the spelling of a legal one. -/
theorem Descriptor.parse_eq_ok_iff {text : String} {d : Descriptor} :
    Descriptor.parse text = .ok d ↔ text.toList = d.spell ∧ d.Legal :=
  TypeParser.parse_eq_ok_iff fun _ => TypeParser.reads_descriptor

end ClassCensus
