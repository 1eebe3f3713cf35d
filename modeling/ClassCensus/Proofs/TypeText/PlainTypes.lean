import ClassCensus.Proofs.TypeText.ListedClasses
import ClassCensus.Proofs.TypeText.NamedClass

/-!
# Descriptors as signatures

A descriptor has the spelling of a signature with the same types, none of which has type arguments
(`Descriptor.toSignature`), and both name the same classes.

* (plain) the signature can be read back exactly if no name of a class has a character that a signature takes for the
  end of a segment (`Descriptor.legal_toSignature_iff`);
* (segments) no class that a signature names has such a character (`Signature.isIdentifier_of_mem_classNames`), so the
  two readings of a descriptor agree on plain names only (`signatureClasses_eq_iff_plain`).
-/

namespace ClassCensus

/-- The same type as a type of signatures. -/
def ElementType.toSignature : ElementType → ElementSignature
  | .primitive type => .primitive type
  | .object name => .classType (.plain name) []

/-- The same type as a type of signatures. -/
def FieldType.toSignature (type : FieldType) : TypeSignature :=
  ⟨type.dimensions, type.element.toSignature⟩

/-- The signature with the types of a descriptor, without type parameters and without thrown types. -/
def Descriptor.toSignature : Descriptor → Signature
  | .field type => ⟨none, .types [type.toSignature]⟩
  | .method parameters result? =>
    ⟨none, .method (parameters.map FieldType.toSignature) (result?.map FieldType.toSignature) []⟩

/-! ### Spellings -/

theorem FieldType.spell_toSignature (type : FieldType) : type.toSignature.spell = type.spell := by
  obtain ⟨dimensions, _ | name⟩ := type
  · rfl
  · rfl

theorem FieldType.flatMap_spell_toSignature (types : List FieldType) :
    (types.map FieldType.toSignature).flatMap TypeSignature.spell = types.flatMap FieldType.spell := by
  rw [List.flatMap_map]
  exact congrArg (types.flatMap ·) (funext spell_toSignature)

theorem Descriptor.spell_toSignature (d : Descriptor) : d.toSignature.spell = d.spell := by
  cases d with
  | field type =>
    show [type.toSignature].flatMap TypeSignature.spell = type.spell
    rw [List.flatMap_singleton, FieldType.spell_toSignature]
  | method parameters result? =>
    have result : (result?.map FieldType.toSignature).elim ['V'] TypeSignature.spell = spellResult result? := by
      cases result? with
      | none => rfl
      | some type => exact type.spell_toSignature
    show '(' :: ((parameters.map FieldType.toSignature).flatMap TypeSignature.spell ++
      ')' :: ((result?.map FieldType.toSignature).elim ['V'] TypeSignature.spell ++ [])) = _
    rw [FieldType.flatMap_spell_toSignature, result, List.append_nil, spell]

/-! ### Classes -/

theorem FieldType.classes_toSignature (type : FieldType) : type.toSignature.classes = type.className?.toList := by
  obtain ⟨dimensions, _ | name⟩ := type
  · rfl
  · show [] ++ [] ++ ["$".intercalate [name]] = [name]
    rw [List.nil_append, List.nil_append, ← String.ofList_toList (s := "$".intercalate [name]),
      String.toList_intercalate, List.map_singleton, List.intercalate_singleton, String.ofList_toList]

theorem Descriptor.outerTypes_toSignature (d : Descriptor) :
    d.toSignature.outerTypes = d.types.map FieldType.toSignature := by
  cases d with
  | field type => rfl
  | method parameters result? =>
    show parameters.map FieldType.toSignature ++ (result?.map FieldType.toSignature).toList ++ [] = _
    rw [List.append_nil, types, List.map_append, Option.toList_map]

theorem Descriptor.classNames_toSignature (d : Descriptor) : d.toSignature.classNames = d.classNames := by
  rw [Signature.classNames_eq, outerTypes_toSignature, List.flatMap_map, classNames, List.filterMap_eq_flatMap_toList]
  exact congrArg (d.types.flatMap ·) (funext FieldType.classes_toSignature)

/-! ### Plain names -/

theorem isIdentifier_endsSegment_iff {name : String} :
    IsIdentifier endsSegment name ↔ IsIdentifier (· = ';') name ∧ '<' ∉ name.toList ∧ '.' ∉ name.toList := by
  constructor
  · intro h
    refine ⟨⟨h.ne_empty, fun c mem => ?_⟩, fun mem => ?_, fun mem => ?_⟩
    · have := h.noStop c mem
      simp only [endsSegment, Bool.or_eq_false_iff] at this
      exact this.2
    · exact absurd (h.noStop _ mem) (by decide)
    · exact absurd (h.noStop _ mem) (by decide)
  · intro h
    obtain ⟨h, opens, dot⟩ := h
    refine ⟨h.ne_empty, fun c mem => ?_⟩
    have isOpen : c ≠ '<' := fun e => opens (e ▸ mem)
    have isDot : c ≠ '.' := fun e => dot (e ▸ mem)
    simp only [endsSegment, isOpen, isDot, decide_false, Bool.false_or]
    exact h.noStop c mem

theorem FieldType.legal_toSignature_iff {levels : Nat} {type : FieldType} :
    type.toSignature.Legal levels ↔
      type.Legal ∧ ∀ name, type.className? = some name → '<' ∉ name.toList ∧ '.' ∉ name.toList := by
  obtain ⟨dimensions, element⟩ := type
  cases element with
  | primitive type =>
    constructor
    · exact fun h => ⟨⟨h.1, trivial⟩, nofun⟩
    · exact fun h => ⟨h.1.dimensions_le, trivial⟩
  | object name =>
    constructor
    · intro h
      obtain ⟨few, legal, -⟩ := h
      obtain ⟨legal, plain⟩ := isIdentifier_endsSegment_iff.1 legal
      refine ⟨⟨few, legal⟩, fun other e => ?_⟩
      cases e
      exact plain
    · intro h
      obtain ⟨⟨few, legal⟩, plain⟩ := h
      exact ⟨few, isIdentifier_endsSegment_iff.2 ⟨legal, plain name rfl⟩, trivial⟩

theorem Descriptor.outerTypes_body_toSignature (d : Descriptor) :
    d.toSignature.body.outerTypes = d.types.map FieldType.toSignature := by
  rw [← outerTypes_toSignature]
  cases d <;> rfl

/-- A descriptor can be read as a signature exactly if the names of its classes are plain. -/
theorem Descriptor.legal_toSignature_iff {d : Descriptor} :
    d.toSignature.Legal ↔ d.Legal ∧ ∀ name ∈ d.classNames, '<' ∉ name.toList ∧ '.' ∉ name.toList := by
  have parameters : ∀ ps, d.toSignature.typeParameters? = some ps → legalParameters ps := by
    cases d <;> exact nofun
  have types : d.toSignature.Legal ↔ ∀ type ∈ d.types, type.toSignature.Legal maxArgumentDepth := by
    rw [← List.forall_mem_map, ← outerTypes_body_toSignature]
    exact ⟨Signature.Legal.types, fun h => ⟨parameters, h⟩⟩
  rw [types]
  simp only [FieldType.legal_toSignature_iff, classNames, List.mem_filterMap]
  constructor
  · intro h
    refine ⟨fun type mem => (h type mem).1, fun name hx => ?_⟩
    obtain ⟨type, mem, named⟩ := hx
    exact (h type mem).2 name named
  · intro h type mem
    exact ⟨h.1 type mem, fun name named => h.2 name ⟨type, mem, named⟩⟩

/-! ### Names of segments -/

/-- Legal names joined by `$` are a legal name. -/
private theorem isIdentifier_joined {name : String} {names : List String} (first : IsIdentifier endsSegment name)
    (others : ∀ other ∈ names, IsIdentifier endsSegment other) :
    IsIdentifier endsSegment ("$".intercalate (name :: names)) where
  ne_empty := by
    obtain ⟨behind, e⟩ := prefix_intercalate name.toList (names.map String.toList) "$".toList
    intro none
    rw [← List.map_cons (f := String.toList), ← String.toList_intercalate, none, String.toList_empty,
      List.append_eq_nil_iff] at e
    exact first.ne_empty (String.toList_eq_nil_iff.1 e.1)
  noStop := by
    intro c mem
    by_contra stops
    refine notMem_intercalate ?_ ?_ (String.toList_intercalate ▸ mem)
    · intro separates
      obtain rfl := List.mem_singleton.1 separates
      exact stops rfl
    · intro part listed inside
      obtain ⟨other, mem, rfl⟩ := List.mem_map.1 listed
      rcases List.mem_cons.1 mem with rfl | mem
      · exact stops (first.noStop c inside)
      · exact stops ((others other mem).noStop c inside)

-- All classes that a type lists are names of segments, joined.
mutual

theorem TypeSignature.isIdentifier_of_mem_classes {levels : Nat} {name : String} (type : TypeSignature)
    (legal : type.Legal levels) (mem : name ∈ type.classes) : IsIdentifier endsSegment name := by
  cases type with
  | mk dimensions element => exact element.isIdentifier_of_mem_classes legal.2 mem

theorem ElementSignature.isIdentifier_of_mem_classes {levels : Nat} {name : String} (element : ElementSignature)
    (legal : element.Legal levels) (mem : name ∈ element.classes) : IsIdentifier endsSegment name := by
  rcases element with type | other | ⟨outermost, nested⟩
  · cases mem
  · cases mem
  · rw [ElementSignature.classes, List.mem_append, List.mem_append, List.mem_singleton] at mem
    rcases mem with (mem | mem) | rfl
    · exact outermost.isIdentifier_of_mem_classes legal.1 mem
    · exact isIdentifier_of_mem_segmentClasses nested legal.2 mem
    · refine isIdentifier_joined legal.1.name fun other listed => ?_
      obtain ⟨segment, mem, rfl⟩ := List.mem_map.1 listed
      exact (legalSegments_iff.1 legal.2 segment mem).name

theorem isIdentifier_of_mem_segmentClasses {levels : Nat} {name : String} (segments : List ClassSegment)
    (legal : legalSegments levels segments) (mem : name ∈ segmentClasses segments) :
    IsIdentifier endsSegment name := by
  cases segments with
  | nil => cases mem
  | cons segment segments =>
    rcases List.mem_append.1 mem with mem | mem
    · exact segment.isIdentifier_of_mem_classes legal.1 mem
    · exact isIdentifier_of_mem_segmentClasses segments legal.2 mem

theorem ClassSegment.isIdentifier_of_mem_classes {levels : Nat} {name : String} (segment : ClassSegment)
    (legal : segment.Legal levels) (mem : name ∈ segment.classes) : IsIdentifier endsSegment name := by
  cases segment with
  | plain other => cases mem
  | applied other arguments =>
    obtain ⟨-, inner, -, legal⟩ := legal
    exact isIdentifier_of_mem_argumentClasses arguments legal mem

theorem isIdentifier_of_mem_argumentClasses {levels : Nat} {name : String} (arguments : List TypeArgument)
    (legal : legalArguments levels arguments) (mem : name ∈ argumentClasses arguments) :
    IsIdentifier endsSegment name := by
  cases arguments with
  | nil => cases mem
  | cons argument arguments =>
    rcases List.mem_append.1 mem with mem | mem
    · exact argument.isIdentifier_of_mem_classes legal.1 mem
    · exact isIdentifier_of_mem_argumentClasses arguments legal.2 mem

theorem TypeArgument.isIdentifier_of_mem_classes {levels : Nat} {name : String} (argument : TypeArgument)
    (legal : argument.Legal levels) (mem : name ∈ argument.classes) : IsIdentifier endsSegment name := by
  cases argument with
  | any => cases mem
  | exactly type => exact type.isIdentifier_of_mem_classes legal mem
  | atMost type => exact type.isIdentifier_of_mem_classes legal mem
  | atLeast type => exact type.isIdentifier_of_mem_classes legal mem

end

theorem Signature.isIdentifier_of_mem_classNames {s : Signature} {name : String} (legal : s.Legal)
    (mem : name ∈ s.classNames) : IsIdentifier endsSegment name := by
  rw [classNames_eq, List.mem_flatMap] at mem
  obtain ⟨type, listed, mem⟩ := mem
  exact type.isIdentifier_of_mem_classes (legal_outerTypes legal type listed) mem

/-! ### Agreement -/

/-- What a descriptor names, the signature of the same text names as well, in the same order and as often, exactly if
no name has one of the characters that end a segment of a class type: an opening bracket or a dot. -/
theorem signatureClasses_eq_iff_plain {text : String} {names : List String} (h : descriptorClasses text = .ok names) :
    signatureClasses text = .ok names ↔ ∀ name ∈ names, '<' ∉ name.toList ∧ '.' ∉ name.toList := by
  constructor
  · intro hx name mem
    obtain ⟨s, parsed, rfl⟩ := Except.map_eq_ok_iff.1 hx
    have legal := (Signature.parse_eq_ok_iff.1 parsed).2
    exact (isIdentifier_endsSegment_iff.1 (s.isIdentifier_of_mem_classNames legal mem)).2
  · intro plain
    obtain ⟨d, parsed, rfl⟩ := Except.map_eq_ok_iff.1 h
    obtain ⟨spelt, legal⟩ := Descriptor.parse_eq_ok_iff.1 parsed
    have readable := Descriptor.legal_toSignature_iff.2 ⟨legal, plain⟩
    have same : Signature.parse text = .ok d.toSignature :=
      Signature.parse_eq_ok_iff.2 ⟨spelt.trans d.spell_toSignature.symm, readable⟩
    exact Except.map_eq_ok_iff.2 ⟨_, same, d.classNames_toSignature⟩

/-- A method with arrays, a primitive type and a class that occurs twice. -/
theorem signatureClasses_plainMethod :
    descriptorClasses "([[Lcom/example/Foo;JLcom/example/Foo;)Lcom/example/Bar;" =
        .ok ["com/example/Foo", "com/example/Foo", "com/example/Bar"] ∧
      signatureClasses "([[Lcom/example/Foo;JLcom/example/Foo;)Lcom/example/Bar;" =
        .ok ["com/example/Foo", "com/example/Foo", "com/example/Bar"] := by
  have read : descriptorClasses "([[Lcom/example/Foo;JLcom/example/Foo;)Lcom/example/Bar;" =
      .ok ["com/example/Foo", "com/example/Foo", "com/example/Bar"] := by decide +kernel
  exact ⟨read, (signatureClasses_eq_iff_plain read).2 (by decide)⟩

end ClassCensus
