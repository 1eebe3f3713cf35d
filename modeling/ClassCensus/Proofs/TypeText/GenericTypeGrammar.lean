import ClassCensus.Proofs.TypeText.DescriptorGrammar
import ClassCensus.TypeText.Signature

/-!
# The grammar of generic types

What the types in signatures look like: `TypeSignature.spell` writes a type down, and a type is `Legal` if it can be
read back.

* (levels) `TypeSignature.Legal levels` allows type arguments that are nested at most `levels` deep, so type arguments
  are read level by level (`TypeParser.readsArguments_typeArguments`);
* (segments) a segment without arguments is read as such only before a character that ends its name
  (`TypeParser.EndsSegment`).
-/

namespace ClassCensus

/-- The characters that end the name of a segment. -/
def endsSegment (c : Char) : Bool :=
  c = '<' || c = '.' || c = ';'

mutual

/-- The characters of a type. -/
def TypeSignature.spell : TypeSignature → List Char
  | ⟨dimensions, element⟩ => List.replicate dimensions '[' ++ element.spell

/-- The characters of an element type. -/
def ElementSignature.spell : ElementSignature → List Char
  | .primitive type => [type.letter]
  | .variable name => 'T' :: (name.toList ++ [';'])
  | .classType outermost nested => 'L' :: (outermost.spell ++ (spellNested nested ++ [';']))

/-- The characters of nested segments, each behind a dot. -/
def spellNested : List ClassSegment → List Char
  | [] => []
  | segment :: segments => '.' :: (segment.spell ++ spellNested segments)

/-- The characters of a segment. -/
def ClassSegment.spell : ClassSegment → List Char
  | .plain name => name.toList
  | .applied name arguments => name.toList ++ '<' :: (spellArguments arguments ++ ['>'])

/-- The characters of type arguments. -/
def spellArguments : List TypeArgument → List Char
  | [] => []
  | argument :: arguments => argument.spell ++ spellArguments arguments

/-- The characters of a type argument. -/
def TypeArgument.spell : TypeArgument → List Char
  | .any => ['*']
  | .exactly type => type.spell
  | .atMost type => '+' :: type.spell
  | .atLeast type => '-' :: type.spell

end

mutual

/-- The type keeps the limits of the format, with at most `levels` levels of type arguments. -/
def TypeSignature.Legal (levels : Nat) : TypeSignature → Prop
  | ⟨dimensions, element⟩ => dimensions ≤ maxDimensions ∧ element.Legal levels

/-- The element type keeps the limits of the format. -/
def ElementSignature.Legal (levels : Nat) : ElementSignature → Prop
  | .primitive _ => True
  | .variable name => IsIdentifier (· = ';') name
  | .classType outermost nested => outermost.Legal levels ∧ legalSegments levels nested

/-- The segments keep the limits of the format. -/
def legalSegments (levels : Nat) : List ClassSegment → Prop
  | [] => True
  | segment :: segments => segment.Legal levels ∧ legalSegments levels segments

/-- The segment keeps the limits of the format; its arguments are one level deeper. -/
def ClassSegment.Legal (levels : Nat) : ClassSegment → Prop
  | .plain name => IsIdentifier endsSegment name
  | .applied name arguments =>
    IsIdentifier endsSegment name ∧ ∃ inner, levels = inner + 1 ∧ legalArguments inner arguments

/-- The type arguments keep the limits of the format. -/
def legalArguments (levels : Nat) : List TypeArgument → Prop
  | [] => True
  | argument :: arguments => argument.Legal levels ∧ legalArguments levels arguments

/-- The type argument keeps the limits of the format. -/
def TypeArgument.Legal (levels : Nat) : TypeArgument → Prop
  | .any => True
  | .exactly type | .atMost type | .atLeast type => type.Legal levels

end

theorem spellNested_eq (segments : List ClassSegment) :
    spellNested segments = segments.flatMap fun segment => '.' :: segment.spell := by
  induction segments with
  | nil => rfl
  | cons segment segments ih => rw [spellNested, ih, List.flatMap_cons, List.cons_append]

theorem spellArguments_eq (arguments : List TypeArgument) :
    spellArguments arguments = arguments.flatMap TypeArgument.spell := by
  induction arguments with
  | nil => rfl
  | cons argument arguments ih => rw [spellArguments, ih, List.flatMap_cons]

theorem legalSegments_iff {levels : Nat} {segments : List ClassSegment} :
    legalSegments levels segments ↔ ∀ segment ∈ segments, segment.Legal levels := by
  induction segments with
  | nil => simp [legalSegments]
  | cons segment segments ih => rw [legalSegments, ih, List.forall_mem_cons]

theorem legalArguments_iff {levels : Nat} {arguments : List TypeArgument} :
    legalArguments levels arguments ↔ ∀ argument ∈ arguments, argument.Legal levels := by
  induction arguments with
  | nil => simp [legalArguments]
  | cons argument arguments ih => rw [legalArguments, ih, List.forall_mem_cons]

/-! ### First characters -/

/-- The characters at which no type starts. -/
def marks : List Char :=
  ['(', ')', '<', '>', '*', '+', '-', ':', '^', 'V']

theorem ElementSignature.spell_eq_cons (element : ElementSignature) :
    ∃ c behind, element.spell = c :: behind ∧ c ∉ '[' :: marks := by
  rcases element with type | name | ⟨outermost, nested⟩
  · exact ⟨type.letter, [], rfl, by cases type <;> decide⟩
  · exact ⟨'T', _, rfl, by decide⟩
  · exact ⟨'L', _, rfl, by decide⟩

theorem ClassSegment.spell_ne_nil {levels : Nat} {segment : ClassSegment} (h : segment.Legal levels) :
    segment.spell ≠ [] := by
  cases segment with
  | plain name => exact fun none => h.ne_empty (String.toList_eq_nil_iff.1 none)
  | applied name arguments => simp [ClassSegment.spell]

theorem TypeSignature.spell_eq_cons (type : TypeSignature) : ∃ c behind, type.spell = c :: behind ∧ c ∉ marks := by
  obtain ⟨_ | n, element⟩ := type
  · obtain ⟨c, behind, e, other⟩ := element.spell_eq_cons
    exact ⟨c, behind, e, fun mem => other (List.mem_cons_of_mem _ mem)⟩
  · exact ⟨'[', List.replicate n '[' ++ element.spell, by simp [TypeSignature.spell, List.replicate_succ], by decide⟩

theorem TypeSignature.spell_ne_nil (type : TypeSignature) : type.spell ≠ [] := by
  obtain ⟨c, behind, e, -⟩ := type.spell_eq_cons
  simp [e]

theorem TypeSignature.head?_spell_append_ne (type : TypeSignature) (rest : List Char) {c : Char} (h : c ∈ marks) :
    (type.spell ++ rest).head? ≠ some c := by
  obtain ⟨c', behind, e, other⟩ := type.spell_eq_cons
  rw [e]
  intro same
  exact other (Option.some.inj same ▸ h)

/-- No type argument starts with the bracket that closes the arguments. -/
theorem TypeArgument.head?_spell_append_ne (argument : TypeArgument) (rest : List Char) :
    (argument.spell ++ rest).head? ≠ some '>' := by
  rcases argument with _ | type | type | type
  · simp [TypeArgument.spell]
  · exact type.head?_spell_append_ne rest (by decide)
  · simp [TypeArgument.spell]
  · simp [TypeArgument.spell]

theorem TypeArgument.spell_ne_nil (argument : TypeArgument) : argument.spell ≠ [] := by
  rcases argument with _ | type | type | type
  · exact List.cons_ne_nil _ _
  · exact type.spell_ne_nil
  · exact List.cons_ne_nil _ _
  · exact List.cons_ne_nil _ _

namespace TypeParser

variable {bound levels : Nat}

/-! ### Segments -/

/-- Behind its opening bracket, `arguments` reads type arguments. -/
def ReadsArguments (bound levels : Nat) (arguments : TypeParser (List TypeArgument)) : Prop :=
  ∃ S, Reads bound arguments S ∧ ∀ taken rest as, (taken ++ rest).head? = some '<' →
    (S taken rest as ↔
      taken = '<' :: (spellArguments as ++ ['>']) ∧ ∃ inner, levels = inner + 1 ∧ legalArguments inner as)

/-- Behind a plain segment stands a character that ends its name and opens no arguments. -/
def EndsSegment (rest : List Char) : ClassSegment → Prop
  | .plain _ => ∃ c, rest.head? = some c ∧ (c = '.' ∨ c = ';')
  | .applied _ _ => True

theorem reads_segment {arguments : TypeParser (List TypeArgument)} (h : ReadsArguments bound levels arguments) :
    Reads bound (segment arguments) fun taken rest s => taken = s.spell ∧ s.Legal levels ∧ EndsSegment rest s := by
  obtain ⟨S, reads, opened⟩ := h
  have behind (name : String) : Reads bound
      (do if (← peek) = some '<' then return ClassSegment.applied name (← arguments)
          else return ClassSegment.plain name) fun taken rest s =>
      (∃ as, taken = '<' :: (spellArguments as ++ ['>']) ∧ (∃ inner, levels = inner + 1 ∧ legalArguments inner as) ∧
        s = .applied name as) ∨ (taken ++ rest).head? ≠ some '<' ∧ taken = [] ∧ s = .plain name := by
    refine Reads.choose fun next => ?_
    by_cases e : next = some '<'
    · rw [if_pos e]
      refine ⟨_, reads.map (ClassSegment.applied name), fun taken rest s ahead => ?_⟩
      simp only [opened _ _ _ (ahead.trans e), ahead, e, ne_eq, not_true_eq_false, false_and, or_false, and_assoc]
    · rw [if_neg e]
      refine ⟨_, .pure _, fun taken rest s ahead => ?_⟩
      rw [ahead, and_iff_right e, or_iff_right]
      rintro ⟨as, rfl, -⟩
      exact e ahead.symm
  refine ((reads_identifier endsSegment).bind behind).congr fun taken rest s => ?_
  constructor
  · rintro ⟨name, _, _, rfl, ⟨rfl, legal, c, ahead, stops⟩, ⟨as, rfl, deeper, rfl⟩ | ⟨ne, rfl, rfl⟩⟩
    · exact ⟨rfl, ⟨legal, deeper⟩, trivial⟩
    · refine ⟨by rw [List.append_nil, ClassSegment.spell], legal, c, ahead, ?_⟩
      have other : c ≠ '<' := fun e => ne (ahead.trans (congrArg some e))
      simpa [endsSegment, other] using stops
  · rintro ⟨rfl, legal, behind⟩
    cases s with
    | plain name =>
      obtain ⟨c, ahead, stops⟩ := behind
      refine ⟨name, name.toList, [], (List.append_nil _).symm, ⟨rfl, legal, c, ahead, ?_⟩, .inr ⟨?_, rfl, rfl⟩⟩
      · rcases stops with rfl | rfl <;> rfl
      · rw [List.nil_append, ahead]
        rcases stops with rfl | rfl <;> decide
    | applied name as =>
      exact ⟨name, name.toList, _, rfl, ⟨rfl, legal.1, '<', rfl, rfl⟩, .inl ⟨as, rfl, legal.2, rfl⟩⟩

/-- Segments behind dots, up to the character that ends the type. -/
private theorem reads_nested {arguments : TypeParser (List TypeArgument)} (h : ReadsArguments bound levels arguments) :
    ∃ S, Reads bound (repeatWhile bound (· = some '.') (advance >>= fun _ => segment arguments)) S ∧
      ∀ taken rest segments, rest.head? = some ';' →
        (S taken rest segments ↔ taken = spellNested segments ∧ legalSegments levels segments) := by
  refine ⟨_, (reads_segment h).advance.repeatWhile ?_, fun taken rest segments ends => ?_⟩
  · rintro taken rest s (⟨c, behind, rfl, -⟩ | ⟨-, e, legal, -⟩)
    · exact List.cons_ne_nil _ _
    · exact absurd e.symm (ClassSegment.spell_ne_nil legal)
  · rw [repeated_iff (fun s => '.' :: ClassSegment.spell s) (ClassSegment.Legal levels)
      (fun rest => ∃ c, rest.head? = some c ∧ (c = '.' ∨ c = ';')) (fun taken rest s behind goes => ?_)
      (fun _ _ _ => rfl) (fun _ _ _ => ⟨'.', rfl, .inl rfl⟩) ⟨';', ends, .inr rfl⟩,
      spellNested_eq, legalSegments_iff, ends]
    · simp
    · have ends : EndsSegment rest s := by
        cases s
        · exact behind
        · trivial
      rw [advance_iff (by simpa using goes)]
      constructor
      · rintro ⟨_, rfl, rfl, legal, -⟩
        exact ⟨rfl, legal⟩
      · rintro ⟨rfl, legal⟩
        exact ⟨_, rfl, rfl, legal, ends⟩

theorem reads_classType {arguments : TypeParser (List TypeArgument)} (h : ReadsArguments bound levels arguments) :
    Reads bound (classType bound arguments) fun taken _ element => ∃ outermost nested,
      'L' :: taken = element.spell ∧ element.Legal levels ∧ element = .classType outermost nested := by
  obtain ⟨S, nested, reads⟩ := reads_nested h
  have closed (outermost : ClassSegment) (segments : List ClassSegment) : Reads bound
      (do
        if (← peek) ≠ some ';' then throw .malformedClassType
        advance
        return ElementSignature.classType outermost segments) fun taken _ element =>
      taken = [';'] ∧ element = .classType outermost segments := by
    refine Reads.choose fun next => ?_
    by_cases e : next = some ';'
    · rw [if_neg (not_not.2 e)]
      refine ⟨_, (Reads.pure _).advance, fun taken rest element ahead => ?_⟩
      rw [advance_iff (ahead.trans e)]
      constructor
      · rintro ⟨_, rfl, rfl, rfl⟩
        exact ⟨rfl, rfl⟩
      · rintro ⟨rfl, rfl⟩
        exact ⟨[], rfl, rfl, rfl⟩
    · rw [if_pos e]
      refine ⟨_, .throw_bind _ _, fun taken rest element ahead => ?_⟩
      rw [false_iff]
      rintro ⟨rfl, -⟩
      exact e ahead.symm
  refine ((reads_segment h).bind fun outermost => nested.bind fun segments => closed outermost segments).congr
    fun taken rest element => ?_
  constructor
  · rintro ⟨outermost, _, _, rfl, ⟨rfl, legal, -⟩, segments, _, _, rfl, hs, rfl, rfl⟩
    obtain ⟨rfl, legal'⟩ := (reads _ _ _ rfl).1 hs
    exact ⟨outermost, segments, rfl, ⟨legal, legal'⟩, rfl⟩
  · rintro ⟨outermost, segments, e, legals, rfl⟩
    obtain ⟨legal, legal'⟩ := legals
    obtain rfl := (List.cons.inj e).2
    refine ⟨outermost, _, _, rfl, ⟨rfl, legal, ?_⟩, segments, _, _, rfl, (reads _ _ _ rfl).2 ⟨rfl, legal'⟩, rfl, rfl⟩
    cases outermost with
    | plain name =>
      cases segments with
      | nil => exact ⟨';', rfl, .inr rfl⟩
      | cons segment segments => exact ⟨'.', rfl, .inl rfl⟩
    | applied name arguments => trivial

/-! ### Types -/

theorem reads_elementSignature {arguments : TypeParser (List TypeArgument)}
    (h : ReadsArguments bound levels arguments) :
    Reads bound (elementSignature bound arguments) fun taken _ element =>
      taken = element.spell ∧ element.Legal levels := by
  refine Reads.choose fun next => ?_
  rcases next with _ | c
  · refine ⟨_, .throw _, fun taken rest element ahead => ?_⟩
    rw [false_iff]
    rintro ⟨rfl, -⟩
    cases element <;> cases ahead
  dsimp only
  cases letter : PrimitiveType.ofLetter? c with
  | some type =>
    refine ⟨_, (Reads.pure _).advance, fun taken rest element ahead => ?_⟩
    rw [advance_iff ahead]
    obtain rfl := PrimitiveType.ofLetter?_eq_some_iff.1 letter
    constructor
    · rintro ⟨_, rfl, rfl, rfl⟩
      exact ⟨rfl, trivial⟩
    · rintro ⟨rfl, -⟩
      rcases element with other | name | ⟨outermost, nested⟩
      · obtain rfl := PrimitiveType.letter_injective (Option.some.inj ahead)
        exact ⟨[], rfl, rfl, rfl⟩
      · exact absurd (Option.some.inj ahead).symm type.letter_ne.1
      · exact absurd (Option.some.inj ahead).symm type.letter_ne.2
  | none =>
    have notPrimitive := PrimitiveType.letter_ne_of_eq_none letter
    dsimp only
    by_cases isVariable : c = 'T'
    · subst isVariable
      refine ⟨_, (Reads.name ';' ElementSignature.variable).advance, fun taken rest element ahead => ?_⟩
      rw [advance_iff ahead]
      constructor
      · rintro ⟨_, rfl, name, rfl, legal, rfl⟩
        exact ⟨rfl, legal⟩
      · rintro ⟨rfl, legal⟩
        rcases element with type | name | ⟨outermost, nested⟩
        · exact absurd (Option.some.inj ahead) (notPrimitive type)
        · exact ⟨_, rfl, name, rfl, legal, rfl⟩
        · cases ahead
    by_cases isClass : c = 'L'
    · subst isClass
      refine ⟨_, (reads_classType h).advance, fun taken rest element ahead => ?_⟩
      rw [advance_iff ahead]
      constructor
      · rintro ⟨_, rfl, _, _, e, legal, -⟩
        exact ⟨e, legal⟩
      · rintro ⟨rfl, legal⟩
        rcases element with type | name | ⟨outermost, nested⟩
        · exact absurd (Option.some.inj ahead) (notPrimitive type)
        · cases ahead
        · exact ⟨_, rfl, outermost, nested, rfl, legal, rfl⟩
    · rw [if_neg isVariable, if_neg isClass]
      refine ⟨_, .throw _, fun taken rest element ahead => ?_⟩
      rw [false_iff]
      rintro ⟨rfl, -⟩
      rcases element with type | name | ⟨outermost, nested⟩
      · exact notPrimitive type (Option.some.inj ahead)
      · exact isVariable (Option.some.inj ahead).symm
      · exact isClass (Option.some.inj ahead).symm

theorem reads_typeSignature {arguments : TypeParser (List TypeArgument)} (h : ReadsArguments bound levels arguments) :
    Reads bound (typeSignature bound arguments) fun taken _ type => taken = type.spell ∧ type.Legal levels := by
  refine (reads_dimensions.bind fun n => (reads_elementSignature h).map (TypeSignature.mk n)).congr
    fun taken rest type => ?_
  constructor
  · rintro ⟨n, _, _, rfl, ⟨rfl, few, -⟩, element, ⟨rfl, legal⟩, rfl⟩
    exact ⟨rfl, few, legal⟩
  · rintro ⟨rfl, legal⟩
    obtain ⟨n, element⟩ := type
    refine ⟨n, _, _, rfl, ⟨rfl, legal.1, ?_⟩, element, ⟨rfl, legal.2⟩, rfl⟩
    obtain ⟨c, behind, e, other⟩ := element.spell_eq_cons
    rw [e]
    intro same
    exact other (Option.some.inj same ▸ List.mem_cons_self)

theorem reads_typeArgument {type : TypeParser TypeSignature}
    (h : Reads bound type fun taken _ type => taken = type.spell ∧ type.Legal levels) :
    Reads bound (typeArgument type) fun taken _ argument => taken = argument.spell ∧ argument.Legal levels := by
  refine Reads.choose fun next => ?_
  split
  · refine ⟨_, .throw _, fun taken rest argument ahead => ?_⟩
    rw [false_iff]
    rintro ⟨rfl, -⟩
    rw [List.head?_eq_none_iff, List.append_eq_nil_iff] at ahead
    exact argument.spell_ne_nil ahead.1
  · refine ⟨_, (Reads.pure _).advance, fun taken rest argument ahead => ?_⟩
    rw [advance_iff ahead]
    constructor
    · rintro ⟨_, rfl, rfl, rfl⟩
      exact ⟨rfl, trivial⟩
    · rintro ⟨rfl, -⟩
      rcases argument with _ | type | type | type
      · exact ⟨[], rfl, rfl, rfl⟩
      · exact absurd ahead (type.head?_spell_append_ne rest (by decide))
      · cases ahead
      · cases ahead
  · refine ⟨_, (h.map TypeArgument.atMost).advance, fun taken rest argument ahead => ?_⟩
    rw [advance_iff ahead]
    constructor
    · rintro ⟨_, rfl, type, ⟨rfl, legal⟩, rfl⟩
      exact ⟨rfl, legal⟩
    · rintro ⟨rfl, legal⟩
      rcases argument with _ | type | type | type
      · cases ahead
      · exact absurd ahead (type.head?_spell_append_ne rest (by decide))
      · exact ⟨_, rfl, type, ⟨rfl, legal⟩, rfl⟩
      · cases ahead
  · refine ⟨_, (h.map TypeArgument.atLeast).advance, fun taken rest argument ahead => ?_⟩
    rw [advance_iff ahead]
    constructor
    · rintro ⟨_, rfl, type, ⟨rfl, legal⟩, rfl⟩
      exact ⟨rfl, legal⟩
    · rintro ⟨rfl, legal⟩
      rcases argument with _ | type | type | type
      · cases ahead
      · exact absurd ahead (type.head?_spell_append_ne rest (by decide))
      · cases ahead
      · exact ⟨_, rfl, type, ⟨rfl, legal⟩, rfl⟩
  · next c any upper lower =>
    refine ⟨_, h.map TypeArgument.exactly, fun taken rest argument ahead => ?_⟩
    constructor
    · rintro ⟨type, ⟨rfl, legal⟩, rfl⟩
      exact ⟨rfl, legal⟩
    · rintro ⟨rfl, legal⟩
      rcases argument with _ | type | type | type
      · exact (any (Option.some.inj ahead).symm).elim
      · exact ⟨type, ⟨rfl, legal⟩, rfl⟩
      · exact (upper (Option.some.inj ahead).symm).elim
      · exact (lower (Option.some.inj ahead).symm).elim

/-- Type arguments are read at each level, by the arguments at the level below. -/
theorem readsArguments_typeArguments (levels : Nat) : ReadsArguments bound levels (typeArguments bound levels) := by
  induction levels with
  | zero =>
    refine ⟨_, .throw _, fun taken rest as ahead => ?_⟩
    rw [false_iff]
    rintro ⟨-, inner, e, -⟩
    cases e
  | succ levels ih =>
    have each := reads_typeArgument (reads_typeSignature ih)
    have all : Reads bound
        (repeatWhile bound (· ≠ some '>') (typeArgument (typeSignature bound (typeArguments bound levels))))
        fun taken rest as => taken = spellArguments as ∧ legalArguments levels as ∧ rest.head? = some '>' := by
      refine (each.repeatWhile fun _ _ argument h => h.1 ▸ argument.spell_ne_nil).congr fun taken rest as => ?_
      rw [repeated_iff TypeArgument.spell (TypeArgument.Legal levels) (fun _ => True) (fun _ _ _ _ _ => Iff.rfl)
        (fun argument rest _ => decide_eq_true (argument.head?_spell_append_ne rest)) (fun _ _ _ => trivial) trivial,
        spellArguments_eq, legalArguments_iff]
      simp
    refine ⟨_, (all.bind fun arguments => (Reads.pure arguments).advance).advance, fun taken rest as ahead => ?_⟩
    rw [advance_iff ahead]
    constructor
    · rintro ⟨_, rfl, arguments, _, right, rfl, ⟨rfl, legal, closes⟩, passed⟩
      obtain ⟨_, rfl, rfl, rfl⟩ := (advance_iff closes).1 passed
      exact ⟨rfl, levels, rfl, legal⟩
    · rintro ⟨rfl, _, e, legal⟩
      obtain rfl := Nat.succ.inj e
      exact ⟨_, rfl, as, _, ['>'], rfl, ⟨rfl, legal, rfl⟩, .inl ⟨'>', [], rfl, rfl, rfl⟩⟩

theorem reads_outerType : Reads bound (outerType bound) fun taken _ type =>
    taken = type.spell ∧ type.Legal maxArgumentDepth :=
  reads_typeSignature (readsArguments_typeArguments maxArgumentDepth)

end TypeParser

end ClassCensus
