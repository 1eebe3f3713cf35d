import ClassCensus.Proofs.Outcome
import ClassCensus.Proofs.TypeText.SignatureGrammar
import ClassCensus.TypeText.ClassName
import Mathlib.Data.Set.Function

/-!
# The classes that a type text lists

A descriptor, a signature or the array type of a class entry can be read in one way only, and its classes are listed as
this reading has them.

* (descriptors) from left to right, with repetitions (`descriptorClasses_exact`);
* (signatures) in post-order (`TypeSignature.classes`): a class stands behind the classes in its own type arguments, and
  its name is that of its segments joined (`signatureClasses_exact`).

A text that has no reading is refused.
-/

namespace ClassCensus

section

variable {α β : Type} {parse : String → Except FormatError α} {spell : α → List Char} {Legal : α → Prop}
  (h : ∀ text a, parse text = .ok a ↔ text.toList = spell a ∧ Legal a)

include h

/-- Values that are read back from their spelling have different spellings. -/
private theorem injOn_of_parse : Set.InjOn spell {a | Legal a} := by
  intro a legal b legal' same
  have first : parse (String.ofList (spell a)) = .ok a := (h _ a).2 ⟨String.toList_ofList, legal⟩
  have second : parse (String.ofList (spell a)) = .ok b := (h _ b).2 ⟨String.toList_ofList.trans same, legal'⟩
  exact Except.ok.inj (first.symm.trans second)

/-- What is made of a value that is read, told from the spellings. -/
private theorem map_parse_eq_ok_iff {f : α → β} {text : String} {b : β} :
    f <$> parse text = .ok b ↔ ∃ a, Legal a ∧ spell a = text.toList ∧ f a = b := by
  rw [Except.map_eq_ok_iff]
  refine exists_congr fun a => ?_
  rw [h, and_comm (b := Legal a), and_assoc, eq_comm (a := spell a)]

end

/-! ### Descriptors -/

/-- A descriptor can be read in one way only. -/
theorem Descriptor.injOn_spell : Set.InjOn Descriptor.spell {d | d.Legal} :=
  injOn_of_parse fun _ _ => Descriptor.parse_eq_ok_iff

/-- A class entry that starts with a bracket is one field type. -/
private theorem entryClass?_bracket (behind : List Char) : entryClass? (String.ofList ('[' :: behind)) =
    FieldType.className? <$> FieldType.parse (String.ofList ('[' :: behind)) := by
  simp only [entryClass?, String.toList_ofList]

/-- The texts of descriptors are the spellings of descriptors that keep the limits, each of one only, and its classes
are listed from left to right.  A class entry that starts with a bracket is the spelling of a field type, whose class it
names. -/
theorem descriptorClasses_exact (text : String) :
    (∀ names, descriptorClasses text = .ok names ↔
      ∃ d : Descriptor, d.Legal ∧ d.spell = text.toList ∧ d.classNames = names) ∧
    Set.InjOn Descriptor.spell {d | d.Legal} ∧
    ∀ behind name?, entryClass? (String.ofList ('[' :: behind)) = .ok name? ↔
      ∃ type : FieldType, type.Legal ∧ type.spell = '[' :: behind ∧ type.className? = name? := by
  refine ⟨fun names => ?_, Descriptor.injOn_spell, fun behind name? => ?_⟩
  · exact map_parse_eq_ok_iff fun _ _ => Descriptor.parse_eq_ok_iff
  · rw [entryClass?_bracket, map_parse_eq_ok_iff fun _ _ => FieldType.parse_eq_ok_iff, String.toList_ofList]

/-! ### Generic types -/

mutual

/-- The classes in a type, each behind the classes in its own type arguments. -/
def TypeSignature.classes : TypeSignature → List String
  | ⟨_, element⟩ => element.classes

/-- The classes in an element type. -/
def ElementSignature.classes : ElementSignature → List String
  | .primitive _ | .variable _ => []
  | .classType outermost nested =>
    outermost.classes ++ segmentClasses nested ++ ["$".intercalate (outermost.name :: nested.map ClassSegment.name)]

/-- The classes in the type arguments of segments. -/
def segmentClasses : List ClassSegment → List String
  | [] => []
  | segment :: segments => segment.classes ++ segmentClasses segments

/-- The classes in the type arguments of a segment. -/
def ClassSegment.classes : ClassSegment → List String
  | .plain _ => []
  | .applied _ arguments => argumentClasses arguments

/-- The classes in type arguments. -/
def argumentClasses : List TypeArgument → List String
  | [] => []
  | argument :: arguments => argument.classes ++ argumentClasses arguments

/-- The classes in a type argument. -/
def TypeArgument.classes : TypeArgument → List String
  | .any => []
  | .exactly type | .atMost type | .atLeast type => type.classes

end

-- The names found before, the latest first, stand behind those of each part.
mutual

theorem TypeSignature.namesOnto_eq (type : TypeSignature) (found : List String) :
    type.namesOnto found = type.classes.reverse ++ found := by
  cases type with
  | mk dimensions element => exact element.namesOnto_eq found

theorem ElementSignature.namesOnto_eq (element : ElementSignature) (found : List String) :
    element.namesOnto found = element.classes.reverse ++ found := by
  rcases element with type | name | ⟨outermost, nested⟩
  · rfl
  · rfl
  · rw [ElementSignature.namesOnto, ElementSignature.classes, segmentNamesOnto_eq, outermost.namesOnto_eq]
    simp only [List.reverse_append, List.reverse_singleton, List.cons_append, List.nil_append, List.append_assoc]

theorem segmentNamesOnto_eq (segments : List ClassSegment) (found : List String) :
    segmentNamesOnto found segments = (segmentClasses segments).reverse ++ found := by
  cases segments with
  | nil => rfl
  | cons segment segments =>
    rw [segmentNamesOnto, segmentClasses, segmentNamesOnto_eq, segment.namesOnto_eq, List.reverse_append,
      List.append_assoc]

theorem ClassSegment.namesOnto_eq (segment : ClassSegment) (found : List String) :
    segment.namesOnto found = segment.classes.reverse ++ found := by
  cases segment with
  | plain name => rfl
  | applied name arguments => exact argumentNamesOnto_eq arguments found

theorem argumentNamesOnto_eq (arguments : List TypeArgument) (found : List String) :
    argumentNamesOnto found arguments = (argumentClasses arguments).reverse ++ found := by
  cases arguments with
  | nil => rfl
  | cons argument arguments =>
    rw [argumentNamesOnto, argumentClasses, argumentNamesOnto_eq, argument.namesOnto_eq, List.reverse_append,
      List.append_assoc]

theorem TypeArgument.namesOnto_eq (argument : TypeArgument) (found : List String) :
    argument.namesOnto found = argument.classes.reverse ++ found := by
  cases argument with
  | any => rfl
  | exactly type => exact type.namesOnto_eq found
  | atMost type => exact type.namesOnto_eq found
  | atLeast type => exact type.namesOnto_eq found

end

/-! ### Signatures -/

/-- The names of a signature are those of its outermost types, one behind the other. -/
theorem Signature.classNames_eq (s : Signature) : s.classNames = s.outerTypes.flatMap TypeSignature.classes := by
  have onto (types : List TypeSignature) (found : List String) :
      (types.foldl TypeSignature.namesOnto found).reverse = found.reverse ++ types.flatMap TypeSignature.classes := by
    induction types generalizing found with
    | nil => exact (List.append_nil _).symm
    | cons type types ih =>
      rw [List.foldl_cons, ih, type.namesOnto_eq, List.reverse_append, List.reverse_reverse, List.flatMap_cons,
        List.append_assoc]
  exact onto s.outerTypes []

/-- A signature can be read in one way only. -/
theorem Signature.injOn_spell : Set.InjOn Signature.spell {s | s.Legal} :=
  injOn_of_parse fun _ _ => Signature.parse_eq_ok_iff

/-- A text is refused exactly if it is the spelling of no signature that keeps the limits. -/
theorem signatureClasses_eq_error_iff {text : String} :
    (∃ fault position, signatureClasses text = .error (.typeText fault position text)) ↔
      ¬ ∃ s : Signature, s.Legal ∧ s.spell = text.toList := by
  have refused : (∃ fault position, signatureClasses text = .error (.typeText fault position text)) ↔
      ∃ fault position, Signature.parse text = .error (.typeText fault position text) := by
    rw [signatureClasses]
    cases Signature.parse text <;> simp [Functor.map, Except.map]
  rw [refused, Signature.parse, TypeParser.parse_eq_error_iff]
  refine not_congr (exists_congr fun s => ?_)
  rw [← Signature.parse, Signature.parse_eq_ok_iff, and_comm, eq_comm]

/-- The texts of signatures are the spellings of signatures that keep the limits, each of one only, and its classes are
listed in post-order; every other text is refused. -/
theorem signatureClasses_exact (text : String) :
    (∀ names, signatureClasses text = .ok names ↔
      ∃ s : Signature, s.Legal ∧ s.spell = text.toList ∧ s.outerTypes.flatMap TypeSignature.classes = names) ∧
    Set.InjOn Signature.spell {s | s.Legal} ∧
    ((∃ fault position, signatureClasses text = .error (.typeText fault position text)) ↔
      ¬ ∃ s : Signature, s.Legal ∧ s.spell = text.toList) := by
  have listed : signatureClasses text =
      (fun s : Signature => s.outerTypes.flatMap TypeSignature.classes) <$> Signature.parse text := by
    rw [signatureClasses, funext Signature.classNames_eq]
  refine ⟨fun names => ?_, Signature.injOn_spell, signatureClasses_eq_error_iff⟩
  rw [listed]
  exact map_parse_eq_ok_iff fun _ _ => Signature.parse_eq_ok_iff

end ClassCensus
