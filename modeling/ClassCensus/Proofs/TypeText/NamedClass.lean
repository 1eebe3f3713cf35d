import ClassCensus.Proofs.Outcome
import ClassCensus.Proofs.TypeText.SignatureGrammar
import ClassCensus.TypeText.ClassName

/-!
# The classes that type texts name

In a descriptor or a signature the name of a class stands behind the letter `L` and ends before a `;`.  So a class that
such a text names has a name of at least one character and without `;`, and its name starts with a bracket only if the
text has `L[` in it (`ClassNamed`).

This holds of descriptors (`Descriptor.classNamed`) and of signatures at any depth of type arguments
(`Signature.classNamed`).
-/

namespace ClassCensus

/-- What the names of the classes in a type text of these characters have in common. -/
structure ClassNamed (text : List Char) (name : String) : Prop where
  ne_empty : name ≠ ""
  noStop : ';' ∉ name.toList
  bracket : name.toList.head? = some '[' → ['L', '['] <:+: text

namespace ClassNamed

theorem mono {text more : List Char} {name : String} (h : ClassNamed text name) (part : text <:+: more) :
    ClassNamed more name where
  ne_empty := h.ne_empty
  noStop := h.noStop
  bracket first := (h.bracket first).trans part

/-- A name whose first characters stand behind the letter of classes. -/
theorem of_prefix {name first : String} {behind : List Char} (ne_empty : first ≠ "")
    (starts : first.toList <+: name.toList) (noStop : ';' ∉ name.toList) :
    ClassNamed ('L' :: (first.toList ++ behind)) name := by
  obtain ⟨others, e⟩ := starts
  cases chars : first.toList with
  | nil => exact absurd (String.toList_eq_nil_iff.1 chars) ne_empty
  | cons c tail =>
    rw [chars, List.cons_append] at e
    refine ⟨?_, noStop, fun bracket => ?_⟩
    · rintro rfl
      cases e
    · rw [← e] at bracket
      obtain rfl := Option.some.inj bracket
      exact ⟨[], tail ++ behind, rfl⟩

end ClassNamed

private theorem infix_flatMap {α : Type} {f : α → List Char} {a : α} {as : List α} (mem : a ∈ as) :
    f a <:+: as.flatMap f := by
  rw [List.flatMap_def]
  exact List.infix_of_mem_flatten (List.mem_map_of_mem mem)

private theorem infix_flatMap_behind {α : Type} {f : α → List Char} {a : α} {as : List α} {c : Char} (mem : a ∈ as) :
    f a <:+: as.flatMap fun a => c :: f a :=
  (List.infix_cons List.infix_rfl).trans (infix_flatMap (f := fun a => c :: f a) mem)

/-! ### Descriptors -/

theorem FieldType.classNamed {type : FieldType} {name : String} (legal : type.Legal)
    (named : type.className? = some name) : ClassNamed type.spell name := by
  obtain ⟨dimensions, element⟩ := type
  cases element with
  | primitive type => cases named
  | object other =>
    cases named
    have identifier : IsIdentifier (· = ';') name := legal.element
    have noStop : ';' ∉ name.toList := fun mem => absurd (identifier.noStop _ mem) (by decide)
    exact (ClassNamed.of_prefix identifier.ne_empty (List.prefix_refl _) noStop).mono
      (List.infix_append_of_infix_right List.infix_rfl)

namespace Descriptor

private theorem infix_spell {d : Descriptor} {type : FieldType} (mem : type ∈ d.types) : type.spell <:+: d.spell := by
  cases d with
  | field only =>
    rw [List.mem_singleton.1 mem]
    exact List.infix_rfl
  | method parameters result? =>
    rw [spell]
    rcases List.mem_append.1 mem with mem | mem
    · exact List.infix_cons (List.infix_append_of_infix_left (infix_flatMap mem))
    · obtain rfl := Option.mem_toList.1 mem
      exact List.infix_cons (List.infix_append_of_infix_right (List.infix_cons List.infix_rfl))

/-- The classes that a descriptor names. -/
theorem classNamed {d : Descriptor} {name : String} (legal : d.Legal) (named : name ∈ d.classNames) :
    ClassNamed d.spell name := by
  obtain ⟨type, mem, named⟩ := List.mem_filterMap.1 named
  exact (FieldType.classNamed (legal type mem) named).mono (infix_spell mem)

end Descriptor

/-! ### Generic types -/

/-- The name of a segment stands at its beginning. -/
theorem ClassSegment.exists_spell_eq (segment : ClassSegment) :
    ∃ behind, segment.spell = segment.name.toList ++ behind := by
  cases segment with
  | plain name => exact ⟨[], (List.append_nil _).symm⟩
  | applied name arguments => exact ⟨_, rfl⟩

theorem ClassSegment.Legal.name {levels : Nat} {segment : ClassSegment} (h : segment.Legal levels) :
    IsIdentifier endsSegment segment.name := by
  cases segment with
  | plain name => exact h
  | applied name arguments => exact h.1

theorem notMem_intercalate {c : Char} {parts : List (List Char)} {separator : List Char} (h : c ∉ separator)
    (h' : ∀ part ∈ parts, c ∉ part) : c ∉ separator.intercalate parts := by
  induction parts with
  | nil => simp
  | cons part parts ih =>
    rw [List.forall_mem_cons] at h'
    cases parts with
    | nil => simpa using h'.1
    | cons next parts =>
      rw [List.intercalate_cons_cons, List.mem_append, List.mem_append]
      rintro ((mem | mem) | mem)
      · exact h'.1 mem
      · exact h mem
      · exact ih h'.2 mem

/-- Joined parts start with the first. -/
theorem prefix_intercalate (first : List Char) (others : List (List Char)) (separator : List Char) :
    first <+: separator.intercalate (first :: others) := by
  cases others with
  | nil => simp
  | cons next others =>
    rw [List.intercalate_cons_cons, List.append_assoc]
    exact List.prefix_append _ _

/-- The segments of a class type make up one name. -/
private theorem classNamed_segments {levels : Nat} {outermost : ClassSegment} {nested : List ClassSegment}
    (legal : (ElementSignature.classType outermost nested).Legal levels) :
    ClassNamed (ElementSignature.classType outermost nested).spell
      ("$".intercalate (outermost.name :: nested.map ClassSegment.name)) := by
  obtain ⟨behind, e⟩ := outermost.exists_spell_eq
  have names : ∀ segment ∈ outermost :: nested, ';' ∉ segment.name.toList := by
    rw [ElementSignature.Legal, legalSegments_iff] at legal
    intro segment mem stop
    exact absurd ((List.forall_mem_cons.2 legal segment mem).name.noStop _ stop) (by decide)
  -- the name starts as its outermost segment does, and that stands behind the letter
  rw [ElementSignature.spell, e, List.append_assoc]
  apply ClassNamed.of_prefix legal.1.name.ne_empty
  · rw [String.toList_intercalate, List.map_cons]
    exact prefix_intercalate _ _ _
  · rw [String.toList_intercalate]
    apply notMem_intercalate (by decide)
    rw [← List.map_cons (f := ClassSegment.name)]
    intro part mem
    obtain ⟨name, listed, rfl⟩ := List.mem_map.1 mem
    obtain ⟨segment, belongs, rfl⟩ := List.mem_map.1 listed
    exact names segment belongs

-- A class comes after those in its own type arguments, so the names found before go down into them.
mutual

theorem TypeSignature.mem_namesOnto {levels : Nat} {name : String} {found : List String} (type : TypeSignature)
    (legal : type.Legal levels) (h : name ∈ type.namesOnto found) : name ∈ found ∨ ClassNamed type.spell name := by
  cases type with
  | mk dimensions element =>
    exact (ElementSignature.mem_namesOnto element legal.2 h).imp_right
      (·.mono (List.infix_append_of_infix_right List.infix_rfl))

theorem ElementSignature.mem_namesOnto {levels : Nat} {name : String} {found : List String}
    (element : ElementSignature) (legal : element.Legal levels) (h : name ∈ element.namesOnto found) :
    name ∈ found ∨ ClassNamed element.spell name := by
  rcases element with type | other | ⟨outermost, nested⟩
  · exact .inl h
  · exact .inl h
  · rcases List.mem_cons.1 h with rfl | h
    · exact .inr (classNamed_segments legal)
    · rcases mem_segmentNamesOnto nested legal.2 h with h | named
      · exact (ClassSegment.mem_namesOnto outermost legal.1 h).imp_right
          (·.mono (List.infix_cons (List.infix_append_of_infix_left List.infix_rfl)))
      · exact .inr (named.mono (List.infix_cons (List.infix_append_of_infix_right
          (List.infix_append_of_infix_left List.infix_rfl))))

theorem mem_segmentNamesOnto {levels : Nat} {name : String} {found : List String} (segments : List ClassSegment)
    (legal : legalSegments levels segments) (h : name ∈ segmentNamesOnto found segments) :
    name ∈ found ∨ ClassNamed (spellNested segments) name := by
  cases segments with
  | nil => exact .inl h
  | cons segment segments =>
    rcases mem_segmentNamesOnto segments legal.2 h with h | named
    · exact (ClassSegment.mem_namesOnto segment legal.1 h).imp_right
        (·.mono (List.infix_cons (List.infix_append_of_infix_left List.infix_rfl)))
    · exact .inr (named.mono (List.infix_cons (List.infix_append_of_infix_right List.infix_rfl)))

theorem ClassSegment.mem_namesOnto {levels : Nat} {name : String} {found : List String} (segment : ClassSegment)
    (legal : segment.Legal levels) (h : name ∈ segment.namesOnto found) :
    name ∈ found ∨ ClassNamed segment.spell name := by
  cases segment with
  | plain other => exact .inl h
  | applied other arguments =>
    obtain ⟨-, inner, -, legal⟩ := legal
    exact (mem_argumentNamesOnto arguments legal h).imp_right
      (·.mono (List.infix_append_of_infix_right (List.infix_cons (List.infix_append_of_infix_left List.infix_rfl))))

theorem mem_argumentNamesOnto {levels : Nat} {name : String} {found : List String} (arguments : List TypeArgument)
    (legal : legalArguments levels arguments) (h : name ∈ argumentNamesOnto found arguments) :
    name ∈ found ∨ ClassNamed (spellArguments arguments) name := by
  cases arguments with
  | nil => exact .inl h
  | cons argument arguments =>
    rcases mem_argumentNamesOnto arguments legal.2 h with h | named
    · exact (TypeArgument.mem_namesOnto argument legal.1 h).imp_right
        (·.mono (List.infix_append_of_infix_left List.infix_rfl))
    · exact .inr (named.mono (List.infix_append_of_infix_right List.infix_rfl))

theorem TypeArgument.mem_namesOnto {levels : Nat} {name : String} {found : List String} (argument : TypeArgument)
    (legal : argument.Legal levels) (h : name ∈ argument.namesOnto found) :
    name ∈ found ∨ ClassNamed argument.spell name := by
  cases argument with
  | any => exact .inl h
  | exactly type => exact TypeSignature.mem_namesOnto type legal h
  | atMost type => exact (TypeSignature.mem_namesOnto type legal h).imp_right (·.mono (List.infix_cons List.infix_rfl))
  | atLeast type => exact (TypeSignature.mem_namesOnto type legal h).imp_right (·.mono (List.infix_cons List.infix_rfl))

end

/-! ### Signatures -/

theorem TypeParameter.infix_spell {p : TypeParameter} {type : TypeSignature} (mem : type ∈ p.bounds) :
    type.spell <:+: p.spell := by
  suffices bounds : type.spell <:+: p.spellBounds from List.infix_append_of_infix_right (List.infix_cons bounds)
  rcases List.mem_append.1 mem with mem | mem
  · exact List.infix_append_of_infix_left (infix_flatMap mem)
  · exact List.infix_append_of_infix_right (infix_flatMap_behind mem)

theorem SignatureBody.infix_spell {body : SignatureBody} {type : TypeSignature} (mem : type ∈ body.outerTypes) :
    type.spell <:+: body.spell := by
  cases body with
  | types outer => exact infix_flatMap mem
  | method parameters result? thrown =>
    rw [spell]
    apply List.infix_cons
    rcases List.mem_append.1 mem with mem | mem
    · rcases List.mem_append.1 mem with mem | mem
      · exact List.infix_append_of_infix_left (infix_flatMap mem)
      · obtain rfl := Option.mem_toList.1 mem
        exact List.infix_append_of_infix_right (List.infix_cons (List.infix_append_of_infix_left List.infix_rfl))
    · exact List.infix_append_of_infix_right (List.infix_cons
        (List.infix_append_of_infix_right (infix_flatMap_behind mem)))

namespace Signature

private theorem infix_spell {s : Signature} {type : TypeSignature} (mem : type ∈ s.outerTypes) :
    type.spell <:+: s.spell := by
  obtain ⟨ps?, body⟩ := s
  rcases List.mem_append.1 mem with mem | mem
  · obtain ⟨p, listed, bound⟩ := List.mem_flatMap.1 mem
    cases ps? with
    | none => cases listed
    | some ps =>
      have inside : p.spell <:+: spellParameters (some ps) :=
        List.infix_cons (List.infix_append_of_infix_left (infix_flatMap listed))
      exact List.infix_append_of_infix_left ((TypeParameter.infix_spell bound).trans inside)
  · exact List.infix_append_of_infix_right (SignatureBody.infix_spell mem)

theorem legal_outerTypes {s : Signature} (legal : s.Legal) :
    ∀ type ∈ s.outerTypes, type.Legal maxArgumentDepth := by
  obtain ⟨ps?, body⟩ := s
  intro type mem
  rcases List.mem_append.1 mem with mem | mem
  · obtain ⟨p, listed, bound⟩ := List.mem_flatMap.1 mem
    cases ps? with
    | none => cases listed
    | some ps => exact (legalParameters_forall (legal.typeParameters ps rfl) p listed).bounds type bound
  · exact legal.types type mem

private theorem mem_foldl_namesOnto {levels : Nat} {name : String} {text : List Char} (types : List TypeSignature)
    (h : ∀ type ∈ types, type.Legal levels ∧ type.spell <:+: text) (found : List String)
    (named : name ∈ types.foldl TypeSignature.namesOnto found) : name ∈ found ∨ ClassNamed text name := by
  induction types generalizing found with
  | nil => exact .inl named
  | cons type types ih =>
    rw [List.forall_mem_cons] at h
    rcases ih h.2 _ named with named | named
    · exact (TypeSignature.mem_namesOnto type h.1.1 named).imp_right (·.mono h.1.2)
    · exact .inr named

/-- The classes that a signature names, in type arguments too. -/
theorem classNamed {s : Signature} {name : String} (legal : s.Legal) (named : name ∈ s.classNames) :
    ClassNamed s.spell name := by
  have types : ∀ type ∈ s.outerTypes, type.Legal maxArgumentDepth ∧ type.spell <:+: s.spell :=
    fun type mem => ⟨legal_outerTypes legal type mem, infix_spell mem⟩
  rw [classNames, List.mem_reverse] at named
  exact (mem_foldl_namesOnto _ types [] named).resolve_left List.not_mem_nil

end Signature

/-! ### Texts -/

/-- The classes that the text of a descriptor names. -/
theorem classNamed_of_descriptorClasses {text name : String} {names : List String}
    (h : descriptorClasses text = .ok names) (mem : name ∈ names) : ClassNamed text.toList name := by
  obtain ⟨d, parsed, rfl⟩ := Except.map_eq_ok_iff.1 h
  obtain ⟨e, legal⟩ := Descriptor.parse_eq_ok_iff.1 parsed
  exact e ▸ Descriptor.classNamed legal mem

/-- The classes that the text of a signature names. -/
theorem classNamed_of_signatureClasses {text name : String} {names : List String}
    (h : signatureClasses text = .ok names) (mem : name ∈ names) : ClassNamed text.toList name := by
  obtain ⟨s, parsed, rfl⟩ := Except.map_eq_ok_iff.1 h
  obtain ⟨e, legal⟩ := Signature.parse_eq_ok_iff.1 parsed
  exact e ▸ Signature.classNamed legal mem

/-- A class entry names the class that its text is, or one in the array type that its text spells. -/
theorem classNamed_of_entryClass? {text name : String} (h : entryClass? text = .ok (some name)) :
    (name = text ∧ text ≠ "" ∧ text.toList.head? ≠ some '[') ∨ ClassNamed text.toList name := by
  unfold entryClass? at h
  split at h
  · cases h
  · obtain ⟨type, parsed, named⟩ := Except.map_eq_ok_iff.1 h
    obtain ⟨e, legal⟩ := FieldType.parse_eq_ok_iff.1 parsed
    exact .inr (e ▸ FieldType.classNamed legal named)
  · next nonempty plain =>
    cases h
    refine .inl ⟨rfl, ?_, fun bracket => ?_⟩
    · rintro rfl
      exact nonempty rfl
    · cases e : text.toList with
      | nil => exact nonempty e
      | cons c tail =>
        rw [e] at bracket
        exact plain tail (by rw [e, Option.some.inj bracket])

end ClassCensus
