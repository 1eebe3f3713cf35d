import ClassCensus.ClassFile.ElementValue
import ClassCensus.Proofs.ClassFile.Spelling

/-!
# Annotations as they are written

A `WrittenElement` is an element value with everything its bytes say: the letter and the constant of a number or a text,
the names of enum constants and of elements.  A `WrittenTypeUse` has, before its annotation, a `WrittenTarget`
and a path, of which reading keeps nothing.  Reading accepts exactly the written forms that keep the limits, and gives
the values that they stand for (`reads_element`, `reads_use`, `reads_typeUse`).
-/

namespace ClassCensus

mutual

/-- An element value as it is written. -/
inductive WrittenElement where
  /-- A number or a text, with the letter of its type. -/
  | const (tag : UInt8) (value : UInt16)
  | enum (type name : UInt16)
  | classInfo (type : UInt16)
  | nested (use : WrittenUse)
  | array (values : List WrittenElement)

/-- An annotation as it is written. -/
structure WrittenUse where
  type : UInt16
  pairs : List WrittenPair

/-- An element with the index of its name. -/
structure WrittenPair where
  name : UInt16
  value : WrittenElement

end

/-- The tags of numbers and texts. -/
def WrittenElement.constTags : List UInt8 :=
  ['B', 'C', 'D', 'F', 'I', 'J', 'S', 'Z', 's'].map fun letter => UInt8.ofNat letter.toNat

/-- The tag in front of an element value. -/
def WrittenElement.tag : WrittenElement → UInt8
  | .const tag _ => tag
  | .enum _ _ => UInt8.ofNat 'e'.toNat
  | .classInfo _ => UInt8.ofNat 'c'.toNat
  | .nested _ => UInt8.ofNat '@'.toNat
  | .array _ => UInt8.ofNat '['.toNat

mutual

/-- The bytes after the tag of an element value. -/
def WrittenElement.fields : WrittenElement → List UInt8
  | .const _ value => word16 value
  | .enum type name => word16 type ++ word16 name
  | .classInfo type => word16 type
  | .nested use => use.encode
  | .array values => word16 (UInt16.ofNat values.length) ++ values.flatMap fun value => value.tag :: value.fields

def WrittenUse.encode : WrittenUse → List UInt8
  | ⟨type, pairs⟩ => word16 type ++ (word16 (UInt16.ofNat pairs.length) ++ pairs.flatMap WrittenPair.encode)

def WrittenPair.encode : WrittenPair → List UInt8
  | ⟨name, value⟩ => word16 name ++ (value.tag :: value.fields)

end

mutual

/-- The element value that is read. -/
def WrittenElement.view : WrittenElement → ElementValue
  | .const _ _ => .const
  | .enum type _ => .enum type
  | .classInfo type => .classInfo type
  | .nested ⟨type, pairs⟩ => .nested type (pairs.map WrittenPair.view)
  | .array values => .array (values.map WrittenElement.view)

def WrittenPair.view : WrittenPair → ElementValue
  | ⟨_, value⟩ => value.view

end

/-- The annotation that is read. -/
def WrittenUse.view (use : WrittenUse) : AnnotationUse :=
  ⟨use.type, use.pairs.map WrittenPair.view⟩

mutual

/-- The element value is nested at most `levels` deep, and its tables can be counted in two bytes. -/
def WrittenElement.Fits : (levels : Nat) → WrittenElement → Prop
  | 0, _ => False
  | levels + 1, element =>
    match element with
    | .const tag _ => tag ∈ WrittenElement.constTags
    | .enum _ _ | .classInfo _ => True
    | .nested use => use.Fits levels
    | .array values => values.length < 65536 ∧ ∀ value ∈ values, value.Fits levels

/-- The annotation is nested at most `levels` deep, and its tables can be counted in two bytes. -/
def WrittenUse.Fits : (levels : Nat) → WrittenUse → Prop
  | 0, _ => False
  | levels + 1, use => use.pairs.length < 65536 ∧ ∀ pair ∈ use.pairs, pair.value.Fits levels

end

/-- Element values of at most `levels` levels. -/
def WrittenElement.format (levels : Nat) : Format WrittenElement ElementValue where
  Fits element := element.Fits levels
  encode element := element.tag :: element.fields
  view := WrittenElement.view

/-- Annotations of at most `levels` levels. -/
def WrittenUse.format (levels : Nat) : Format WrittenUse AnnotationUse where
  Fits use := use.Fits levels
  encode := WrittenUse.encode
  view := WrittenUse.view

/-- The tables of annotations of the parameters of a method, which can be counted in one byte. -/
def WrittenUse.parameterFormat (levels : Nat) : Format (List (List WrittenUse)) (List AnnotationUse) where
  Fits tables := tables.length < 256 ∧ ∀ table ∈ tables, (WrittenUse.format levels).table.Fits table
  encode tables := UInt8.ofNat tables.length :: tables.flatMap (WrittenUse.format levels).table.encode
  view tables := (tables.map (WrittenUse.format levels).table.view).flatten

/-- The kind that the tag of an element value announces. -/
def WrittenElement.kind : WrittenElement → ElementValue.Kind
  | .const _ _ => .const
  | .enum _ _ => .enum
  | .classInfo _ => .classInfo
  | .nested _ => .nested
  | .array _ => .array

/-- The elements of an annotation, each of at most `levels` levels. -/
def WrittenPair.format (levels : Nat) : Format WrittenPair ElementValue where
  Fits pair := pair.value.Fits levels
  encode := WrittenPair.encode
  view := WrittenPair.view

/-! ### Targets -/

/-- What a type annotation is attached to, as it is written; alike targets differ in their `place`. -/
inductive WrittenTarget where
  | typeParameter (place : Fin 2) (parameter : UInt8)
  | supertype (type : UInt16)
  | typeParameterBound (place : Fin 2) (parameter bound : UInt8)
  | empty (place : Fin 3)
  | formalParameter (parameter : UInt8)
  | throws (type : UInt16)
  /-- A local variable, with the start, the length and the index of each part of its range. -/
  | localVariable (place : Fin 2) (ranges : List (UInt16 × UInt16 × UInt16))
  | catch (handler : UInt16)
  | offset (place : Fin 4) (pc : UInt16)
  | typeArgument (place : Fin 5) (pc : UInt16) (argument : UInt8)

namespace WrittenTarget

/-- The number of the tag in front of a target. -/
def number : WrittenTarget → Nat
  | .typeParameter place _ => place
  | .supertype _ => 0x10
  | .typeParameterBound place _ _ => 0x11 + place
  | .empty place => 0x13 + place
  | .formalParameter _ => 0x16
  | .throws _ => 0x17
  | .localVariable place _ => 0x40 + place
  | .catch _ => 0x42
  | .offset place _ => 0x43 + place
  | .typeArgument place _ _ => 0x47 + place

/-- The bytes of a part of the range of a local variable. -/
def encodeRange (range : UInt16 × UInt16 × UInt16) : List UInt8 :=
  word16 range.1 ++ (word16 range.2.1 ++ word16 range.2.2)

/-- The bytes after the tag of a target. -/
def fields : WrittenTarget → List UInt8
  | .typeParameter _ index | .formalParameter index => [index]
  | .supertype index | .throws index | .catch index | .offset _ index => word16 index
  | .typeParameterBound _ parameter bound => [parameter] ++ [bound]
  | .empty _ => []
  | .localVariable _ ranges => word16 (UInt16.ofNat ranges.length) ++ ranges.flatMap encodeRange
  | .typeArgument _ pc argument => word16 pc ++ [argument]

/-- The parts of the range of a local variable can be counted in two bytes. -/
def Fits : WrittenTarget → Prop
  | .localVariable _ ranges => ranges.length < 65536
  | _ => True

end WrittenTarget

/-- Where a type annotation stands: its target, and the path to a part of the type there. -/
structure WrittenPlace where
  target : WrittenTarget
  path : List (UInt8 × UInt8)

/-- The bytes of a step of a path. -/
def WrittenPlace.encodeStep (step : UInt8 × UInt8) : List UInt8 := [step.1] ++ [step.2]

/-- The bytes after the tag of a place. -/
def WrittenPlace.fields (place : WrittenPlace) : List UInt8 :=
  place.target.fields ++ (UInt8.ofNat place.path.length :: place.path.flatMap WrittenPlace.encodeStep)

/-- Places of type annotations, of which reading keeps nothing. -/
def WrittenPlace.format : Format WrittenPlace Unit where
  Fits place := place.target.Fits ∧ place.path.length < 256
  encode place := UInt8.ofNat place.target.number :: place.fields
  view _ := ()

/-- A type annotation as it is written. -/
structure WrittenTypeUse where
  place : WrittenPlace
  use : WrittenUse

/-- Type annotations of at most `levels` levels. -/
def WrittenTypeUse.format (levels : Nat) : Format WrittenTypeUse AnnotationUse where
  Fits a := WrittenPlace.format.Fits a.place ∧ a.use.Fits levels
  encode a := WrittenPlace.format.encode a.place ++ a.use.encode
  view a := a.use.view

/-! ### Parts -/

theorem WrittenElement.view_nested (use : WrittenUse) : (WrittenElement.nested use).view =
    .nested use.type (use.pairs.map WrittenPair.view) := by
  cases use
  rw [WrittenElement.view]

theorem WrittenPair.view_eq (pair : WrittenPair) : pair.view = pair.value.view := by
  cases pair
  rw [WrittenPair.view]

theorem WrittenPair.encode_eq (pair : WrittenPair) :
    pair.encode = word16 pair.name ++ (pair.value.tag :: pair.value.fields) := by
  cases pair
  rw [WrittenPair.encode]

theorem WrittenUse.encode_eq (use : WrittenUse) : use.encode = word16 use.type ++
    (word16 (UInt16.ofNat use.pairs.length) ++ use.pairs.flatMap WrittenPair.encode) := by
  cases use
  rw [WrittenUse.encode]

open Decoder

/-! ### Tags of element values -/

private theorem ofTag?_tag {levels : Nat} {element : WrittenElement} (h : element.Fits levels) :
    ElementValue.Kind.ofTag? element.tag = some element.kind := by
  obtain _ | levels := levels
  · exact absurd h (by simp [WrittenElement.Fits])
  · cases element with
    | const tag value =>
      simp only [WrittenElement.Fits, WrittenElement.constTags, List.map_cons, List.map_nil, List.mem_cons,
        List.not_mem_nil, or_false] at h
      rcases h with rfl | rfl | rfl | rfl | rfl | rfl | rfl | rfl | rfl <;> rfl
    | enum | classInfo | nested | array => rfl

/-- The tags of a kind. -/
private def tagsOf : ElementValue.Kind → List UInt8
  | .const => WrittenElement.constTags
  | .enum => [UInt8.ofNat 'e'.toNat]
  | .classInfo => [UInt8.ofNat 'c'.toNat]
  | .nested => [UInt8.ofNat '@'.toNat]
  | .array => [UInt8.ofNat '['.toNat]

private theorem mem_tagsOf {tag : UInt8} {kind : ElementValue.Kind} (h : ElementValue.Kind.ofTag? tag = some kind) :
    tag ∈ tagsOf kind := by
  rw [ElementValue.Kind.ofTag?, Option.map_eq_some_iff] at h
  obtain ⟨⟨letter, kind⟩, found, rfl⟩ := h
  have same : letter.toNat = tag.toNat := by simpa using List.find?_some found
  have mem : (letter, kind) ∈ ElementValue.kinds := List.mem_of_find?_eq_some found
  obtain rfl : tag = UInt8.ofNat letter.toNat := by rw [same, UInt8.ofNat_toNat]
  have rows : ∀ row ∈ ElementValue.kinds, UInt8.ofNat row.1.toNat ∈ tagsOf row.2 := by decide
  exact rows _ mem

/-- The row of the tags of a kind. -/
private theorem elementRow {levels : Nat} {tag : UInt8} {kind : ElementValue.Kind}
    (h : ElementValue.Kind.ofTag? tag = some kind) {Q : Type} {d : Decoder ElementValue} (make : Q → WrittenElement)
    (hd : d.Reads fun bytes a => ∃ q, bytes = (make q).fields ∧ a = (make q).view)
    (sound : ∀ q, (make q).Fits levels ∧ (make q).tag = tag)
    (complete : ∀ element : WrittenElement, element.Fits levels → element.tag = tag → element.kind = kind →
      ∃ q, element = make q) :
    d.Reads ((WrittenElement.format levels).SpellsBehind WrittenElement.tag WrittenElement.fields tag) := by
  refine Reads.behind make hd sound fun element fits ht => complete element fits ht ?_
  rw [← ht, ofTag?_tag fits] at h
  exact Option.some.inj h

/-! ### Levels -/

private theorem reads_const : (do
      skip 2
      return .const : Decoder ElementValue).Reads fun bytes a => ∃ value, bytes = word16 value ∧ a = .const := by
  refine (Reads.map (fun _ => ElementValue.const) (reads_skip spans_word16)).congr fun bytes a => ?_
  constructor
  · intro h
    obtain ⟨_, ⟨value, rfl⟩, rfl⟩ := h
    exact ⟨value, rfl, rfl⟩
  · intro h
    obtain ⟨value, rfl, rfl⟩ := h
    exact ⟨(), ⟨value, rfl⟩, rfl⟩

private theorem reads_enum : (do
      let type ← u16
      skip 2
      return .enum type : Decoder ElementValue).Reads fun bytes a =>
        ∃ q : UInt16 × UInt16, bytes = word16 q.1 ++ word16 q.2 ∧ a = .enum q.1 := by
  refine (reads_u16.bind fun type =>
    Reads.map (fun _ => ElementValue.enum type) (reads_skip spans_word16)).congr fun bytes a => ?_
  constructor
  · intro h
    obtain ⟨_, type, rfl, _, ⟨_, ⟨name, rfl⟩, rfl⟩, rfl⟩ := h
    exact ⟨(type, name), rfl, rfl⟩
  · intro h
    obtain ⟨⟨type, name⟩, rfl, rfl⟩ := h
    exact ⟨_, type, rfl, _, ⟨(), ⟨name, rfl⟩, rfl⟩, rfl⟩

variable {levels : Nat}

private theorem reads_element_succ (hv : (ElementValue.decoder levels).Reads (WrittenElement.format levels).Spells)
    (ha : (AnnotationUse.decoder levels).Reads (WrittenUse.format levels).Spells) :
    (ElementValue.decoder (levels + 1)).Reads (WrittenElement.format (levels + 1)).Spells := by
  rw [ElementValue.decoder]
  refine reads_offset_bind fun offset => Reads.tagged (fun _ => rfl) fun tag => ?_
  split
  · next h =>
    refine elementRow h (fun value => .const tag value) ?_ (fun value => ⟨?_, rfl⟩) ?_
    · exact reads_const.congr fun bytes a => by simp only [WrittenElement.fields, WrittenElement.view]
    · exact mem_tagsOf h
    · rintro element - rfl hk
      cases element <;> cases hk
      exact ⟨_, rfl⟩
  · next h =>
    refine elementRow h (fun q : UInt16 × UInt16 => .enum q.1 q.2) ?_ (fun q => ⟨?_, ?_⟩) ?_
    · exact reads_enum.congr fun bytes a => by simp only [WrittenElement.fields, WrittenElement.view]
    · simp [WrittenElement.Fits]
    · exact (List.mem_singleton.1 (mem_tagsOf h)).symm
    · rintro element - - hk
      cases element <;> cases hk
      exact ⟨(_, _), rfl⟩
  · next h =>
    refine elementRow h .classInfo ?_ (fun q => ⟨?_, ?_⟩) ?_
    · refine (Reads.map ElementValue.classInfo reads_u16).congr fun bytes a => ?_
      simp only [WrittenElement.fields, WrittenElement.view]
    · simp [WrittenElement.Fits]
    · exact (List.mem_singleton.1 (mem_tagsOf h)).symm
    · rintro element - - hk
      cases element <;> cases hk
      exact ⟨_, rfl⟩
  · next h =>
    refine elementRow h (fun q : {a : WrittenUse // a.Fits levels} => .nested q.1) ?_ (fun q => ⟨q.2, ?_⟩) ?_
    · refine (ha.map_spells fun a => ElementValue.nested a.type a.elements).congr fun bytes a => ?_
      simp only [WrittenElement.fields, WrittenElement.view_nested, WrittenUse.format, WrittenUse.view]
    · exact (List.mem_singleton.1 (mem_tagsOf h)).symm
    · rintro element fits - hk
      cases element <;> cases hk
      exact ⟨⟨_, fits⟩, rfl⟩
  · next h =>
    refine elementRow h (fun q : {values // (WrittenElement.format levels).table.Fits values} => .array q.1) ?_
      (fun q => ⟨q.2, ?_⟩) ?_
    · refine (hv.table.map_spells ElementValue.array).congr fun bytes a => ?_
      simp only [WrittenElement.fields, WrittenElement.view, WrittenElement.format, Format.table]
    · exact (List.mem_singleton.1 (mem_tagsOf h)).symm
    · rintro element fits - hk
      cases element <;> cases hk
      exact ⟨⟨_, fits⟩, rfl⟩
  · next h =>
    refine Reads.throw_behind _ fun element fits ht => ?_
    rw [← ht, ofTag?_tag fits] at h
    cases h

private theorem reads_pair (hv : (ElementValue.decoder levels).Reads (WrittenElement.format levels).Spells) :
    (do
      skip 2
      ElementValue.decoder levels : Decoder ElementValue).Reads (WrittenPair.format levels).Spells := by
  refine ((reads_skip spans_word16).bind fun _ => hv).congr fun bytes a => ?_
  constructor
  · intro h
    obtain ⟨_, _, ⟨name, rfl⟩, _, ⟨value, fits, rfl, rfl⟩, rfl⟩ := h
    exact ⟨⟨name, value⟩, fits, WrittenPair.encode_eq _, WrittenPair.view_eq _⟩
  · intro h
    obtain ⟨⟨name, value⟩, fits, rfl, rfl⟩ := h
    exact ⟨_, (), ⟨name, rfl⟩, _, ⟨value, fits, rfl, (WrittenPair.view_eq ⟨name, value⟩).symm⟩, WrittenPair.encode_eq _⟩

private theorem reads_use_succ
    (hv : (ElementValue.decoder levels).Reads (WrittenElement.format levels).Spells) :
    (AnnotationUse.decoder (levels + 1)).Reads (WrittenUse.format (levels + 1)).Spells := by
  rw [AnnotationUse.decoder]
  refine (reads_u16.bind fun type => (reads_pair hv).table.map_spells (AnnotationUse.mk type)).congr fun bytes a => ?_
  constructor
  · intro h
    obtain ⟨_, type, rfl, _, ⟨⟨pairs, fits⟩, rfl, rfl⟩, rfl⟩ := h
    exact ⟨⟨type, pairs⟩, fits, WrittenUse.encode_eq _, rfl⟩
  · intro h
    obtain ⟨⟨type, pairs⟩, fits, rfl, rfl⟩ := h
    exact ⟨_, type, rfl, _, ⟨⟨pairs, fits⟩, rfl, rfl⟩, WrittenUse.encode_eq _⟩

private theorem reads_levels (levels : Nat) :
    (ElementValue.decoder levels).Reads (WrittenElement.format levels).Spells ∧
      (AnnotationUse.decoder levels).Reads (WrittenUse.format levels).Spells := by
  -- values and annotations hold each other one level deeper, so both go through the induction together
  induction levels with
  | zero =>
    have none : ∀ {R α : Type} (F : Format R α), (∀ r, ¬ F.Fits r) → ∀ bytes a, False ↔ F.Spells bytes a := by
      rintro R α F h bytes a
      exact ⟨False.elim, fun ⟨r, fits, _⟩ => h r fits⟩
    constructor
    · rw [ElementValue.decoder]
      exact reads_offset_bind fun offset => (Reads.throw _).congr (none _ fun _ h => h)
    · rw [AnnotationUse.decoder]
      exact reads_offset_bind fun offset => (Reads.throw _).congr (none _ fun _ h => h)
  | succ levels ih => exact ⟨reads_element_succ ih.1 ih.2, reads_use_succ ih.1⟩

/-- Reading an element value accepts exactly the written ones that are nested as deep as the levels allow. -/
theorem reads_element (levels : Nat) : (ElementValue.decoder levels).Reads (WrittenElement.format levels).Spells :=
  (reads_levels levels).1

/-- Reading an annotation accepts exactly the written ones that are nested as deep as the levels allow. -/
theorem reads_use (levels : Nat) :
    (AnnotationUse.decoder levels).Reads (WrittenUse.format levels).Spells :=
  (reads_levels levels).2

/-! ### Places of type annotations -/

private theorem number_lt (target : WrittenTarget) : target.number < 256 := by
  cases target <;> simp only [WrittenTarget.number] <;> omega

/-- Passes over the path after a target. -/
private abbrev skipPath : Decoder Unit := do
  let pathLength ← u8
  skip (pathLength.toNat * 2)

private theorem reads_path : skipPath.Reads fun bytes _ => ∃ path : List (UInt8 × UInt8), path.length < 256 ∧
    bytes = UInt8.ofNat path.length :: path.flatMap WrittenPlace.encodeStep := by
  have steps := (spans_byte.append spans_byte).flatMap
  refine (reads_u8.bind fun length => reads_skip (steps length.toNat)).congr fun bytes _ => ?_
  constructor
  · intro h
    obtain ⟨_, length, rfl, _, ⟨⟨path, h⟩, rfl⟩, rfl⟩ := h
    exact ⟨path, h ▸ length.toNat_lt, by rw [h, UInt8.ofNat_toNat]; rfl⟩
  · intro h
    obtain ⟨path, h, rfl⟩ := h
    exact ⟨_, UInt8.ofNat path.length, rfl, _, ⟨⟨path, (UInt8.toNat_ofNat_of_lt' h).symm⟩, rfl⟩, rfl⟩

/-- The places whose targets have the tag `t`, by the bytes after the tag. -/
private abbrev SpellsPlace (t : UInt8) : Spelling Unit :=
  WrittenPlace.format.SpellsBehind (fun place => UInt8.ofNat place.target.number) WrittenPlace.fields t

variable {t : UInt8}

/-- A row of targets, all with the tag `t`, and the path after the target. -/
private theorem targetRow {Q : Type} {d : Decoder Unit} (make : Q → WrittenTarget)
    (hd : d.Reads fun bytes _ => ∃ q, bytes = (make q).fields)
    (sound : ∀ q, (make q).Fits ∧ (make q).number = t.toNat)
    (complete : ∀ target : WrittenTarget, target.Fits → target.number = t.toNat → ∃ q, target = make q) :
    (d >>= fun _ => skipPath).Reads (SpellsPlace t) := by
  refine (hd.bind fun _ => reads_path).congr fun bytes _ => ?_
  constructor
  · intro h
    obtain ⟨_, _, ⟨q, rfl⟩, _, ⟨path, h, rfl⟩, rfl⟩ := h
    exact ⟨⟨make q, path⟩, ⟨(sound q).1, h⟩, by simp only [(sound q).2, UInt8.ofNat_toNat], rfl, rfl⟩
  · intro h
    obtain ⟨⟨target, path⟩, ⟨fits, h⟩, rfl, rfl, -⟩ := h
    obtain ⟨q, rfl⟩ := complete target fits (UInt8.toNat_ofNat_of_lt' (number_lt target)).symm
    exact ⟨_, (), ⟨q, rfl⟩, _, ⟨path, h, rfl⟩, rfl⟩

private theorem reads_skip_fields {R : Type} {encode : R → List UInt8} {n : Nat} (h : Spans encode n) :
    (skip n).Reads fun taken _ => ∃ r, taken = encode r :=
  (reads_skip h).congr fun taken _ => by simp only [eq_comm]

/-- Targets of one byte. -/
private theorem reads_byteTarget (h : t.toNat ≤ 0x01 ∨ t.toNat = 0x16) :
    (skip 1 >>= fun _ => skipPath).Reads (SpellsPlace t) := by
  rcases h with h | h
  · refine targetRow (.typeParameter ⟨t.toNat, by omega⟩) (reads_skip_fields spans_byte) (fun q => ⟨trivial, rfl⟩) ?_
    intro target _ e
    cases target <;> simp only [WrittenTarget.number] at e <;> try omega
    exact ⟨_, congrArg (WrittenTarget.typeParameter · _) (Fin.ext e)⟩
  · refine targetRow .formalParameter (reads_skip_fields spans_byte) (fun q => ⟨trivial, h.symm⟩) ?_
    intro target _ e
    cases target <;> simp only [WrittenTarget.number] at e <;> try omega
    exact ⟨_, rfl⟩

/-- Targets of two bytes: an index, or two numbers of a byte each. -/
private theorem reads_wordTarget
    (h : (0x10 ≤ t.toNat ∧ t.toNat ≤ 0x12) ∨ t.toNat = 0x17 ∨ (0x42 ≤ t.toNat ∧ t.toNat ≤ 0x46)) :
    (skip 2 >>= fun _ => skipPath).Reads (SpellsPlace t) := by
  have rows : t.toNat = 0x10 ∨ (0x11 ≤ t.toNat ∧ t.toNat ≤ 0x12) ∨ t.toNat = 0x17 ∨ t.toNat = 0x42 ∨
      (0x43 ≤ t.toNat ∧ t.toNat ≤ 0x46) := by omega
  rcases rows with h | h | h | h | h
  · refine targetRow .supertype (reads_skip_fields spans_word16) (fun q => ⟨trivial, h.symm⟩) ?_
    intro target _ e
    cases target <;> simp only [WrittenTarget.number] at e <;> try omega
    exact ⟨_, rfl⟩
  · refine targetRow (fun q : UInt8 × UInt8 => .typeParameterBound ⟨t.toNat - 0x11, by omega⟩ q.1 q.2)
      (reads_skip_fields (spans_byte.append spans_byte)) (fun q => ⟨trivial, Nat.add_sub_cancel' h.1⟩) ?_
    intro target _ e
    cases target <;> simp only [WrittenTarget.number] at e <;> try omega
    exact ⟨(_, _), congrArg (WrittenTarget.typeParameterBound · _ _) (Fin.ext (Nat.eq_sub_of_add_eq' e))⟩
  · refine targetRow .throws (reads_skip_fields spans_word16) (fun q => ⟨trivial, h.symm⟩) ?_
    intro target _ e
    cases target <;> simp only [WrittenTarget.number] at e <;> try omega
    exact ⟨_, rfl⟩
  · refine targetRow .catch (reads_skip_fields spans_word16) (fun q => ⟨trivial, h.symm⟩) ?_
    intro target _ e
    cases target <;> simp only [WrittenTarget.number] at e <;> try omega
    exact ⟨_, rfl⟩
  · refine targetRow (.offset ⟨t.toNat - 0x43, by omega⟩) (reads_skip_fields spans_word16)
      (fun q => ⟨trivial, Nat.add_sub_cancel' h.1⟩) ?_
    intro target _ e
    cases target <;> simp only [WrittenTarget.number] at e <;> try omega
    exact ⟨_, congrArg (WrittenTarget.offset · _) (Fin.ext (Nat.eq_sub_of_add_eq' e))⟩

/-- Targets of no bytes. -/
private theorem reads_emptyTarget (h : 0x13 ≤ t.toNat ∧ t.toNat ≤ 0x15) :
    (pure () >>= fun _ => skipPath).Reads (SpellsPlace t) := by
  refine targetRow (fun _ : Unit => .empty ⟨t.toNat - 0x13, by omega⟩)
    ((Reads.pure ()).congr fun bytes _ => ?_) (fun q => ⟨trivial, Nat.add_sub_cancel' h.1⟩) ?_
  · simp [WrittenTarget.fields]
  · intro target _ e
    cases target <;> simp only [WrittenTarget.number] at e <;> try omega
    exact ⟨(), congrArg WrittenTarget.empty (Fin.ext (Nat.eq_sub_of_add_eq' e))⟩

private theorem reads_ranges : (do
      skip ((← u16).toNat * 6)).Reads fun bytes _ =>
        ∃ q : {q : List (UInt16 × UInt16 × UInt16) // q.length < 65536},
          bytes = word16 (UInt16.ofNat q.1.length) ++ q.1.flatMap WrittenTarget.encodeRange := by
  have ranges := (spans_word16.append (spans_word16.append spans_word16)).flatMap
  refine (reads_u16.bind fun count => reads_skip (ranges count.toNat)).congr fun bytes _ => ?_
  constructor
  · intro h
    obtain ⟨_, count, rfl, _, ⟨⟨q, h⟩, rfl⟩, rfl⟩ := h
    exact ⟨⟨q, h ▸ count.toNat_lt⟩, by simp only [h, UInt16.ofNat_toNat]; rfl⟩
  · intro h
    obtain ⟨⟨q, h⟩, rfl⟩ := h
    exact ⟨_, UInt16.ofNat q.length, rfl, _, ⟨⟨q, (UInt16.toNat_ofNat_of_lt' h).symm⟩, rfl⟩, rfl⟩

/-- Targets with a counted list of ranges. -/
private theorem reads_rangesTarget (h : t.toNat = 0x40 ∨ t.toNat = 0x41) :
    ((do skip ((← u16).toNat * 6)) >>= fun _ => skipPath).Reads (SpellsPlace t) := by
  refine targetRow (fun q : {q : List (UInt16 × UInt16 × UInt16) // q.length < 65536} =>
    .localVariable ⟨t.toNat - 0x40, by omega⟩ q.1) reads_ranges (fun q => ⟨q.2, ?_⟩) ?_
  · exact Nat.add_sub_cancel' (by omega)
  · intro target fits e
    cases target <;> simp only [WrittenTarget.number] at e <;> try omega
    exact ⟨⟨_, fits⟩, congrArg (WrittenTarget.localVariable · _) (Fin.ext (Nat.eq_sub_of_add_eq' e))⟩

/-- Targets of three bytes. -/
private theorem reads_argumentTarget (h : 0x47 ≤ t.toNat ∧ t.toNat ≤ 0x4B) :
    (skip 3 >>= fun _ => skipPath).Reads (SpellsPlace t) := by
  refine targetRow (fun q : UInt16 × UInt8 => .typeArgument ⟨t.toNat - 0x47, by omega⟩ q.1 q.2)
    (reads_skip_fields (spans_word16.append spans_byte)) (fun q => ⟨trivial, Nat.add_sub_cancel' h.1⟩) ?_
  intro target _ e
  cases target <;> simp only [WrittenTarget.number] at e <;> try omega
  exact ⟨(_, _), congrArg (WrittenTarget.typeArgument · _ _) (Fin.ext (Nat.eq_sub_of_add_eq' e))⟩

theorem reads_skipTarget : AnnotationUse.skipTarget.Reads WrittenPlace.format.Spells := by
  refine reads_offset_bind fun offset => Reads.tagged (fun _ => rfl) fun t => ?_
  simp only [UInt8.le_iff_toNat_le, ← UInt8.toNat_inj, UInt8.reduceToNat]
  split
  · next h => exact reads_byteTarget h
  split
  · next h => exact reads_wordTarget h
  split
  · next h => exact reads_emptyTarget h
  split
  · next h =>
    rw [← bind_assoc]
    exact reads_rangesTarget h
  split
  · next h => exact reads_argumentTarget h
  · -- no target has any other tag
    refine Reads.throw_behind (FormatError.unknownTypeTarget t offset) fun place _ e => ?_
    have e : place.target.number = t.toNat := by rw [← e, UInt8.toNat_ofNat_of_lt' (number_lt _)]
    generalize place.target = target at e
    cases target <;> simp only [WrittenTarget.number] at e <;> omega

/-- Reading a type annotation accepts exactly the written ones that are nested as deep as the levels allow. -/
theorem reads_typeUse (levels : Nat) : (do
      AnnotationUse.skipTarget
      AnnotationUse.decoder levels : Decoder AnnotationUse).Reads (WrittenTypeUse.format levels).Spells := by
  refine (reads_skipTarget.bind fun _ => reads_use levels).congr fun bytes a => ?_
  constructor
  · intro h
    obtain ⟨_, _, ⟨place, hp, rfl, -⟩, _, ⟨use, ha, rfl, rfl⟩, rfl⟩ := h
    exact ⟨⟨place, use⟩, ⟨hp, ha⟩, rfl, rfl⟩
  · intro h
    obtain ⟨⟨place, use⟩, ⟨hp, ha⟩, rfl, rfl⟩ := h
    exact ⟨_, (), ⟨place, hp, rfl, rfl⟩, _, ⟨use, ha, rfl, rfl⟩, rfl⟩

/-! ### Tables -/

theorem reads_useTable :
    AnnotationUse.tableDecoder.Reads (WrittenUse.format elementLevels).table.Spells :=
  (reads_use elementLevels).table

theorem reads_typeUseTable :
    AnnotationUse.typeTableDecoder.Reads (WrittenTypeUse.format elementLevels).table.Spells :=
  (reads_typeUse elementLevels).table

theorem reads_parameterTable :
    AnnotationUse.parameterTableDecoder.Reads (WrittenUse.parameterFormat elementLevels).Spells := by
  refine (reads_u8.bind fun count =>
    (reads_useTable.times count.toNat).map_spells List.flatten).congr fun bytes as => ?_
  constructor
  · intro h
    obtain ⟨_, count, rfl, _, ⟨⟨tables, h, fits⟩, rfl, rfl⟩, rfl⟩ := h
    refine ⟨tables, ⟨h ▸ count.toNat_lt, fits⟩, ?_, rfl⟩
    simp [WrittenUse.parameterFormat, Format.repeated, h]
  · intro h
    obtain ⟨tables, ⟨h, fits⟩, rfl, rfl⟩ := h
    exact ⟨_, UInt8.ofNat tables.length, rfl, _, ⟨⟨tables, (UInt8.toNat_ofNat_of_lt' h).symm, fits⟩, rfl, rfl⟩, rfl⟩

end ClassCensus
