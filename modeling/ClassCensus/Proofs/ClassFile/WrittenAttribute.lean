import ClassCensus.ClassFile.Attribute.Decoder
import ClassCensus.Proofs.ClassFile.Lookup
import ClassCensus.Proofs.ClassFile.WrittenAnnotation

/-!
# Attributes as they are written

A `WrittenAttribute` is an attribute with everything its bytes say: the index of its name, and a `WrittenBody` with all
the fields that reading passes over.  The body of an attribute that is not decoded is any byte string.

* (names) the name of an attribute belongs to the form of its body (`WrittenBody.IsNamed`);
* (length) in front of the body stands its length, and `WrittenAttribute.Fits` says that four bytes hold it;
* (levels) `WrittenAttribute.TableFits` says how deep tables are nested.

Reading accepts exactly the written tables that keep the limits (`reads_level`).
-/

namespace ClassCensus

/-- A body of instructions, with the operands that index the constant pool. -/
structure WrittenCode where
  bytes : List UInt8
  operands : List PoolOperand
  decodes : poolOperands bytes = .ok operands
  fits : bytes.length < 4294967296

/-- A row of the table of handlers. -/
structure WrittenHandler where
  start : UInt16
  stop : UInt16
  handler : UInt16
  catchType : UInt16

/-- A row of the table of inner classes. -/
structure WrittenInnerClass where
  inner : UInt16
  outer : UInt16
  name : UInt16
  flags : UInt16

/-- A row of a table of local variables; its type is a descriptor or a signature. -/
structure WrittenVariable where
  start : UInt16
  length : UInt16
  name : UInt16
  type : UInt16
  slot : UInt16

/-- Rows of the table of handlers, of which reading keeps the type. -/
def WrittenHandler.format : Format WrittenHandler UInt16 where
  Fits _ := True
  encode row := word16 row.start ++ (word16 row.stop ++ (word16 row.handler ++ word16 row.catchType))
  view row := row.catchType

/-- Rows of the table of inner classes, of which reading keeps the inner and the outer class. -/
def WrittenInnerClass.format : Format WrittenInnerClass InnerClass where
  Fits _ := True
  encode row := word16 row.inner ++ (word16 row.outer ++ (word16 row.name ++ word16 row.flags))
  view row := ⟨row.inner, row.outer⟩

/-- Rows of a table of local variables, of which reading keeps the type. -/
def WrittenVariable.format : Format WrittenVariable UInt16 where
  Fits _ := True
  encode row :=
    word16 row.start ++ (word16 row.length ++ (word16 row.name ++ (word16 row.type ++ word16 row.slot)))
  view row := row.type

/-- Rows of the table of bootstrap methods. -/
def BootstrapMethod.format : Format BootstrapMethod BootstrapMethod where
  Fits row := Format.words.Fits row.arguments
  encode row := word16 row.method ++ Format.words.encode row.arguments
  view row := row

mutual

/-- The body of an attribute as it is written. -/
inductive WrittenBody where
  | code (maxStack maxLocals : UInt16) (code : WrittenCode) (handlers : List WrittenHandler)
    (attributes : List WrittenAttribute)
  | exceptions (classes : List UInt16)
  | signature (text : UInt16)
  | annotations (uses : List WrittenUse)
  | parameterAnnotations (tables : List (List WrittenUse))
  | typeAnnotations (uses : List WrittenTypeUse)
  | annotationDefault (value : WrittenElement)
  | innerClasses (classes : List WrittenInnerClass)
  | enclosingMethod (owner method : UInt16)
  | nestHost (host : UInt16)
  | nestMembers (classes : List UInt16)
  | permittedSubclasses (classes : List UInt16)
  | record (components : List WrittenComponent)
  | bootstrapMethods (methods : List BootstrapMethod)
  | localVariables (rows : List WrittenVariable)
  | localVariableTypes (rows : List WrittenVariable)
  /-- The body of an attribute that is not decoded. -/
  | other (bytes : List UInt8)

/-- An attribute as it is written: the index of its name, and its body. -/
structure WrittenAttribute where
  name : UInt16
  body : WrittenBody

/-- A record component as it is written. -/
structure WrittenComponent where
  name : UInt16
  descriptor : UInt16
  attributes : List WrittenAttribute

end

/-- The kind of attribute to which a body belongs, if it is decoded. -/
def WrittenBody.kind? : WrittenBody → Option AttributeKind
  | .code .. => some .code
  | .exceptions _ => some .exceptions
  | .signature _ => some .signature
  | .annotations _ => some .annotations
  | .parameterAnnotations _ => some .parameterAnnotations
  | .typeAnnotations _ => some .typeAnnotations
  | .annotationDefault _ => some .annotationDefault
  | .innerClasses _ => some .innerClasses
  | .enclosingMethod _ _ => some .enclosingMethod
  | .nestHost _ => some .nestHost
  | .nestMembers _ => some .nestMembers
  | .permittedSubclasses _ => some .permittedSubclasses
  | .record _ => some .record
  | .bootstrapMethods _ => some .bootstrapMethods
  | .localVariables _ => some .localVariables
  | .localVariableTypes _ => some .localVariableTypes
  | .other _ => none

/-- The body belongs to attributes of the name. -/
def WrittenBody.IsNamed (body : WrittenBody) (name : String) : Prop :=
  match body.kind? with
  | some kind => (name, kind) ∈ AttributeKind.names
  | none => ∀ kind, (name, kind) ∉ AttributeKind.names

mutual

/-- The bytes of the body of an attribute. -/
def WrittenBody.encode : WrittenBody → List UInt8
  | .code maxStack maxLocals code handlers attributes =>
    (word16 maxStack ++ word16 maxLocals) ++ (word32 (UInt32.ofNat code.bytes.length) ++ (code.bytes ++
      (WrittenHandler.format.table.encode handlers ++
        (word16 (UInt16.ofNat attributes.length) ++ attributes.flatMap WrittenAttribute.encode))))
  | .exceptions classes | .nestMembers classes | .permittedSubclasses classes => Format.words.encode classes
  | .signature index | .nestHost index => word16 index
  | .annotations uses => (WrittenUse.format elementLevels).table.encode uses
  | .parameterAnnotations tables => (WrittenUse.parameterFormat elementLevels).encode tables
  | .typeAnnotations uses => (WrittenTypeUse.format elementLevels).table.encode uses
  | .annotationDefault value => (WrittenElement.format elementLevels).encode value
  | .innerClasses classes => WrittenInnerClass.format.table.encode classes
  | .enclosingMethod owner method => word16 owner ++ word16 method
  | .record components =>
    word16 (UInt16.ofNat components.length) ++ components.flatMap WrittenComponent.encode
  | .bootstrapMethods methods => BootstrapMethod.format.table.encode methods
  | .localVariables rows | .localVariableTypes rows => WrittenVariable.format.table.encode rows
  | .other bytes => bytes

/-- The index of the name, the length of the body, and the body. -/
def WrittenAttribute.encode : WrittenAttribute → List UInt8
  | ⟨name, body⟩ => word16 name ++ (word32 (UInt32.ofNat body.encode.length) ++ body.encode)

def WrittenComponent.encode : WrittenComponent → List UInt8
  | ⟨name, descriptor, attributes⟩ =>
    word16 name ++ (word16 descriptor ++
      (word16 (UInt16.ofNat attributes.length) ++ attributes.flatMap WrittenAttribute.encode))

end

mutual

/-- The attribute that is read, if it is decoded. -/
def WrittenBody.view : WrittenBody → Option Attribute
  | .code _ _ code handlers attributes =>
    some (.code code.operands ((WrittenHandler.format.table.view handlers).filter (· ≠ 0))
      (attributes.filterMap WrittenAttribute.view))
  | .exceptions classes => some (.exceptions classes)
  | .signature text => some (.signature text)
  | .annotations uses => some (.annotations ((WrittenUse.format elementLevels).table.view uses))
  | .parameterAnnotations tables => some (.annotations ((WrittenUse.parameterFormat elementLevels).view tables))
  | .typeAnnotations uses => some (.annotations ((WrittenTypeUse.format elementLevels).table.view uses))
  | .annotationDefault value => some (.annotationDefault value.view)
  | .innerClasses classes => some (.innerClasses (WrittenInnerClass.format.table.view classes))
  | .enclosingMethod owner method => some (.enclosingMethod owner method)
  | .nestHost host => some (.nestHost host)
  | .nestMembers classes => some (.nestMembers classes)
  | .permittedSubclasses classes => some (.permittedSubclasses classes)
  | .record components => some (.record (components.map WrittenComponent.view))
  | .bootstrapMethods methods => some (.bootstrapMethods (BootstrapMethod.format.table.view methods))
  | .localVariables rows => some (.localVariables (WrittenVariable.format.table.view rows))
  | .localVariableTypes rows => some (.localVariableTypes (WrittenVariable.format.table.view rows))
  | .other _ => none

def WrittenAttribute.view : WrittenAttribute → Option Attribute
  | ⟨_, body⟩ => body.view

/-- The record component that is read. -/
def WrittenComponent.view : WrittenComponent → RecordComponent
  | ⟨_, descriptor, attributes⟩ => ⟨descriptor, attributes.filterMap WrittenAttribute.view⟩

end

/-- The tables of a body can be counted, and its nested tables of attributes are allowed. -/
def WrittenBody.Fits (nested : List WrittenAttribute → Prop) : WrittenBody → Prop
  | .code _ _ _ handlers attributes => WrittenHandler.format.table.Fits handlers ∧ nested attributes
  | .exceptions classes | .nestMembers classes | .permittedSubclasses classes => Format.words.Fits classes
  | .signature _ | .nestHost _ | .enclosingMethod _ _ | .other _ => True
  | .annotations uses => (WrittenUse.format elementLevels).table.Fits uses
  | .parameterAnnotations tables => (WrittenUse.parameterFormat elementLevels).Fits tables
  | .typeAnnotations uses => (WrittenTypeUse.format elementLevels).table.Fits uses
  | .annotationDefault value => value.Fits elementLevels
  | .innerClasses classes => WrittenInnerClass.format.table.Fits classes
  | .record components => components.length < 65536 ∧ ∀ component ∈ components, nested component.attributes
  | .bootstrapMethods methods => BootstrapMethod.format.table.Fits methods
  | .localVariables rows | .localVariableTypes rows => WrittenVariable.format.table.Fits rows

/-- The attribute has the name of its kind, four bytes hold the length of its body, and the body keeps its limits. -/
def WrittenAttribute.Fits (pool : ConstantPool) (nested : List WrittenAttribute → Prop) (a : WrittenAttribute) :
    Prop :=
  (∃ name, pool.Holds a.name (.utf8 name) ∧ a.body.IsNamed name) ∧ a.body.encode.length < 4294967296 ∧
    a.body.Fits nested

/-- The table and the tables in it are nested at most `levels` deep, and each keeps its limits. -/
def WrittenAttribute.TableFits (pool : ConstantPool) : (levels : Nat) → List WrittenAttribute → Prop
  | 0, _ => False
  | levels + 1, attributes =>
    attributes.length < 65536 ∧ ∀ a ∈ attributes, a.Fits pool (WrittenAttribute.TableFits pool levels)

/-- Tables of attributes for which a property stands in for the limits. -/
def WrittenAttribute.tableFormat (fits : List WrittenAttribute → Prop) :
    Format (List WrittenAttribute) (List Attribute) where
  Fits := fits
  encode attributes := word16 (UInt16.ofNat attributes.length) ++ attributes.flatMap WrittenAttribute.encode
  view attributes := attributes.filterMap WrittenAttribute.view

/-- Record components whose tables of attributes have a property. -/
def WrittenComponent.format (nested : List WrittenAttribute → Prop) : Format WrittenComponent RecordComponent where
  Fits component := nested component.attributes
  encode := WrittenComponent.encode
  view := WrittenComponent.view

/-- Attributes whose nested tables have a property. -/
def WrittenAttribute.format (pool : ConstantPool) (nested : List WrittenAttribute → Prop) :
    Format WrittenAttribute (Option Attribute) where
  Fits a := a.Fits pool nested
  encode := WrittenAttribute.encode
  view := WrittenAttribute.view

/-- Tables of attributes of at most `levels` levels. -/
def WrittenAttribute.levelFormat (pool : ConstantPool) (levels : Nat) :
    Format (List WrittenAttribute) (List Attribute) :=
  WrittenAttribute.tableFormat (WrittenAttribute.TableFits pool levels)

open Decoder

/-! ### Rows -/

theorem reads_handler : Attribute.handlerDecoder.Reads WrittenHandler.format.Spells := by
  have passed := spans_word16.append (spans_word16.append spans_word16)
  refine ((reads_skip passed).bind fun _ => reads_u16).congr fun bytes a => ?_
  constructor
  · intro h
    obtain ⟨_, _, ⟨⟨start, stop, handler⟩, rfl⟩, _, rfl, rfl⟩ := h
    exact ⟨⟨start, stop, handler, a⟩, trivial, by simp [WrittenHandler.format], rfl⟩
  · intro h
    obtain ⟨⟨start, stop, handler, type⟩, -, rfl, rfl⟩ := h
    exact ⟨_, (), ⟨⟨start, stop, handler⟩, rfl⟩, _, rfl, by simp [WrittenHandler.format]⟩

private theorem reads_innerClass : Attribute.innerClassDecoder.Reads WrittenInnerClass.format.Spells := by
  have passed := spans_word16.append spans_word16
  refine (reads_u16.bind fun inner => reads_u16.bind fun outer =>
    Reads.map (fun _ => InnerClass.mk inner outer) (reads_skip passed)).congr fun bytes a => ?_
  constructor
  · intro h
    obtain ⟨_, inner, rfl, _, ⟨_, outer, rfl, _, ⟨_, ⟨⟨name, flags⟩, rfl⟩, rfl⟩, rfl⟩, rfl⟩ := h
    exact ⟨⟨inner, outer, name, flags⟩, trivial, rfl, rfl⟩
  · intro h
    obtain ⟨⟨inner, outer, name, flags⟩, -, rfl, rfl⟩ := h
    exact ⟨_, inner, rfl, _, ⟨_, outer, rfl, _, ⟨(), ⟨⟨name, flags⟩, rfl⟩, rfl⟩, rfl⟩, rfl⟩

private theorem reads_variable : Attribute.localVariableDecoder.Reads WrittenVariable.format.Spells := by
  have passed := spans_word16.append (spans_word16.append spans_word16)
  refine ((reads_skip passed).bind fun _ => reads_u16.bind fun type =>
    Reads.map (fun _ => type) (reads_skip spans_word16)).congr fun bytes a => ?_
  constructor
  · intro h
    obtain ⟨_, _, ⟨⟨start, length, name⟩, rfl⟩, _, ⟨_, type, rfl, _, ⟨_, ⟨slot, rfl⟩, rfl⟩, rfl⟩, rfl⟩ := h
    exact ⟨⟨start, length, name, a, slot⟩, trivial, by simp [WrittenVariable.format], rfl⟩
  · intro h
    obtain ⟨⟨start, length, name, type, slot⟩, -, rfl, rfl⟩ := h
    exact ⟨_, (), ⟨⟨start, length, name⟩, rfl⟩, _, ⟨_, type, rfl, _, ⟨(), ⟨slot, rfl⟩, rfl⟩, rfl⟩,
      by simp [WrittenVariable.format]⟩

private theorem reads_bootstrapMethod : Attribute.bootstrapMethodDecoder.Reads BootstrapMethod.format.Spells := by
  refine (reads_u16.bind fun method =>
    Reads.map_spells (BootstrapMethod.mk method) reads_u16List).congr fun bytes a => ?_
  constructor
  · intro h
    obtain ⟨_, method, rfl, _, ⟨⟨arguments, fits⟩, rfl, rfl⟩, rfl⟩ := h
    exact ⟨⟨method, arguments⟩, fits, rfl, rfl⟩
  · intro h
    obtain ⟨⟨method, arguments⟩, fits, rfl, rfl⟩ := h
    exact ⟨_, method, rfl, _, ⟨⟨arguments, fits⟩, rfl, rfl⟩, rfl⟩

variable {fits : List WrittenAttribute → Prop} {nested : Decoder (List Attribute)}

private theorem reads_component (hn : nested.Reads (WrittenAttribute.tableFormat fits).Spells) :
    (Attribute.componentDecoder nested).Reads (WrittenComponent.format fits).Spells := by
  refine ((reads_skip spans_word16).bind fun _ => reads_u16.bind fun descriptor =>
    hn.map_spells (RecordComponent.mk descriptor)).congr fun bytes a => ?_
  constructor
  · intro h
    obtain ⟨_, _, ⟨name, rfl⟩, _, ⟨_, descriptor, rfl, _, ⟨⟨attributes, h⟩, rfl, rfl⟩, rfl⟩, rfl⟩ := h
    refine ⟨⟨name, descriptor, attributes⟩, h, ?_, ?_⟩
    · exact WrittenComponent.encode.eq_1 ..
    · exact WrittenComponent.view.eq_1 ..
  · intro h
    obtain ⟨⟨name, descriptor, attributes⟩, h, rfl, rfl⟩ := h
    refine ⟨_, (), ⟨name, rfl⟩, _, ⟨_, descriptor, rfl, _, ⟨⟨attributes, h⟩, rfl, ?_⟩, rfl⟩, ?_⟩
    · exact WrittenComponent.view.eq_1 ..
    · exact WrittenComponent.encode.eq_1 ..

/-! ### Bodies -/

/-- What the bodies of attributes of a kind spell. -/
def WrittenBody.SpellsKind (fits : List WrittenAttribute → Prop) (kind : AttributeKind) : Spelling Attribute :=
  fun bytes a => ∃ body : WrittenBody, body.Fits fits ∧ body.kind? = some kind ∧ bytes = body.encode ∧
    body.view = some a

/-- The bodies of a kind, if they are those that `make` makes of the written forms of a format. -/
private theorem bodyRow {kind : AttributeKind} {R α : Type} {F : Format R α} {d : Decoder α} (f : α → Attribute)
    (make : R → WrittenBody) (hd : d.Reads F.Spells) (hfits : ∀ r, (make r).Fits fits ↔ F.Fits r)
    (hencode : ∀ r, (make r).encode = F.encode r) (hview : ∀ r, (make r).view = some (f (F.view r)))
    (hkind : ∀ body : WrittenBody, body.kind? = some kind ↔ ∃ r, body = make r) :
    (do return f (← d) : Decoder Attribute).Reads (WrittenBody.SpellsKind fits kind) := by
  refine (hd.map_spells f).congr fun bytes a => ?_
  constructor
  · intro h
    obtain ⟨⟨r, hr⟩, rfl, rfl⟩ := h
    exact ⟨make r, (hfits r).2 hr, (hkind _).2 ⟨r, rfl⟩, (hencode r).symm, hview r⟩
  · intro h
    obtain ⟨body, hb, hk, rfl, hv⟩ := h
    obtain ⟨r, rfl⟩ := (hkind body).1 hk
    rw [hview] at hv
    exact ⟨⟨r, (hfits r).1 hb⟩, hencode r, (Option.some.inj hv).symm⟩

private theorem reads_code (hn : nested.Reads (WrittenAttribute.tableFormat fits).Spells) :
    (Attribute.codeDecoder nested).Reads (WrittenBody.SpellsKind fits .code) := by
  have sizes := spans_word16.append spans_word16
  refine ((reads_skip sizes).bind fun _ => reads_u32.bind fun length => (reads_bytes length.toNat).bind fun code =>
    (reads_ofExcept (poolOperands code)).bind fun operands => reads_handler.table.bind fun types =>
      hn.map_spells (Attribute.code operands (types.filter (· ≠ 0)))).congr fun bytes a => ?_
  constructor
  · intro h
    obtain ⟨_, _, ⟨⟨maxStack, maxLocals⟩, rfl⟩, _, ⟨_, length, rfl, _, ⟨_, code, ⟨rfl, hl⟩, _, ⟨_, operands, ⟨rfl,
        ho⟩, _, ⟨_, _, ⟨handlers, hh, rfl, rfl⟩, _, ⟨⟨attributes, ha⟩, rfl, rfl⟩, rfl⟩, rfl⟩, rfl⟩, rfl⟩, rfl⟩ := h
    refine ⟨.code maxStack maxLocals ⟨_, operands, ho, hl ▸ length.toNat_lt⟩ handlers attributes, ⟨hh, ha⟩, rfl, ?_, ?_⟩
    · simp [WrittenBody.encode, WrittenAttribute.tableFormat, hl]
    · simp [WrittenBody.view, WrittenAttribute.tableFormat]
  · intro h
    obtain ⟨body, hb, hk, rfl, hv⟩ := h
    obtain ⟨maxStack, maxLocals, code, handlers, attributes⟩ := body <;> cases hk
    rw [WrittenBody.view, Option.some.injEq] at hv
    refine ⟨_, (), ⟨⟨maxStack, maxLocals⟩, rfl⟩, _, ⟨_, UInt32.ofNat code.bytes.length, rfl, _,
      ⟨_, code.bytes, ⟨rfl, (UInt32.toNat_ofNat_of_lt' code.fits).symm⟩, _, ⟨_, code.operands, ⟨rfl, code.decodes⟩,
        _, ⟨_, _, ⟨handlers, hb.1, rfl, rfl⟩, _, ⟨⟨attributes, hb.2⟩, rfl, hv.symm⟩, rfl⟩, rfl⟩,
          rfl⟩, rfl⟩, ?_⟩
    simp [WrittenBody.encode, WrittenAttribute.tableFormat]

private theorem reads_enclosingMethod :
    (do return .enclosingMethod (← u16) (← u16) : Decoder Attribute).Reads
      (WrittenBody.SpellsKind fits .enclosingMethod) := by
  refine (reads_u16.bind fun owner => Reads.map (Attribute.enclosingMethod owner) reads_u16).congr fun bytes a => ?_
  constructor
  · intro h
    obtain ⟨_, owner, rfl, _, ⟨method, rfl, rfl⟩, rfl⟩ := h
    exact ⟨.enclosingMethod owner method, trivial, rfl, by rw [WrittenBody.encode], by rw [WrittenBody.view]⟩
  · intro h
    obtain ⟨body, hb, hk, rfl, hv⟩ := h
    cases body <;> cases hk
    rw [WrittenBody.view, Option.some.injEq] at hv
    exact ⟨_, _, rfl, _, ⟨_, rfl, hv.symm⟩, by rw [WrittenBody.encode]⟩

/-- Reading the body of an attribute accepts exactly the written bodies of its kind. -/
theorem reads_body (hn : nested.Reads (WrittenAttribute.tableFormat fits).Spells) (kind : AttributeKind) :
    (Attribute.bodyDecoder nested kind).Reads (WrittenBody.SpellsKind fits kind) := by
  cases kind
  case code => exact reads_code hn
  case enclosingMethod => exact reads_enclosingMethod
  case' exceptions => refine bodyRow .exceptions .exceptions reads_u16List ?_ ?_ ?_ ?_
  case' signature => refine bodyRow .signature .signature reads_word ?_ ?_ ?_ ?_
  case' annotations => refine bodyRow .annotations .annotations reads_useTable ?_ ?_ ?_ ?_
  case' parameterAnnotations => refine bodyRow .annotations .parameterAnnotations reads_parameterTable ?_ ?_ ?_ ?_
  case' typeAnnotations => refine bodyRow .annotations .typeAnnotations reads_typeUseTable ?_ ?_ ?_ ?_
  case' annotationDefault => refine bodyRow .annotationDefault .annotationDefault (reads_element _) ?_ ?_ ?_ ?_
  case' innerClasses => refine bodyRow .innerClasses .innerClasses reads_innerClass.table ?_ ?_ ?_ ?_
  case' nestHost => refine bodyRow .nestHost .nestHost reads_word ?_ ?_ ?_ ?_
  case' nestMembers => refine bodyRow .nestMembers .nestMembers reads_u16List ?_ ?_ ?_ ?_
  case' permittedSubclasses => refine bodyRow .permittedSubclasses .permittedSubclasses reads_u16List ?_ ?_ ?_ ?_
  case' record => refine bodyRow .record .record (reads_component hn).table ?_ ?_ ?_ ?_
  case' bootstrapMethods => refine bodyRow .bootstrapMethods .bootstrapMethods reads_bootstrapMethod.table ?_ ?_ ?_ ?_
  case' localVariables => refine bodyRow .localVariables .localVariables reads_variable.table ?_ ?_ ?_ ?_
  case' localVariableTypes => refine bodyRow .localVariableTypes .localVariableTypes reads_variable.table ?_ ?_ ?_ ?_
  all_goals intro r
  -- of each row there are left the limits, the bytes, the value, and that no other body is of the kind
  all_goals first
    | exact Iff.rfl
    | rw [WrittenBody.encode] <;> rfl
    | rw [WrittenBody.view] <;> rfl
    | cases r <;> simp [WrittenBody.kind?]

/-! ### Names -/

private theorem ofName?_eq_some_iff {name : String} {kind : AttributeKind} :
    AttributeKind.ofName? name = some kind ↔ (name, kind) ∈ AttributeKind.names := by
  constructor
  · intro h
    obtain ⟨before, after, e, -⟩ := List.lookup_eq_some_iff.1 h
    rw [e]
    exact List.mem_append_right before List.mem_cons_self
  · -- no name stands twice in the table
    have rows : ∀ row ∈ AttributeKind.names, AttributeKind.ofName? row.1 = some row.2 := by decide
    exact rows (name, kind)

theorem WrittenBody.isNamed_iff {body : WrittenBody} {name : String} :
    body.IsNamed name ↔ AttributeKind.ofName? name = body.kind? := by
  unfold WrittenBody.IsNamed
  cases body.kind? with
  | some kind => exact ofName?_eq_some_iff.symm
  | none =>
    simp only [← ofName?_eq_some_iff]
    exact Option.eq_none_iff_forall_ne_some.symm

theorem WrittenBody.kind?_eq_none_iff {body : WrittenBody} : body.kind? = none ↔ ∃ bytes, body = .other bytes := by
  cases body <;> simp [WrittenBody.kind?]

/-- A body of a decoded kind stands for an attribute. -/
theorem WrittenBody.exists_view {body : WrittenBody} {kind : AttributeKind} (h : body.kind? = some kind) :
    ∃ a, body.view = some a := by
  cases body with
  | other bytes => cases h
  | _ => exact ⟨_, by rw [WrittenBody.view]⟩

/-! ### Levels -/

theorem WrittenAttribute.encode_eq (a : WrittenAttribute) :
    a.encode = word16 a.name ++ (word32 (UInt32.ofNat a.body.encode.length) ++ a.body.encode) := by
  cases a
  rw [WrittenAttribute.encode]

theorem WrittenAttribute.view_eq (a : WrittenAttribute) : a.view = a.body.view := by
  cases a
  rw [WrittenAttribute.view]

/-- What the body of an attribute of a name stands for. -/
private def StandsFor (fits : List WrittenAttribute → Prop) (name : String) (bytes : List UInt8)
    (a? : Option Attribute) : Prop :=
  ∃ body : WrittenBody, body.Fits fits ∧ AttributeKind.ofName? name = body.kind? ∧ body.encode = bytes ∧ body.view = a?

private theorem reads_attribute (pool : ConstantPool) (hn : nested.Reads (WrittenAttribute.tableFormat fits).Spells) :
    (Attribute.entryDecoder pool nested).Reads (WrittenAttribute.format pool fits).Spells := by
  refine (reads_u16.bind fun index => (reads_ofExcept (pool.utf8 index)).bind fun name => reads_u32.bind fun length =>
    (reads_bytes length.toNat).bind (T := fun bytes taken a? => taken = [] ∧ StandsFor fits name bytes a?)
      fun bytes => ?_).congr fun bytes a? => ?_
  · -- the body is read from bytes of its own; nothing behind them is taken
    split
    · next h =>
      refine (Reads.pure none).congr fun taken a? => and_congr_right fun _ => ?_
      constructor
      · rintro rfl
        exact ⟨.other bytes, trivial, h, by rw [WrittenBody.encode], by rw [WrittenBody.view]⟩
      · intro hx
        obtain ⟨body, -, hk, -, rfl⟩ := hx
        obtain ⟨bytes, rfl⟩ := WrittenBody.kind?_eq_none_iff.1 (hk.symm.trans h)
        rw [WrittenBody.view]
    · next kind h =>
      refine (reads_whole (reads_body hn kind) (.inAttribute name) bytes fun after =>
        .unusedAttributeBytes name length.toNat after.offset).congr fun taken a? => and_congr_right fun _ => ?_
      constructor
      · intro hx
        obtain ⟨a, ⟨body, hb, hk, rfl, hv⟩, rfl⟩ := hx
        exact ⟨body, hb, h.trans hk.symm, rfl, hv⟩
      · intro hx
        obtain ⟨body, hb, hk, rfl, rfl⟩ := hx
        obtain ⟨a, ha⟩ := WrittenBody.exists_view (hk.symm.trans h)
        exact ⟨a, ⟨body, hb, hk.symm.trans h, rfl, ha⟩, ha⟩
  · constructor
    · intro hx
      obtain ⟨_, index, rfl, _, ⟨_, name, ⟨rfl, hn⟩, _, ⟨_, length, rfl, _, ⟨_, bytes, ⟨rfl, hl⟩, _, ⟨rfl, body, hb,
          hk, rfl, rfl⟩, rfl⟩, rfl⟩, rfl⟩, rfl⟩ := hx
      have named := WrittenBody.isNamed_iff.2 hk
      refine ⟨⟨index, body⟩, ⟨⟨name, ConstantPool.utf8_eq_ok_iff.1 hn, named⟩, hl ▸ length.toNat_lt, hb⟩, ?_,
        WrittenAttribute.view_eq _⟩
      simp [WrittenAttribute.format, WrittenAttribute.encode_eq, hl]
    · intro hx
      obtain ⟨⟨index, body⟩, ⟨⟨name, hn, hk⟩, hl, hb⟩, rfl, rfl⟩ := hx
      have kind := WrittenBody.isNamed_iff.1 hk
      have named := ConstantPool.utf8_eq_ok_iff.2 hn
      have length := (UInt32.toNat_ofNat_of_lt' hl).symm
      refine ⟨_, index, rfl, _, ⟨_, name, ⟨rfl, named⟩, _, ⟨_, UInt32.ofNat body.encode.length, rfl, _, ⟨_, body.encode,
        ⟨rfl, length⟩, _, ⟨rfl, body, hb, kind, rfl, ?_⟩, rfl⟩, rfl⟩, rfl⟩, ?_⟩
      · exact (WrittenAttribute.view_eq ⟨index, body⟩).symm
      · simp [WrittenAttribute.format, WrittenAttribute.encode_eq]

/-- Reading a table of attributes accepts exactly the written tables that are nested as deep as the levels allow. -/
theorem reads_level (pool : ConstantPool) (levels : Nat) :
    (Attribute.levelDecoder pool levels).Reads (WrittenAttribute.levelFormat pool levels).Spells := by
  induction levels with
  | zero =>
    refine (Reads.throw _).congr fun bytes as => ?_
    rw [false_iff]
    intro h
    obtain ⟨_, fits, -, -⟩ := h
    exact fits
  | succ levels ih =>
    refine ((reads_attribute pool ih).table.map_spells (List.filterMap id)).congr fun bytes as => ?_
    have views (attributes : List WrittenAttribute) : attributes.filterMap WrittenAttribute.view =
        (attributes.map WrittenAttribute.view).filterMap id := by
      rw [List.filterMap_map, Function.id_comp]
    constructor
    · intro h
      obtain ⟨⟨attributes, fits⟩, rfl, rfl⟩ := h
      exact ⟨attributes, fits, rfl, views attributes⟩
    · intro h
      obtain ⟨attributes, fits, rfl, rfl⟩ := h
      exact ⟨⟨attributes, fits⟩, rfl, views attributes⟩

end ClassCensus
