import ClassCensus.Mention.Reference
import ClassCensus.Proofs.ClassFile.AttributeTable
import ClassCensus.Proofs.ClassFile.WrittenClass

/-!
# Attributes that are put into a table

An attribute of a name that is not decoded can be put into any table of a class file, the tables inside of method bodies
and of record components included, as long as the counts and the lengths around it still fit: the same class is read.

* (holes) a `WrittenBody.Hole` is a body without one of its tables of attributes;
* (places) `WrittenAttribute.Inserts` goes down through holes to the table that gains the attribute, and
  `WrittenClass.Inserts` starts at a table of the class or of a member.
-/

namespace ClassCensus

/-- A body without one of its tables of attributes. -/
inductive WrittenBody.Hole where
  | code (maxStack maxLocals : UInt16) (instructions : WrittenCode) (handlers : List WrittenHandler)
  | component (left : List WrittenComponent) (name descriptor : UInt16) (right : List WrittenComponent)

namespace WrittenBody.Hole

/-- The body with a table of attributes in the hole. -/
def fill : Hole → List WrittenAttribute → WrittenBody
  | .code maxStack maxLocals instructions handlers, table => .code maxStack maxLocals instructions handlers table
  | .component left name descriptor right, table => .record (left ++ ⟨name, descriptor, table⟩ :: right)

variable (hole : Hole) {table table' : List WrittenAttribute}

theorem isNamed_fill {name : String} : (hole.fill table).IsNamed name ↔ (hole.fill table').IsNamed name := by
  cases hole <;> exact Iff.rfl

theorem length_encode_fill (shorter : (table.flatMap WrittenAttribute.encode).length ≤
    (table'.flatMap WrittenAttribute.encode).length) :
    (hole.fill table).encode.length ≤ (hole.fill table').encode.length := by
  cases hole with
  | code maxStack maxLocals instructions handlers =>
    simp only [fill, WrittenBody.encode, List.length_append, length_word16]
    omega
  | component left name descriptor right =>
    simp only [fill, WrittenBody.encode, WrittenComponent.encode, List.flatMap_append, List.flatMap_cons,
      List.length_append, length_word16]
    omega

theorem view_fill (same : table.filterMap WrittenAttribute.view = table'.filterMap WrittenAttribute.view) :
    (hole.fill table).view = (hole.fill table').view := by
  cases hole with
  | code maxStack maxLocals instructions handlers => simp only [fill, WrittenBody.view, same]
  | component left name descriptor right =>
    simp only [fill, WrittenBody.view, List.map_append, List.map_cons, WrittenComponent.view, same]

theorem fits_fill {nested : List WrittenAttribute → Prop} (same : nested table ↔ nested table') :
    (hole.fill table).Fits nested ↔ (hole.fill table').Fits nested := by
  cases hole with
  | code maxStack maxLocals instructions handlers => exact and_congr_right fun _ => same
  | component left name descriptor right =>
    simp only [fill, WrittenBody.Fits, List.length_append, List.length_cons, List.forall_mem_append,
      List.forall_mem_cons, same]

end WrittenBody.Hole

/-- The attribute has a name that is not decoded, and a body of any bytes that four bytes can count. -/
def WrittenAttribute.PassedOver (pool : ConstantPool) (a : WrittenAttribute) : Prop :=
  ∃ name bytes, pool.Holds a.name (.utf8 name) ∧ AttributeKind.ofName? name = none ∧ a.body = .other bytes ∧
    bytes.length < 4294967296

/-- The second table is the first one with an attribute that is passed over put into it, or into a table inside of it;
the counts and the lengths around it fit. -/
inductive WrittenAttribute.Inserts (pool : ConstantPool) : List WrittenAttribute → List WrittenAttribute → Prop where
  | here {before after : List WrittenAttribute} {a : WrittenAttribute} (passed : a.PassedOver pool)
    (few : (before ++ a :: after).length < 65536) : Inserts pool (before ++ after) (before ++ a :: after)
  | inside {before after table table' : List WrittenAttribute} {name : UInt16} {hole : WrittenBody.Hole}
    (inserts : Inserts pool table table') (short : (hole.fill table').encode.length < 4294967296) :
    Inserts pool (before ++ ⟨name, hole.fill table⟩ :: after) (before ++ ⟨name, hole.fill table'⟩ :: after)

namespace WrittenAttribute

variable {pool : ConstantPool} {table table' : List WrittenAttribute}

theorem Inserts.view_eq (h : Inserts pool table table') : table'.filterMap view = table.filterMap view := by
  induction h with
  | @here before after a passed few =>
    obtain ⟨_, bytes, -, -, body, -⟩ := passed
    have skipped : a.view = none := by rw [WrittenAttribute.view_eq, body, WrittenBody.view]
    rw [List.filterMap_append, List.filterMap_cons_none skipped, List.filterMap_append]
  | @inside before after table table' name hole _ _ ih =>
    have entry : WrittenAttribute.view ⟨name, hole.fill table'⟩ = WrittenAttribute.view ⟨name, hole.fill table⟩ := by
      rw [WrittenAttribute.view_eq, WrittenAttribute.view_eq]
      exact hole.view_fill ih
    simp only [List.filterMap_append, List.filterMap_cons, entry]

theorem length_encode (a : WrittenAttribute) : a.encode.length = 6 + a.body.encode.length := by
  rw [encode_eq, List.length_append, List.length_append, length_word16, length_word32]
  omega

theorem Inserts.length_encode_le (h : Inserts pool table table') :
    (table.flatMap encode).length ≤ (table'.flatMap encode).length := by
  induction h with
  | here passed few =>
    simp only [List.flatMap_append, List.flatMap_cons, List.length_append]
    omega
  | @inside before after table table' name hole _ _ ih =>
    have entry := hole.length_encode_fill ih
    simp only [List.flatMap_append, List.flatMap_cons, List.length_append, length_encode]
    omega

theorem PassedOver.fits {a : WrittenAttribute} (h : a.PassedOver pool) (nested : List WrittenAttribute → Prop) :
    a.Fits pool nested := by
  obtain ⟨index, body⟩ := a
  obtain ⟨name, bytes, holds, unknown, rfl, short⟩ := h
  refine ⟨⟨name, holds, WrittenBody.isNamed_iff.2 unknown⟩, ?_, trivial⟩
  rwa [WrittenBody.encode]

/-- The table with the attribute keeps its limits exactly if the table without it does. -/
theorem Inserts.tableFits_iff (h : Inserts pool table table') (levels : Nat) :
    TableFits pool levels table' ↔ TableFits pool levels table := by
  induction h generalizing levels with
  | here passed few =>
    cases levels with
    | zero => exact Iff.rfl
    | succ levels =>
      have fewer := few
      simp only [List.length_append, List.length_cons] at fewer
      simp only [TableFits, few, true_and, List.forall_mem_append, List.forall_mem_cons, passed.fits]
      refine (and_iff_right ?_).symm
      rw [List.length_append]
      omega
  | @inside before after table table' name hole inserts short ih =>
    cases levels with
    | zero => exact Iff.rfl
    | succ levels =>
      have shorter := (hole.length_encode_fill inserts.length_encode_le).trans_lt short
      have entry : WrittenAttribute.Fits pool (TableFits pool levels) ⟨name, hole.fill table'⟩ ↔
          WrittenAttribute.Fits pool (TableFits pool levels) ⟨name, hole.fill table⟩ := by
        refine and_congr (exists_congr fun _ => and_congr_right fun _ => hole.isNamed_fill) ?_
        exact and_congr (iff_of_true short shorter) (hole.fits_fill (ih levels))
      simp only [TableFits, List.length_append, List.length_cons, List.forall_mem_append, List.forall_mem_cons, entry]

end WrittenAttribute

/-- The second table of members is the first one with an attribute put into a table of one of them. -/
inductive WrittenMember.Inserts (pool : ConstantPool) : List WrittenMember → List WrittenMember → Prop where
  | inside {before after : List WrittenMember} {accessFlags name descriptor : UInt16}
    {table table' : List WrittenAttribute} (inserts : WrittenAttribute.Inserts pool table table') :
    Inserts pool (before ++ ⟨accessFlags, name, descriptor, table⟩ :: after)
      (before ++ ⟨accessFlags, name, descriptor, table'⟩ :: after)

namespace WrittenMember

variable {pool : ConstantPool} {ms ms' : List WrittenMember}

theorem Inserts.view_eq (h : Inserts pool ms ms') : (format pool).table.view ms' = (format pool).table.view ms := by
  obtain ⟨inserts⟩ := h
  have entry := inserts.view_eq
  simp only [Format.table, format, WrittenAttribute.outerFormat, WrittenAttribute.levelFormat,
    WrittenAttribute.tableFormat, List.map_append, List.map_cons, entry]

theorem Inserts.fits_iff (h : Inserts pool ms ms') : (format pool).table.Fits ms' ↔ (format pool).table.Fits ms := by
  obtain ⟨inserts⟩ := h
  have entry := inserts.tableFits_iff (maxNestingDepth + 1)
  simp only [Format.table, format, WrittenAttribute.outerFormat, WrittenAttribute.levelFormat,
    WrittenAttribute.tableFormat, List.length_append, List.length_cons, List.forall_mem_append, List.forall_mem_cons,
    entry]

end WrittenMember

namespace WrittenClass

/-- The second class is the first one with an attribute that is passed over put into one of its tables, or into a table
inside of one; the counts and the lengths around it fit. -/
inductive Inserts (c : WrittenClass) : WrittenClass → Prop where
  | attributes {table : List WrittenAttribute} (inserts : WrittenAttribute.Inserts c.pool.view c.attributes table) :
    Inserts c { c with attributes := table }
  | fields {fields : List WrittenMember} (inserts : WrittenMember.Inserts c.pool.view c.fields fields) :
    Inserts c { c with fields := fields }
  | methods {methods : List WrittenMember} (inserts : WrittenMember.Inserts c.pool.view c.methods methods) :
    Inserts c { c with methods := methods }

variable {c c' : WrittenClass}

theorem Inserts.view_eq (h : c.Inserts c') : c'.view = c.view := by
  cases h with
  | attributes inserts => exact congrArg (fun found => { c.view with attributes := found }) inserts.view_eq
  | fields inserts => exact congrArg (fun found => { c.view with fields := found }) inserts.view_eq
  | methods inserts => exact congrArg (fun found => { c.view with methods := found }) inserts.view_eq

theorem Inserts.fits_iff (h : c.Inserts c') : c'.Fits ↔ c.Fits := by
  cases h with
  | attributes inserts =>
    have entry := inserts.tableFits_iff (maxNestingDepth + 1)
    exact and_congr_right fun _ => and_congr_right fun _ => and_congr_right fun _ => and_congr_right fun _ => entry
  | fields inserts =>
    exact and_congr_right fun _ => and_congr_right fun _ => and_congr_left fun _ => inserts.fits_iff
  | methods inserts =>
    exact and_congr_right fun _ => and_congr_right fun _ => and_congr_right fun _ => and_congr_left fun _ =>
      inserts.fits_iff

/-- What is read, before and after an attribute is put in. -/
theorem Inserts.decode_eq (h : c.Inserts c') (fits : c.Fits) :
    ClassFile.decode c.encode = .ok c.view ∧ ClassFile.decode c'.encode = .ok c.view := by
  have read {d : WrittenClass} (fits : d.Fits) : ClassFile.decode d.encode = .ok d.view :=
    ClassFile.decode_eq_ok_iff_spells.2 ⟨d, fits, rfl, rfl⟩
  exact ⟨read fits, h.view_eq ▸ read (h.fits_iff.2 fits)⟩

end WrittenClass

/-- Tables of attributes are read attribute by attribute, and attributes of unknown names do not matter.

* A table of any attributes is read as each of them is read alone (`Attribute.ReadsEach`).
* An attribute of a name that is not decoded, put anywhere into such a table, changes neither what is read nor the fault
  with which the table is refused.
* Put into a class file at any depth, it leaves the limits kept or broken as they were; if they are kept, the class that
  is read and the names that it refers to are the same. -/
theorem Attribute.tables_compositional :
    (∀ (pool : ConstantPool) (levels : Nat) (as : List AttributeBytes), as.length < 65536 →
      ReadsEach pool levels as) ∧
    (∀ (pool : ConstantPool) (levels : Nat) (before after : List AttributeBytes) (a : AttributeBytes) (name : String),
      pool.Holds a.name (.utf8 name) → AttributeKind.ofName? name = none → (before ++ a :: after).length < 65536 →
      (levelDecoder pool (levels + 1)).decode (AttributeBytes.encodeTable (before ++ a :: after)) =
        (levelDecoder pool (levels + 1)).decode (AttributeBytes.encodeTable (before ++ after))) ∧
    ∀ c c' : WrittenClass, c.Inserts c' →
      (c'.Fits ↔ c.Fits) ∧ (c.Fits → ClassFile.decode c.encode = .ok c.view ∧ ClassFile.decode c'.encode = .ok c.view ∧
        classReferences c'.encode = classReferences c.encode) := by
  refine ⟨fun pool levels as few => readsEach pool levels few,
    fun pool levels before after a name holds unknown few => decode_inserted levels holds unknown few,
    fun c c' h => ⟨h.fits_iff, fun fits => ?_⟩⟩
  obtain ⟨before, after⟩ := h.decode_eq fits
  exact ⟨before, after, by rw [classReferences, classReferences, before, after]⟩

/-! ### A note in the body of a method -/

/-- A class with one method, whose body returns at once and has the given attributes; slot 2 of the pool holds a name
that is not decoded. -/
def returningClass (attributes : List WrittenAttribute) : WrittenClass where
  minorVersion := 0
  majorVersion := 52
  pool := ⟨[.utf8 ⟨[0x43, 0x6F, 0x64, 0x65], "Code", by decide +kernel, by decide⟩,
    .utf8 ⟨[0x4E, 0x6F, 0x74, 0x65], "Note", by decide +kernel, by decide⟩], by decide⟩
  accessFlags := 0
  thisClass := 0
  superclass := 0
  interfaces := []
  fields := []
  methods := [⟨0, 1, 1, [⟨1, .code 0 0 ⟨[0xB1], [], by decide +kernel, by decide⟩ [] attributes⟩]⟩]
  attributes := []

/-- An attribute of an unknown name, put into the table of a method body, is not seen. -/
theorem Attribute.tables_compositional_note :
    (returningClass []).Fits ∧ (returningClass []).Inserts (returningClass [⟨2, .other [7]⟩]) ∧
      ClassFile.decode (returningClass [⟨2, .other [7]⟩]).encode = .ok (returningClass []).view := by
  have passed : WrittenAttribute.PassedOver (returningClass []).pool.view ⟨2, .other [7]⟩ :=
    ⟨"Note", [7], ⟨rfl, by simp⟩, rfl, rfl, by decide⟩
  have inside : WrittenAttribute.Inserts (returningClass []).pool.view ([] ++ []) ([] ++ ⟨2, .other [7]⟩ :: []) :=
    .here passed (by decide)
  have inserts : (returningClass []).Inserts (returningClass [⟨2, .other [7]⟩]) := by
    refine .methods ?_
    show WrittenMember.Inserts _ ([] ++ _ :: []) ([] ++ _ :: [])
    refine .inside ?_
    show WrittenAttribute.Inserts _ ([] ++ ⟨1, WrittenBody.Hole.fill (.code 0 0 _ []) []⟩ :: [])
      ([] ++ ⟨1, WrittenBody.Hole.fill (.code 0 0 _ []) _⟩ :: [])
    refine .inside inside ?_
    simp [WrittenBody.Hole.fill, WrittenBody.encode, WrittenAttribute.encode, WrittenHandler.format, Format.table,
      word16, word32]
  have fits : (returningClass []).Fits := by
    have none : 0 < 65536 := by decide
    have one : 1 < 65536 := by decide
    have code : WrittenAttribute.TableFits (returningClass []).pool.view (maxNestingDepth + 1)
        [⟨1, .code 0 0 ⟨[0xB1], [], by decide +kernel, by decide⟩ [] []⟩] := by
      refine ⟨one, List.forall_mem_singleton.2 ⟨⟨"Code", ⟨rfl, by simp⟩, WrittenBody.isNamed_iff.2 rfl⟩, ?_, ?_⟩⟩
      · simp [WrittenBody.encode, WrittenHandler.format, Format.table, word16, word32]
      · exact ⟨⟨none, List.forall_mem_nil _⟩, none, List.forall_mem_nil _⟩
    exact ⟨by decide, none, ⟨none, List.forall_mem_nil _⟩, ⟨one, List.forall_mem_singleton.2 code⟩, none,
      List.forall_mem_nil _⟩
  exact ⟨fits, inserts, ((tables_compositional.2.2 _ _ inserts).2 fits).2.1⟩

end ClassCensus
