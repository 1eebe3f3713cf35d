import ClassCensus.Proofs.ClassFile.ValueDepth
import ClassCensus.Proofs.ClassFile.WrittenAttribute

/-!
# How deep tables of attributes are nested

The nodes of a table of attributes are the tables, the annotations and the element values in it.  A table in a method
body or in a record component is one deeper than the table around it; depths of annotations start anew in every
attribute.

* (nodes) `Attribute.tableNodes` lists the nodes of a table that is read, `WrittenAttribute.tableNodes` those of a table
  as it is written; they are the same (`WrittenAttribute.tableNodes_view`);
* (limits) `WrittenAttribute.TableWellFormed` holds what reading asks for besides (`WrittenAttribute.tableFits_iff`).

A well-formed table is accepted exactly if none of its nodes is too deep (`WrittenAttribute.acceptsIff`).
-/

namespace ClassCensus

/-- A node of a tree of attributes, with its depth. -/
inductive Attribute.Node where
  | table (depth : Nat)
  /-- An annotation or an element value. -/
  | value (depth : Nat)

namespace Attribute.Node

def depth : Attribute.Node → Nat
  | .table depth | .value depth => depth

/-- The node is a table above the limit, or an annotation or an element value of a level that is allowed. -/
def Within (limit : Nat) : Attribute.Node → Prop
  | .table depth => depth < limit
  | .value depth => depth < elementLevels

end Attribute.Node

mutual

/-- The nodes in an attribute of a table at depth `d`. -/
def Attribute.nodes (d : Nat) : Attribute → List Attribute.Node
  | .code _ _ attributes => .table (d + 1) :: attributes.flatMap (Attribute.nodes (d + 1))
  | .record components => components.flatMap (RecordComponent.nodes d)
  | .annotations uses => (uses.flatMap (AnnotationUse.depths 0)).map .value
  | .annotationDefault value => (value.depths 0).map .value
  | _ => []

/-- The nodes in a record component of an attribute of a table at depth `d`. -/
def RecordComponent.nodes (d : Nat) : RecordComponent → List Attribute.Node
  | ⟨_, attributes⟩ => .table (d + 1) :: attributes.flatMap (Attribute.nodes (d + 1))

end

/-- A table of attributes at depth `d` and the nodes in it. -/
def Attribute.tableNodes (d : Nat) (attributes : List Attribute) : List Attribute.Node :=
  .table d :: attributes.flatMap (Attribute.nodes d)

mutual

/-- The nodes in the body of an attribute of a table at depth `d`. -/
def WrittenBody.nodes (d : Nat) : WrittenBody → List Attribute.Node
  | .code _ _ _ _ attributes => .table (d + 1) :: attributes.flatMap (WrittenAttribute.nodes (d + 1))
  | .record components => components.flatMap (WrittenComponent.nodes d)
  | .annotations uses => (uses.flatMap (WrittenUse.depths 0)).map .value
  | .parameterAnnotations tables => (tables.flatten.flatMap (WrittenUse.depths 0)).map .value
  | .typeAnnotations uses => (uses.flatMap fun a => a.use.depths 0).map .value
  | .annotationDefault value => (value.depths 0).map .value
  | _ => []

/-- The nodes in an attribute of a table at depth `d`. -/
def WrittenAttribute.nodes (d : Nat) : WrittenAttribute → List Attribute.Node
  | ⟨_, body⟩ => body.nodes d

/-- The nodes in a record component of an attribute of a table at depth `d`. -/
def WrittenComponent.nodes (d : Nat) : WrittenComponent → List Attribute.Node
  | ⟨_, _, attributes⟩ => .table (d + 1) :: attributes.flatMap (WrittenAttribute.nodes (d + 1))

end

/-- A table of attributes at depth `d` and the nodes in it. -/
def WrittenAttribute.tableNodes (d : Nat) (attributes : List WrittenAttribute) : List Attribute.Node :=
  .table d :: attributes.flatMap (WrittenAttribute.nodes d)

mutual

/-- The body keeps its limits, however deep it is nested. -/
def WrittenBody.WellFormed (pool : ConstantPool) : WrittenBody → Prop
  | .code _ _ _ handlers attributes =>
    WrittenHandler.format.table.Fits handlers ∧ attributes.length < 65536 ∧ ∀ a ∈ attributes, a.WellFormed pool
  | .record components => components.length < 65536 ∧ ∀ component ∈ components, component.WellFormed pool
  | .annotations uses => uses.length < 65536 ∧ ∀ use ∈ uses, use.WellFormed
  | .parameterAnnotations tables =>
    tables.length < 256 ∧ ∀ table ∈ tables, table.length < 65536 ∧ ∀ use ∈ table, use.WellFormed
  | .typeAnnotations uses => uses.length < 65536 ∧ ∀ a ∈ uses, WrittenPlace.format.Fits a.place ∧ a.use.WellFormed
  | .annotationDefault value => value.WellFormed
  | body => body.Fits fun _ => True

/-- The attribute has the name of its kind, four bytes hold the length of its body, and the body keeps its limits,
however deep it is nested. -/
def WrittenAttribute.WellFormed (pool : ConstantPool) : WrittenAttribute → Prop
  | ⟨name, body⟩ =>
    (∃ text, pool.Holds name (.utf8 text) ∧ body.IsNamed text) ∧ body.encode.length < 4294967296 ∧ body.WellFormed pool

def WrittenComponent.WellFormed (pool : ConstantPool) : WrittenComponent → Prop
  | ⟨_, _, attributes⟩ => attributes.length < 65536 ∧ ∀ a ∈ attributes, a.WellFormed pool

end

/-- A table whose attributes keep their limits, however deep they are nested. -/
def WrittenAttribute.TableWellFormed (pool : ConstantPool) (attributes : List WrittenAttribute) : Prop :=
  attributes.length < 65536 ∧ ∀ a ∈ attributes, a.WellFormed pool

/-! ### Nothing is dropped -/

private theorem flatMap_filterMap {α β γ : Type} (f : α → Option β) (g : β → List γ) (as : List α) :
    (as.filterMap f).flatMap g = as.flatMap fun a => (f a).toList.flatMap g := by
  rw [List.filterMap_eq_flatMap_toList, List.flatMap_assoc]

mutual

private theorem nodes_body (d : Nat) (body : WrittenBody) :
    body.view.toList.flatMap (Attribute.nodes d) = body.nodes d := by
  cases body with
  | code maxStack maxLocals instructions handlers attributes =>
    simp only [WrittenBody.view, WrittenBody.nodes, Option.toList_some, List.flatMap_singleton, Attribute.nodes,
      flatMap_filterMap]
    exact congrArg (_ :: ·) (List.flatMap_congr fun a _ => nodes_attribute (d + 1) a)
  | record components =>
    simp only [WrittenBody.view, WrittenBody.nodes, Option.toList_some, List.flatMap_singleton, Attribute.nodes,
      List.flatMap_map]
    exact List.flatMap_congr fun component _ => nodes_component d component
  | annotations uses =>
    simp only [WrittenBody.view, WrittenBody.nodes, Option.toList_some, List.flatMap_singleton, Attribute.nodes,
      Format.table, WrittenUse.format, List.flatMap_map, WrittenUse.depths_view]
  | parameterAnnotations =>
    simp only [WrittenBody.view, WrittenBody.nodes, Option.toList_some, List.flatMap_singleton, Attribute.nodes,
      WrittenUse.parameterFormat, Format.table, WrittenUse.format, ← List.map_flatten, List.flatMap_map,
      WrittenUse.depths_view]
  | typeAnnotations =>
    simp only [WrittenBody.view, WrittenBody.nodes, Option.toList_some, List.flatMap_singleton, Attribute.nodes,
      Format.table, WrittenTypeUse.format, List.flatMap_map, WrittenUse.depths_view]
  | annotationDefault value =>
    simp only [WrittenBody.view, WrittenBody.nodes, Option.toList_some, List.flatMap_singleton, Attribute.nodes,
      WrittenElement.depths_view]
  | _ => simp [WrittenBody.view, WrittenBody.nodes, Attribute.nodes]

private theorem nodes_attribute (d : Nat) (a : WrittenAttribute) :
    a.view.toList.flatMap (Attribute.nodes d) = a.nodes d := by
  obtain ⟨name, body⟩ := a
  rw [WrittenAttribute.view, WrittenAttribute.nodes, nodes_body d body]

private theorem nodes_component (d : Nat) (component : WrittenComponent) :
    component.view.nodes d = component.nodes d := by
  obtain ⟨name, descriptor, attributes⟩ := component
  rw [WrittenComponent.view, WrittenComponent.nodes, RecordComponent.nodes, flatMap_filterMap]
  exact congrArg (_ :: ·) (List.flatMap_congr fun a _ => nodes_attribute (d + 1) a)

end

/-- A table that is read has the nodes that are written. -/
theorem WrittenAttribute.tableNodes_view (d : Nat) (attributes : List WrittenAttribute) :
    Attribute.tableNodes d (attributes.filterMap WrittenAttribute.view) = WrittenAttribute.tableNodes d attributes := by
  rw [Attribute.tableNodes, flatMap_filterMap]
  exact congrArg (_ :: ·) (List.flatMap_congr fun a _ => nodes_attribute d a)

/-! ### Levels -/

namespace WrittenAttribute

variable {pool : ConstantPool} {nested : List WrittenAttribute → Prop} {d limit : Nat}

theorem wellFormed_iff {a : WrittenAttribute} : a.WellFormed pool ↔
    (∃ text, pool.Holds a.name (.utf8 text) ∧ a.body.IsNamed text) ∧ a.body.encode.length < 4294967296 ∧
      a.body.WellFormed pool := by
  cases a
  rw [WellFormed]

theorem nodes_eq (a : WrittenAttribute) : a.nodes d = a.body.nodes d := by
  cases a
  rw [nodes]

theorem component_wellFormed_iff {component : WrittenComponent} :
    component.WellFormed pool ↔ TableWellFormed pool component.attributes := by
  cases component
  rw [WrittenComponent.WellFormed, TableWellFormed]

theorem component_nodes_eq (component : WrittenComponent) :
    component.nodes d = tableNodes (d + 1) component.attributes := by
  cases component
  rw [WrittenComponent.nodes, tableNodes]

/-- A table of annotations. -/
private theorem fits_uses (limit : Nat) {uses : List WrittenUse} :
    (WrittenUse.format elementLevels).table.Fits uses ↔
      (uses.length < 65536 ∧ ∀ use ∈ uses, use.WellFormed) ∧
        ∀ node ∈ (uses.flatMap (WrittenUse.depths 0)).map Attribute.Node.value, node.Within limit := by
  simp only [Format.table, WrittenUse.format, WrittenUse.fits_iff elementLevels 0, Nat.zero_add, List.forall_mem_map,
    List.forall_mem_flatMap, Attribute.Node.Within, forall₂_and, and_assoc]

private theorem fits_body (body : WrittenBody)
    (ih : ∀ table, nested table ↔ TableWellFormed pool table ∧ ∀ node ∈ tableNodes (d + 1) table, node.Within limit) :
    body.Fits nested ↔ body.WellFormed pool ∧ ∀ node ∈ body.nodes d, node.Within limit := by
  cases body with
  | code maxStack maxLocals instructions handlers attributes =>
    simp only [WrittenBody.Fits, WrittenBody.WellFormed, WrittenBody.nodes, ih, TableWellFormed, tableNodes, and_assoc]
  | record components =>
    simp only [WrittenBody.Fits, WrittenBody.WellFormed, WrittenBody.nodes, ih, component_wellFormed_iff,
      component_nodes_eq, List.forall_mem_flatMap, forall₂_and, and_assoc]
  | annotations uses => rw [WrittenBody.Fits, WrittenBody.WellFormed, WrittenBody.nodes, ← fits_uses limit]
  | parameterAnnotations tables =>
    simp only [WrittenBody.Fits, WrittenBody.WellFormed, WrittenBody.nodes, WrittenUse.parameterFormat, fits_uses limit,
      ← List.flatMap_id, List.flatMap_assoc, List.map_flatMap, List.forall_mem_flatMap, forall₂_and, and_assoc, id]
  | typeAnnotations =>
    simp only [WrittenBody.Fits, WrittenBody.WellFormed, WrittenBody.nodes, Format.table, WrittenTypeUse.format,
      WrittenUse.fits_iff elementLevels 0, Nat.zero_add, List.forall_mem_map, List.forall_mem_flatMap,
      Attribute.Node.Within, forall₂_and, and_assoc]
  | annotationDefault value =>
    simp only [WrittenBody.Fits, WrittenBody.WellFormed, WrittenBody.nodes, WrittenElement.fits_iff elementLevels 0,
      Nat.zero_add, List.forall_mem_map, Attribute.Node.Within]
  | _ => simp [WrittenBody.Fits, WrittenBody.WellFormed, WrittenBody.nodes]

/-- The levels of a table are enough exactly if no node in it is too deep. -/
theorem tableFits_iff (levels d : Nat) (attributes : List WrittenAttribute) :
    TableFits pool levels attributes ↔
      TableWellFormed pool attributes ∧ ∀ node ∈ tableNodes d attributes, node.Within (d + levels) := by
  induction levels generalizing d attributes with
  | zero => simp [TableFits, tableNodes, Attribute.Node.Within]
  | succ levels ih =>
    have outer : (Attribute.Node.table d).Within (d + (levels + 1)) := Nat.lt_add_of_pos_right (Nat.succ_pos levels)
    have inner : d + 1 + levels = d + (levels + 1) := by omega
    have bodies (body : WrittenBody) := fits_body body (ih (d + 1))
    simp only [TableFits, WrittenAttribute.Fits, TableWellFormed, tableNodes, wellFormed_iff, nodes_eq, bodies, inner,
      List.forall_mem_cons, outer, true_and, List.forall_mem_flatMap, forall₂_and, and_assoc]

/-! ### What is accepted -/

open Decoder

variable {reader : Decoder (List Attribute)}

/-- Every well-formed table is accepted exactly if it fits. -/
private def Accepts (pool : ConstantPool) (nested : List WrittenAttribute → Prop) (reader : Decoder (List Attribute)) :
    Prop :=
  ∀ table, TableWellFormed pool table →
    reader.AcceptsIff ((tableFormat nested).encode table) (nested table) ((tableFormat nested).view table)

private theorem acceptsIff_component (hn : Accepts pool nested reader) {component : WrittenComponent}
    (h : component.WellFormed pool) :
    (Attribute.componentDecoder reader).AcceptsIff component.encode (nested component.attributes) component.view := by
  obtain ⟨name, descriptor, attributes⟩ := component
  rw [component_wellFormed_iff] at h
  rw [WrittenComponent.encode, WrittenComponent.view]
  exact (reads_skip spans_word16).bind_acceptsIff (a := ()) ⟨name, rfl⟩ <| reads_u16.bind_acceptsIff rfl <|
    (hn attributes h).map (RecordComponent.mk descriptor)

private theorem acceptsIff_code (hn : Accepts pool nested reader) {maxStack maxLocals : UInt16} {code : WrittenCode}
    {handlers : List WrittenHandler} {attributes : List WrittenAttribute}
    (h : (WrittenBody.code maxStack maxLocals code handlers attributes).WellFormed pool) :
    (Attribute.codeDecoder reader).AcceptsIff (WrittenBody.code maxStack maxLocals code handlers attributes).encode
      (nested attributes) (.code code.operands ((WrittenHandler.format.table.view handlers).filter (· ≠ 0))
        (attributes.filterMap view)) := by
  rw [WrittenBody.WellFormed] at h
  rw [WrittenBody.encode]
  have length : (UInt32.ofNat code.bytes.length).toNat = code.bytes.length := UInt32.toNat_ofNat_of_lt' code.fits
  refine (reads_skip (spans_word16.append spans_word16)).bind_acceptsIff (a := ()) ⟨(maxStack, maxLocals), rfl⟩ <|
    reads_u32.bind_acceptsIff rfl <| (reads_bytes _).bind_acceptsIff ⟨rfl, length.symm⟩ <|
      bind_ofExcept_acceptsIff code.decodes <|
        reads_handler.table.bind_acceptsIff ⟨handlers, h.1, rfl, rfl⟩ ?_
  exact (hn attributes h.2).map
    (Attribute.code code.operands ((WrittenHandler.format.table.view handlers).filter (· ≠ 0)))

private theorem acceptsIff_uses {uses : List WrittenUse} (h : uses.length < 65536 ∧ ∀ use ∈ uses, use.WellFormed) :
    AnnotationUse.tableDecoder.AcceptsIff ((WrittenUse.format elementLevels).table.encode uses)
      ((WrittenUse.format elementLevels).table.Fits uses) ((WrittenUse.format elementLevels).table.view uses) :=
  AcceptsIff.table h.1 fun use mem => WrittenUse.acceptsIff elementLevels (h.2 use mem)

private theorem acceptsIff_parameters {tables : List (List WrittenUse)}
    (h : tables.length < 256 ∧ ∀ table ∈ tables, table.length < 65536 ∧ ∀ use ∈ table, use.WellFormed) :
    AnnotationUse.parameterTableDecoder.AcceptsIff ((WrittenUse.parameterFormat elementLevels).encode tables)
      ((WrittenUse.parameterFormat elementLevels).Fits tables)
      ((WrittenUse.parameterFormat elementLevels).view tables) := by
  have count : (UInt8.ofNat tables.length).toNat = tables.length := UInt8.toNat_ofNat_of_lt' h.1
  have rows := AcceptsIff.times tables fun table mem => acceptsIff_uses (h.2 table mem)
  rw [← count] at rows
  refine AcceptsIff.congr ?_ (and_iff_right h.1).symm
  show AcceptsIff _ ([UInt8.ofNat tables.length] ++ _) _ _
  exact reads_u8.bind_acceptsIff rfl (rows.map List.flatten)

private theorem acceptsIff_typeUses {uses : List WrittenTypeUse}
    (h : uses.length < 65536 ∧ ∀ a ∈ uses, WrittenPlace.format.Fits a.place ∧ a.use.WellFormed) :
    AnnotationUse.typeTableDecoder.AcceptsIff ((WrittenTypeUse.format elementLevels).table.encode uses)
      ((WrittenTypeUse.format elementLevels).table.Fits uses)
      ((WrittenTypeUse.format elementLevels).table.view uses) := by
  refine AcceptsIff.table h.1 fun a mem => ?_
  obtain ⟨place, use⟩ := h.2 a mem
  exact (reads_skipTarget.bind_acceptsIff ⟨a.place, place, rfl, rfl⟩ (WrittenUse.acceptsIff elementLevels use)).congr
    (and_iff_right place).symm

/-- The row of a body that is read as the written form of a format is. -/
private theorem acceptsIff_row {α R : Type} {F : Format R α} {d : Decoder α} {body : WrittenBody} {r : R}
    {a : Attribute} (f : α → Attribute) (hd : d.AcceptsIff (F.encode r) (F.Fits r) (F.view r))
    (hfits : body.Fits nested ↔ F.Fits r) (hencode : body.encode = F.encode r) (hview : body.view = some (f (F.view r))) (ha : body.view = some a) :
    (do return f (← d) : Decoder Attribute).AcceptsIff body.encode (body.Fits nested) a := by
  obtain rfl := Option.some.inj (hview.symm.trans ha)
  rw [hencode]
  exact (hd.map f).congr hfits.symm

private theorem acceptsIff_body (hr : reader.Reads (tableFormat nested).Spells) (hn : Accepts pool nested reader)
    {body : WrittenBody} {kind : AttributeKind} {a : Attribute} (h : body.WellFormed pool)
    (hk : body.kind? = some kind) (hv : body.view = some a) :
    (Attribute.bodyDecoder reader kind).AcceptsIff body.encode (body.Fits nested) a := by
  -- a body without nodes fits if it is well formed
  have flat (fits : body.Fits nested) :
      (Attribute.bodyDecoder reader kind).AcceptsIff body.encode (body.Fits nested) a :=
    ((reads_body hr kind).acceptsIff ⟨body, fits, hk, rfl, hv⟩).congr (iff_of_true trivial fits)
  cases body with
  | code maxStack maxLocals instructions handlers attributes =>
    cases hk
    rw [WrittenBody.view, Option.some.injEq] at hv
    have handled := h
    rw [WrittenBody.WellFormed] at handled
    exact hv ▸ (acceptsIff_code hn h).congr (and_iff_right handled.1).symm
  | record components =>
    cases hk
    rw [WrittenBody.WellFormed] at h
    have rows : (Decoder.table (Attribute.componentDecoder reader)).AcceptsIff _
        ((WrittenComponent.format nested).table.Fits components) _ :=
      AcceptsIff.table h.1 fun component mem => acceptsIff_component hn (h.2 component mem)
    refine acceptsIff_row .record rows Iff.rfl ?_ ?_ hv
    · rw [WrittenBody.encode]
      rfl
    · rw [WrittenBody.view]
      rfl
  | annotations uses =>
    cases hk
    rw [WrittenBody.WellFormed] at h
    refine acceptsIff_row .annotations (acceptsIff_uses h) Iff.rfl ?_ ?_ hv
    · rw [WrittenBody.encode]
    · rw [WrittenBody.view]
  | parameterAnnotations tables =>
    cases hk
    rw [WrittenBody.WellFormed] at h
    refine acceptsIff_row .annotations (acceptsIff_parameters h) Iff.rfl ?_ ?_ hv
    · rw [WrittenBody.encode]
    · rw [WrittenBody.view]
  | typeAnnotations uses =>
    cases hk
    rw [WrittenBody.WellFormed] at h
    refine acceptsIff_row .annotations (acceptsIff_typeUses h) Iff.rfl ?_ ?_ hv
    · rw [WrittenBody.encode]
    · rw [WrittenBody.view]
  | annotationDefault value =>
    cases hk
    rw [WrittenBody.WellFormed] at h
    refine acceptsIff_row .annotationDefault (WrittenElement.acceptsIff elementLevels h) Iff.rfl ?_ ?_ hv
    · rw [WrittenBody.encode]
    · rw [WrittenBody.view]
      rfl
  | _ =>
    rw [WrittenBody.WellFormed] at h
    · exact flat h
    all_goals simp

/-- A well-formed attribute is accepted exactly if it fits. -/
private theorem acceptsIff_entry (hr : reader.Reads (tableFormat nested).Spells) (hn : Accepts pool nested reader)
    {a : WrittenAttribute} (h : a.WellFormed pool) :
    (Attribute.entryDecoder pool reader).AcceptsIff a.encode (a.Fits pool nested) a.view := by
  obtain ⟨index, body⟩ := a
  obtain ⟨⟨name, holds, named⟩, short, wellFormed⟩ := wellFormed_iff.1 h
  have length : (UInt32.ofNat body.encode.length).toNat = body.encode.length := UInt32.toNat_ofNat_of_lt' short
  have kind := WrittenBody.isNamed_iff.1 named
  have fits : WrittenAttribute.Fits pool nested ⟨index, body⟩ ↔ body.Fits nested :=
    (and_iff_right ⟨name, holds, named⟩).trans (and_iff_right short)
  rw [encode_eq, view_eq]
  refine AcceptsIff.congr (reads_u16.bind_acceptsIff rfl <| bind_ofExcept_acceptsIff
    (ConstantPool.utf8_eq_ok_iff.2 holds) <| reads_u32.bind_acceptsIff rfl ?_) fits.symm
  refine (((reads_bytes _).acceptsIff ⟨rfl, length.symm⟩).bind_nil (q := body.Fits nested) ?_).congr
    (iff_of_eq (true_and _))
  -- nothing is taken behind the body, which is read from bytes of its own
  split
  · next unknown =>
    obtain ⟨bytes, rfl⟩ := WrittenBody.kind?_eq_none_iff.1 (kind.symm.trans unknown)
    rw [WrittenBody.view]
    exact (settles_pure none).acceptsIff
  · next known =>
    obtain ⟨a, view⟩ := WrittenBody.exists_view (kind.symm.trans known)
    rw [view]
    exact (acceptsIff_body hr hn wellFormed (kind.symm.trans known) view).whole (.inAttribute name) fun after =>
      .unusedAttributeBytes name (UInt32.ofNat body.encode.length).toNat after.offset

/-- A well-formed table is accepted exactly if the levels are enough for it; it is then read to its end, and nothing of
it is left out. -/
theorem acceptsIff (pool : ConstantPool) (levels : Nat) {attributes : List WrittenAttribute}
    (h : TableWellFormed pool attributes) :
    (Attribute.levelDecoder pool levels).AcceptsIff ((levelFormat pool levels).encode attributes)
      (TableFits pool levels attributes) (attributes.filterMap view) := by
  induction levels generalizing attributes with
  | zero =>
    intro offset rest b after
    exact iff_of_false nofun fun accepted => accepted.1
  | succ levels ih =>
    have entries : (Decoder.table (Attribute.entryDecoder pool (Attribute.levelDecoder pool levels))).AcceptsIff _
        ((WrittenAttribute.format pool (TableFits pool levels)).table.Fits attributes) _ :=
      AcceptsIff.table h.1 fun a mem => acceptsIff_entry (reads_level pool levels) (fun _ => ih) (h.2 a mem)
    have whole := entries.map (List.filterMap id)
    rw [Format.table, List.filterMap_map, Function.id_comp] at whole
    exact whole

end WrittenAttribute

end ClassCensus
