import ClassCensus.Mention.Site
import ClassCensus.Proofs.ClassFile.TableDepth
import ClassCensus.Proofs.ClassFile.WrittenClass

/-!
# Trees of attributes that are not too deep

A table of attributes that is read has no node below depth 255, and a table that is written with a deeper one is refused
as a whole (`Attribute.nesting_exact`).  So the walk that gathers the sites of a table can do with a bound: it never
goes down more than 256 tables, and below them not more than 256 annotations and values (`Site.ofTableWithin`).
-/

namespace ClassCensus

namespace Site

mutual

/-- The sites of an element value after the sites `found`, if the walk needs no more than `levels` levels. -/
def ofValueWithin : (levels : Nat) → (found : List Site) → ElementValue → Option (List Site)
  | 0, _, _ => none
  | levels + 1, found, value =>
    match value with
    | .const => some found
    | .enum type => some (.descriptor type :: found)
    | .classInfo type => some (.resultDescriptor type :: found)
    | .nested type elements => ofAnnotatedWithin levels found ⟨type, elements⟩
    | .array values => values.foldlM (ofValueWithin levels) found

/-- The sites of an annotation after the sites `found`, if the walk needs no more than `levels` levels. -/
def ofAnnotatedWithin : (levels : Nat) → (found : List Site) → AnnotationUse → Option (List Site)
  | 0, _, _ => none
  | levels + 1, found, use => use.elements.foldlM (ofValueWithin levels) (.descriptor use.type :: found)

end

/-- The sites of an attribute after the sites `found`, if those of its tables and of its annotations are found. -/
def ofAttributeWith (ofTable : List Site → List Attribute → Option (List Site)) (found : List Site) :
    Attribute → Option (List Site)
  | .code operands catchTypes attributes =>
    ofTable ((operands.map Site.operand ++ catchTypes.map Site.classEntry).reverse ++ found) attributes
  | .record components =>
    components.foldlM (fun found component => ofTable (.descriptor component.descriptor :: found) component.attributes)
      found
  | .annotations uses => uses.foldlM (ofAnnotatedWithin elementLevels) found
  | .annotationDefault value => ofValueWithin elementLevels found value
  | a => some (ofAttributeOnto found a)

/-- The sites of a table after the sites `found`, if the walk needs no more than `levels` levels of tables. -/
def ofTableWithin : (levels : Nat) → (found : List Site) → List Attribute → Option (List Site)
  | 0, _, _ => none
  | levels + 1, found, attributes => attributes.foldlM (ofAttributeWith (ofTableWithin levels)) found

/-! ### Bounds that are enough -/

private theorem foldlM_eq_some {α β : Type} {f : β → α → Option β} {g : β → α → β} {as : List α}
    (h : ∀ a ∈ as, ∀ b, f b a = some (g b a)) (b : β) : as.foldlM f b = some (as.foldl g b) := by
  induction as generalizing b with
  | nil => rfl
  | cons a as ih =>
    rw [List.forall_mem_cons] at h
    rw [List.foldlM_cons, h.1 b, List.foldl_cons]
    exact ih h.2 (g b a)

/-- A walk along a list, entry by entry, is a fold. -/
private theorem eq_foldl {α β : Type} {walk : β → List α → β} {g : β → α → β} (nil : ∀ b, walk b [] = b)
    (cons : ∀ b a as, walk b (a :: as) = walk (g b a) as) (b : β) (as : List α) : walk b as = as.foldl g b := by
  induction as generalizing b with
  | nil => rw [nil, List.foldl_nil]
  | cons a as ih => rw [cons, ih, List.foldl_cons]

private theorem ofValuesOnto_eq_foldl (found : List Site) (values : List ElementValue) :
    ofValuesOnto found values = values.foldl ofValueOnto found :=
  eq_foldl (fun _ => by rw [ofValuesOnto]) (fun _ _ _ => by rw [ofValuesOnto]) found values

private theorem ofAttributesOnto_eq_foldl (found : List Site) (attributes : List Attribute) :
    ofAttributesOnto found attributes = attributes.foldl ofAttributeOnto found :=
  eq_foldl (fun _ => by rw [ofAttributesOnto]) (fun _ _ _ => by rw [ofAttributesOnto]) found attributes

private theorem ofComponentsOnto_eq_foldl (found : List Site) (components : List RecordComponent) :
    ofComponentsOnto found components = components.foldl ofComponentOnto found :=
  eq_foldl (fun _ => by rw [ofComponentsOnto]) (fun _ _ _ => by rw [ofComponentsOnto]) found components

private theorem within_levels (levels : Nat) :
    (∀ d value, (∀ n ∈ ElementValue.depths d value, n < d + levels) →
      ∀ found, ofValueWithin levels found value = some (ofValueOnto found value)) ∧
    ∀ d use, (∀ n ∈ AnnotationUse.depths d use, n < d + levels) →
      ∀ found, ofAnnotatedWithin levels found use = some (ofAnnotatedOnto found use) := by
  induction levels with
  | zero =>
    constructor
    · intro d value h
      cases value <;> simp [ElementValue.depths] at h
    · intro d use h
      simp [AnnotationUse.depths] at h
  | succ levels ih =>
    have inner (d : Nat) : d + (levels + 1) = d + 1 + levels := by omega
    constructor
    · intro d value h found
      cases value with
      | const | enum | classInfo => rw [ofValueWithin, ofValueOnto]
      | nested type elements =>
        rw [ElementValue.depths, List.forall_mem_cons, inner] at h
        rw [ofValueWithin, ofValueOnto]
        exact ih.2 (d + 1) ⟨type, elements⟩ h.2 found
      | array values =>
        rw [ElementValue.depths, List.forall_mem_cons, List.forall_mem_flatMap, inner] at h
        rw [ofValueWithin, ofValueOnto, ofValuesOnto_eq_foldl]
        exact foldlM_eq_some (fun value mem => ih.1 (d + 1) value (h.2 value mem)) found
    · intro d use h found
      rw [AnnotationUse.depths, List.forall_mem_cons, List.forall_mem_flatMap, inner] at h
      rw [ofAnnotatedWithin, ofAnnotatedOnto, ofValuesOnto_eq_foldl]
      exact foldlM_eq_some (fun value mem => ih.1 (d + 1) value (h.2 value mem)) _

/-- A walk whose bounds no node passes comes to the end, with the sites of the table. -/
theorem ofTableWithin_eq {levels d : Nat} {attributes : List Attribute}
    (h : ∀ node ∈ Attribute.tableNodes d attributes, node.Within (d + levels)) (found : List Site) :
    ofTableWithin levels found attributes = some (ofAttributesOnto found attributes) := by
  induction levels generalizing d attributes found with
  | zero => simp [Attribute.tableNodes, Attribute.Node.Within] at h
  | succ levels ih =>
    have inner : d + (levels + 1) = d + 1 + levels := by omega
    rw [Attribute.tableNodes, List.forall_mem_cons, List.forall_mem_flatMap, inner] at h
    rw [ofTableWithin, ofAttributesOnto_eq_foldl]
    refine foldlM_eq_some (fun a mem found => ?_) found
    have nodes := h.2 a mem
    cases a with
    | code operands catchTypes attributes =>
      rw [Attribute.nodes] at nodes
      rw [ofAttributeWith, ofAttributeOnto]
      exact ih nodes _
    | record components =>
      rw [Attribute.nodes, List.forall_mem_flatMap] at nodes
      rw [ofAttributeWith, ofAttributeOnto, ofComponentsOnto_eq_foldl]
      refine foldlM_eq_some (fun component mem found => ?_) found
      obtain ⟨descriptor, attributes⟩ := component
      have nodes := nodes _ mem
      rw [RecordComponent.nodes] at nodes
      rw [ofComponentOnto]
      exact ih nodes _
    | annotations uses =>
      rw [Attribute.nodes, List.forall_mem_map, List.forall_mem_flatMap] at nodes
      rw [ofAttributeWith, ofAttributeOnto]
      refine foldlM_eq_some (fun use mem => (within_levels elementLevels).2 0 use ?_) found
      rw [Nat.zero_add]
      exact nodes use mem
    | annotationDefault value =>
      rw [Attribute.nodes, List.forall_mem_map] at nodes
      rw [ofAttributeWith, ofAttributeOnto]
      refine (within_levels elementLevels).1 0 value ?_ found
      rw [Nat.zero_add]
      exact nodes
    | _ => rfl

end Site

theorem Attribute.Node.within_iff {node : Attribute.Node} : node.Within (maxNestingDepth + 1) ↔ node.depth ≤ 255 := by
  cases node <;> exact Nat.lt_succ_iff

theorem WrittenAttribute.outer_fits_iff {pool : ConstantPool} {table : List WrittenAttribute} :
    (outerFormat pool).Fits table ↔ TableWellFormed pool table ∧ ∀ node ∈ tableNodes 0 table, node.depth ≤ 255 := by
  simp only [outerFormat, levelFormat, tableFormat, tableFits_iff _ 0, Nat.zero_add, Attribute.Node.within_iff]

/-- The limits of nesting are exact.

* A table that is well formed besides is accepted exactly if no table, annotation or element value in it is deeper than
  255; it is then read to its end.
* What is read has the nodes that are written.
* Whatever is read, the tree has no node that is deeper, so the walk for its sites needs no more than 256 levels of
  tables and 256 levels of values. -/
theorem Attribute.nesting_exact (pool : ConstantPool) :
    (∀ table, WrittenAttribute.TableWellFormed pool table → ∀ offset rest found after,
      tableDecoder pool ⟨offset, (WrittenAttribute.outerFormat pool).encode table ++ rest⟩ = .ok found after ↔
        (∀ node ∈ WrittenAttribute.tableNodes 0 table, node.depth ≤ 255) ∧
          found = (WrittenAttribute.outerFormat pool).view table ∧
          after = ⟨offset + ((WrittenAttribute.outerFormat pool).encode table).length, rest⟩) ∧
    (∀ table,
      tableNodes 0 ((WrittenAttribute.outerFormat pool).view table) = WrittenAttribute.tableNodes 0 table) ∧
    ∀ cursor found after, tableDecoder pool cursor = .ok found after →
      (∀ node ∈ tableNodes 0 found, node.depth ≤ 255) ∧
        ∀ sites, Site.ofTableWithin 256 sites found = some (Site.ofAttributesOnto sites found) := by
  refine ⟨fun table h => ?_, WrittenAttribute.tableNodes_view 0, ?_⟩
  · have accepted := WrittenAttribute.acceptsIff pool (maxNestingDepth + 1) h
    exact accepted.congr (WrittenAttribute.outer_fits_iff.trans (and_iff_right h))
  · intro cursor found after read
    obtain ⟨_, ⟨written, fits, -, rfl⟩, -⟩ := (reads_level pool (maxNestingDepth + 1) _ _ _).1 read
    have shallow := (WrittenAttribute.outer_fits_iff.1 fits).2
    rw [← WrittenAttribute.tableNodes_view] at shallow
    exact ⟨shallow, Site.ofTableWithin_eq (d := 0) fun node mem => Attribute.Node.within_iff.2 (shallow node mem)⟩

/-! ### Records in records -/

/-- A pool with the name of record attributes. -/
def recordPool : ConstantPool := ⟨#[.unusable, .utf8 "Record"]⟩

/-- An empty table inside of `n` record components. -/
def recordChain : Nat → List WrittenAttribute
  | 0 => []
  | n + 1 => [⟨1, .record [⟨0, 0, recordChain n⟩]⟩]

private theorem tableNodes_recordChain (n d : Nat) :
    WrittenAttribute.tableNodes d (recordChain n) = (List.range' d (n + 1)).map .table := by
  induction n generalizing d with
  | zero => rfl
  | succ n ih =>
    rw [List.range'_succ, List.map_cons, ← ih (d + 1)]
    simp [recordChain, WrittenAttribute.tableNodes, WrittenAttribute.nodes, WrittenBody.nodes, WrittenComponent.nodes]

private theorem length_recordChain (n : Nat) :
    ((recordChain n).flatMap WrittenAttribute.encode).length = 14 * n := by
  induction n with
  | zero => rfl
  | succ n ih =>
    simp only [recordChain, List.flatMap_singleton, WrittenAttribute.encode, WrittenBody.encode,
      WrittenComponent.encode, List.length_append, length_word16, length_word32, ih]
    omega

private theorem wellFormed_recordChain {n : Nat} (h : n ≤ 256) :
    WrittenAttribute.TableWellFormed recordPool (recordChain n) := by
  induction n with
  | zero => simp [recordChain, WrittenAttribute.TableWellFormed]
  | succ n ih =>
    have inner := ih (by omega)
    refine ⟨by simp [recordChain], List.forall_mem_singleton.2 ?_⟩
    rw [WrittenAttribute.wellFormed_iff, WrittenBody.WellFormed]
    refine ⟨⟨"Record", ⟨rfl, by simp⟩, WrittenBody.isNamed_iff.2 rfl⟩, ?_, by simp, List.forall_mem_singleton.2 ?_⟩
    · simp only [WrittenBody.encode, List.flatMap_singleton, WrittenComponent.encode, List.length_append, length_word16,
        length_recordChain]
      omega
    · exact WrittenAttribute.component_wellFormed_iff.2 inner

private theorem depth_recordChain_le {n limit : Nat} :
    (∀ node ∈ WrittenAttribute.tableNodes 0 (recordChain n), node.depth ≤ limit) ↔ n ≤ limit := by
  simp only [tableNodes_recordChain, List.forall_mem_map, List.mem_range'_1, Attribute.Node.depth]
  constructor
  · exact fun h => h n (by omega)
  · intro h depth mem
    omega

/-- Records in records are accepted down to depth 255; one more is refused, though the innermost table is empty. -/
theorem Attribute.nesting_exact_recordChain :
    (∃ after, tableDecoder recordPool ⟨0, (WrittenAttribute.outerFormat recordPool).encode (recordChain 255)⟩ =
      .ok ((WrittenAttribute.outerFormat recordPool).view (recordChain 255)) after) ∧
    ∀ found after, tableDecoder recordPool ⟨0, (WrittenAttribute.outerFormat recordPool).encode (recordChain 256)⟩ ≠
      .ok found after := by
  constructor
  · have deepest := (nesting_exact recordPool).1 (recordChain 255) (wellFormed_recordChain (by omega)) 0 []
    rw [List.append_nil] at deepest
    exact ⟨_, (deepest _ _).2 ⟨depth_recordChain_le.2 (by omega), rfl, rfl⟩⟩
  · intro found after read
    have deeper := (nesting_exact recordPool).1 (recordChain 256) (wellFormed_recordChain (by omega)) 0 []
    rw [List.append_nil] at deeper
    have := depth_recordChain_le.1 ((deeper _ _).1 read).1
    omega

end ClassCensus
