import ClassCensus.Proofs.Mention.Correspondence
import Mathlib.Logic.Equiv.Defs

/-!
# References do not depend on slot numbers

A `Renumbering` moves the entries of a constant pool to other slots.  If every index of a class file follows, in the
constants themselves and at any depth of attributes, annotations and element values, the references stay the same
(`ClassFile.references_renumber`).

* (absence) slot 0 stays in its place, so an index 0 that stands for nothing still stands for nothing;
* (faults) a class file without references has none after the renumbering either, and the fault is the same up to the
  numbers in it (`ClassFile.Corresponds.references_eq`).
-/

namespace ClassCensus

/-- A permutation of the slots of a pool with `size` slots, which leaves slot 0 and the indices of no slot alone. -/
structure Renumbering (size : Nat) where
  perm : Equiv.Perm UInt16
  zero : perm 0 = 0
  outside : ∀ i, size ≤ i.toNat → perm i = i

namespace Renumbering

variable {size : Nat}

instance : CoeFun (Renumbering size) fun _ => UInt16 → UInt16 :=
  ⟨fun s => s.perm⟩

theorem eq_zero_iff (s : Renumbering size) {i : UInt16} : s i = 0 ↔ i = 0 := by
  constructor
  · exact fun h => s.perm.injective (h.trans s.zero.symm)
  · rintro rfl
    exact s.zero

theorem toNat_lt_iff (s : Renumbering size) {i : UInt16} : (s i).toNat < size ↔ i.toNat < size := by
  constructor
  · intro h
    by_contra out
    rw [s.outside i (Nat.le_of_not_lt out)] at h
    exact out h
  · intro h
    by_contra out
    have moved : s i = i := s.perm.injective (s.outside (s i) (Nat.le_of_not_lt out))
    rw [moved] at out
    exact out h

/-- The slot whose entry moves to `slot`; slots beyond the range of indices keep theirs. -/
def source (s : Renumbering size) (slot : Nat) : Nat :=
  if slot < 65536 then (s.perm.symm (UInt16.ofNat slot)).toNat else slot

theorem source_lt (s : Renumbering size) {slot : Nat} (h : slot < size) : s.source slot < size := by
  unfold source
  split
  · next small =>
    rw [← s.toNat_lt_iff, Equiv.apply_symm_apply, UInt16.toNat_ofNat_of_lt' small]
    exact h
  · exact h

theorem source_toNat (s : Renumbering size) (i : UInt16) : s.source (s i).toNat = i.toNat := by
  rw [source, if_pos (s i).toNat_lt, UInt16.ofNat_toNat, Equiv.symm_apply_apply]

end Renumbering

/-! ### The constant pool -/

namespace ConstantPool

/-- The pool with every entry moved to its new slot and the links in it renumbered. -/
def renumber (pool : ConstantPool) (s : Renumbering pool.size) : ConstantPool where
  entries := Array.ofFn fun slot : Fin pool.size =>
    have inside : s.source slot < pool.entries.size := s.source_lt slot.isLt
    pool.entries[s.source slot].renumber s

variable {pool : ConstantPool}

@[simp] theorem size_renumber (s : Renumbering pool.size) : (pool.renumber s).size = pool.size := by
  simp [renumber, size]

/-- The entry in slot `i` is found in slot `s i`. -/
theorem getElem?_renumber (s : Renumbering pool.size) (i : UInt16) :
    (pool.renumber s).entries[(s i).toNat]? = pool.entries[i.toNat]?.map (Constant.renumber s) := by
  by_cases h : i.toNat < pool.size
  · have moved := s.toNat_lt_iff.2 h
    have here : i.toNat < pool.entries.size := h
    simp only [renumber, Array.getElem?_ofFn, moved, dif_pos, s.source_toNat, Array.getElem?_eq_getElem here,
      Option.map_some]
  · have moved : ¬ (s i).toNat < pool.size := fun moved => h (s.toNat_lt_iff.1 moved)
    have here : pool.entries[i.toNat]? = none := Array.getElem?_eq_none (Nat.le_of_not_lt h)
    simp only [renumber, Array.getElem?_ofFn, moved, dif_neg, not_false_eq_true, here, Option.map_none]

theorem corresponds_renumber (s : Renumbering pool.size) :
    pool.Corresponds (pool.renumber s) s fun _ => True where
  get_eq := by
    intro i _
    rw [get, get, getElem?_renumber, size_renumber]
    cases pool.entries[i.toNat]? with
    | none => rfl
    | some entry => cases entry <;> rfl
  closed _ _ _ _ _ _ := trivial

end ConstantPool

/-! ### Indices in annotations and attributes -/

mutual

/-- The element value with its indices renumbered. -/
def ElementValue.renumber (s : UInt16 → UInt16) : ElementValue → ElementValue
  | .const => .const
  | .enum type => .enum (s type)
  | .classInfo type => .classInfo (s type)
  | .nested type elements => .nested (s type) (renumberValues s elements)
  | .array values => .array (renumberValues s values)

/-- The element values with their indices renumbered. -/
def renumberValues (s : UInt16 → UInt16) : List ElementValue → List ElementValue
  | [] => []
  | value :: values => value.renumber s :: renumberValues s values

end

/-- The annotation with its indices renumbered. -/
def AnnotationUse.renumber (s : UInt16 → UInt16) (use : AnnotationUse) : AnnotationUse :=
  ⟨s use.type, renumberValues s use.elements⟩

/-- The row with its indices renumbered. -/
def InnerClass.renumber (s : UInt16 → UInt16) (row : InnerClass) : InnerClass :=
  ⟨s row.inner, s row.outer⟩

/-- The row with its indices renumbered. -/
def BootstrapMethod.renumber (s : UInt16 → UInt16) (row : BootstrapMethod) : BootstrapMethod :=
  ⟨s row.method, row.arguments.map s⟩

/-- The operand with its index renumbered. -/
def PoolOperand.renumber (s : UInt16 → UInt16) (o : PoolOperand) : PoolOperand :=
  { o with index := s o.index }

mutual

/-- The attribute with its indices renumbered, at any depth. -/
def Attribute.renumber (s : UInt16 → UInt16) : Attribute → Attribute
  | .code operands catchTypes attributes =>
    .code (operands.map (PoolOperand.renumber s)) (catchTypes.map s) (renumberAttributes s attributes)
  | .exceptions classes => .exceptions (classes.map s)
  | .signature text => .signature (s text)
  | .annotations uses => .annotations (uses.map (AnnotationUse.renumber s))
  | .annotationDefault value => .annotationDefault (value.renumber s)
  | .innerClasses classes => .innerClasses (classes.map (InnerClass.renumber s))
  | .enclosingMethod owner method => .enclosingMethod (s owner) (s method)
  | .nestHost host => .nestHost (s host)
  | .nestMembers classes => .nestMembers (classes.map s)
  | .permittedSubclasses classes => .permittedSubclasses (classes.map s)
  | .record components => .record (renumberComponents s components)
  | .bootstrapMethods methods => .bootstrapMethods (methods.map (BootstrapMethod.renumber s))
  | .localVariables descriptors => .localVariables (descriptors.map s)
  | .localVariableTypes signatures => .localVariableTypes (signatures.map s)

/-- The attributes with their indices renumbered. -/
def renumberAttributes (s : UInt16 → UInt16) : List Attribute → List Attribute
  | [] => []
  | a :: rest => a.renumber s :: renumberAttributes s rest

/-- The record components with their indices renumbered. -/
def renumberComponents (s : UInt16 → UInt16) : List RecordComponent → List RecordComponent
  | [] => []
  | component :: components => component.renumber s :: renumberComponents s components

/-- The record component with its indices renumbered. -/
def RecordComponent.renumber (s : UInt16 → UInt16) : RecordComponent → RecordComponent
  | ⟨descriptor, attributes⟩ => ⟨s descriptor, renumberAttributes s attributes⟩

end

/-- The member with its indices renumbered. -/
def Member.renumber (s : UInt16 → UInt16) (m : Member) : Member :=
  { m with name := s m.name, descriptor := s m.descriptor, attributes := renumberAttributes s m.attributes }

/-- The class file with its entries moved and every index renumbered. -/
def ClassFile.renumber (c : ClassFile) (s : Renumbering c.pool.size) : ClassFile :=
  { c with
    pool := c.pool.renumber s
    thisClass := s c.thisClass
    superclass? := c.superclass?.map s
    interfaces := c.interfaces.map s
    fields := c.fields.map (Member.renumber s)
    methods := c.methods.map (Member.renumber s)
    attributes := renumberAttributes s c.attributes }

/-! ### Sites follow -/

namespace Site

variable {s : UInt16 → UInt16}

mutual

private theorem ofValueOnto_renumber (found : List Site) (v : ElementValue) :
    ofValueOnto (found.map (Site.renumber s)) (v.renumber s) = (ofValueOnto found v).map (Site.renumber s) := by
  cases v with
  | const => rfl
  | enum type => rfl
  | classInfo type => rfl
  | nested type elements => exact ofValuesOnto_renumber (.descriptor type :: found) elements
  | array values => exact ofValuesOnto_renumber found values

private theorem ofValuesOnto_renumber (found : List Site) (values : List ElementValue) :
    ofValuesOnto (found.map (Site.renumber s)) (renumberValues s values) =
      (ofValuesOnto found values).map (Site.renumber s) := by
  cases values with
  | nil => rfl
  | cons v values =>
    rw [renumberValues, ofValuesOnto, ofValuesOnto, ofValueOnto_renumber]
    exact ofValuesOnto_renumber (ofValueOnto found v) values

end

private theorem foldl_ofAnnotatedOnto_renumber (found : List Site) (uses : List AnnotationUse) :
    (uses.map (AnnotationUse.renumber s)).foldl ofAnnotatedOnto (found.map (Site.renumber s)) =
      (uses.foldl ofAnnotatedOnto found).map (Site.renumber s) := by
  induction uses generalizing found with
  | nil => rfl
  | cons use uses ih =>
    have first : ofAnnotatedOnto (found.map (Site.renumber s)) (use.renumber s) =
        (ofAnnotatedOnto found use).map (Site.renumber s) :=
      ofValuesOnto_renumber (.descriptor use.type :: found) use.elements
    rw [List.map_cons, List.foldl_cons, List.foldl_cons, first, ih]

/-- Sites put in front of others, both renumbered. -/
private theorem reverse_append_renumber {sites sites' : List Site} (h : sites' = sites.map (Site.renumber s))
    (found : List Site) : sites'.reverse ++ found.map (Site.renumber s) =
      (sites.reverse ++ found).map (Site.renumber s) := by
  rw [h, List.map_append, List.map_reverse]

private theorem optional_renumber (zero : ∀ i, s i = 0 ↔ i = 0) (site : UInt16 → Site)
    (follows : ∀ i, (site i).renumber s = site (s i)) (i : UInt16) :
    optional site (s i) = (optional site i).map (Site.renumber s) := by
  by_cases h : i = 0
  · rw [optional, optional, if_pos h, if_pos ((zero i).2 h), List.map_nil]
  · rw [optional, optional, if_neg h, if_neg (mt (zero i).1 h), List.map_singleton, follows]

mutual

private theorem ofAttributeOnto_renumber (zero : ∀ i, s i = 0 ↔ i = 0) (found : List Site) (a : Attribute) :
    ofAttributeOnto (found.map (Site.renumber s)) (a.renumber s) =
      (ofAttributeOnto found a).map (Site.renumber s) := by
  cases a with
  | code operands catchTypes inner =>
    rw [Attribute.renumber, ofAttributeOnto, ofAttributeOnto,
      @reverse_append_renumber _ (operands.map .operand ++ catchTypes.map .classEntry) _ ?_]
    · exact ofAttributesOnto_renumber zero _ inner
    · simp [Function.comp_def, Site.renumber, PoolOperand.renumber]
  | exceptions classes =>
    exact reverse_append_renumber (by simp [Function.comp_def, Site.renumber]) found
  | signature text => rfl
  | annotations uses => exact foldl_ofAnnotatedOnto_renumber found uses
  | annotationDefault value => exact ofValueOnto_renumber found value
  | innerClasses rows =>
    refine reverse_append_renumber ?_ found
    rw [List.flatMap_map, List.map_flatMap]
    refine congrArg rows.flatMap (funext fun row => ?_)
    exact congrArg _ (optional_renumber zero .classEntry (fun _ => rfl) row.outer)
  | enclosingMethod owner method =>
    have inside := optional_renumber zero .typedName (fun _ => rfl) method
    exact reverse_append_renumber (congrArg (Site.classEntry (s owner) :: ·) inside) found
  | nestHost host => rfl
  | nestMembers classes =>
    exact reverse_append_renumber (by simp [Function.comp_def, Site.renumber]) found
  | permittedSubclasses classes =>
    exact reverse_append_renumber (by simp [Function.comp_def, Site.renumber]) found
  | record components => exact ofComponentsOnto_renumber zero found components
  | bootstrapMethods methods =>
    refine reverse_append_renumber ?_ found
    rw [List.flatMap_map, List.map_flatMap]
    refine congrArg methods.flatMap (funext fun row => ?_)
    simp [ofBootstrapMethod, BootstrapMethod.renumber, Function.comp_def, Site.renumber]
  | localVariables descriptors =>
    exact reverse_append_renumber (by simp [Function.comp_def, Site.renumber]) found
  | localVariableTypes signatures =>
    exact reverse_append_renumber (by simp [Function.comp_def, Site.renumber]) found

private theorem ofAttributesOnto_renumber (zero : ∀ i, s i = 0 ↔ i = 0) (found : List Site) (table : List Attribute) :
    ofAttributesOnto (found.map (Site.renumber s)) (renumberAttributes s table) =
      (ofAttributesOnto found table).map (Site.renumber s) := by
  cases table with
  | nil => rfl
  | cons a table =>
    rw [renumberAttributes, ofAttributesOnto, ofAttributesOnto, ofAttributeOnto_renumber zero]
    exact ofAttributesOnto_renumber zero _ table

private theorem ofComponentsOnto_renumber (zero : ∀ i, s i = 0 ↔ i = 0) (found : List Site)
    (components : List RecordComponent) :
    ofComponentsOnto (found.map (Site.renumber s)) (renumberComponents s components) =
      (ofComponentsOnto found components).map (Site.renumber s) := by
  cases components with
  | nil => rfl
  | cons component components =>
    rw [renumberComponents, ofComponentsOnto, ofComponentsOnto, ofComponentOnto_renumber zero]
    exact ofComponentsOnto_renumber zero _ components

private theorem ofComponentOnto_renumber (zero : ∀ i, s i = 0 ↔ i = 0) (found : List Site)
    (component : RecordComponent) :
    ofComponentOnto (found.map (Site.renumber s)) (component.renumber s) =
      (ofComponentOnto found component).map (Site.renumber s) := by
  cases component with
  | mk type attributes => exact ofAttributesOnto_renumber zero (.descriptor type :: found) attributes

end

theorem ofAttributes_renumber (zero : ∀ i, s i = 0 ↔ i = 0) (table : List Attribute) :
    ofAttributes (renumberAttributes s table) = (ofAttributes table).map (Site.renumber s) := by
  rw [ofAttributes, ofAttributes, List.map_reverse, ← ofAttributesOnto_renumber zero]
  rfl

theorem ofSupertypes_renumber (c : ClassFile) (s : Renumbering c.pool.size) :
    ofSupertypes (c.renumber s) = (ofSupertypes c).map (Site.renumber s) := by
  cases e : c.superclass? <;> simp [ofSupertypes, ClassFile.renumber, e, Function.comp_def, Site.renumber]

end Site

theorem Member.corresponds_renumber {s : UInt16 → UInt16} (zero : ∀ i, s i = 0 ↔ i = 0) (m : Member) :
    m.Corresponds s (m.renumber s) where
  name := rfl
  sites := congrArg _ (Site.ofAttributes_renumber zero m.attributes)

namespace ClassFile

theorem corresponds_renumber (c : ClassFile) (s : Renumbering c.pool.size) :
    c.Corresponds (c.renumber s) s fun _ => True where
  pool := ConstantPool.corresponds_renumber s
  supertypes := Site.ofSupertypes_renumber c s
  fields := by
    rw [ClassFile.renumber, List.forall₂_map_right_iff, List.forall₂_same]
    exact fun m _ => m.corresponds_renumber fun _ => s.eq_zero_iff
  methods := by
    rw [ClassFile.renumber, List.forall₂_map_right_iff, List.forall₂_same]
    exact fun m _ => m.corresponds_renumber fun _ => s.eq_zero_iff
  attributes := Site.ofAttributes_renumber (fun _ => s.eq_zero_iff) c.attributes
  memberName _ _ := trivial
  site _ _ := trivial

/-- Moving the entries of the constant pool to other slots changes neither whether a class file has references nor which
they are. -/
theorem references_renumber (c : ClassFile) (s : Renumbering c.pool.size) (names : NameSet) :
    (c.renumber s).references = .ok names ↔ c.references = .ok names := by
  rw [(c.corresponds_renumber s).references_eq, Except.mapError_eq_ok_iff]

end ClassFile

end ClassCensus
