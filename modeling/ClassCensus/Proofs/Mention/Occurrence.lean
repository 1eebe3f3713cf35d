import ClassCensus.Mention.Site
import Mathlib.Data.List.Basic

/-!
# Where types are named

`ClassFile.HasSite` says which places of a class file name types, without a walk through it: a site belongs to the
supertypes, to a member or to an attribute, and an attribute counts wherever it occurs, in a table or in the tables
inside method bodies and record components (`Attribute.OccursIn`).  In the same way an element value counts wherever it
occurs inside arrays and annotations (`ElementValue.OccursIn`).

The walks of `Site` find exactly these sites (`Site.mem_ofAttributes`).
-/

namespace ClassCensus

/-- An element value is one of some values, or occurs in an array or an annotation among them. -/
inductive ElementValue.OccursIn : ElementValue → List ElementValue → Prop
  | here {v : ElementValue} {values : List ElementValue} : v ∈ values → OccursIn v values
  | array {v : ElementValue} {inner values : List ElementValue} :
      .array inner ∈ values → OccursIn v inner → OccursIn v values
  | nested {v : ElementValue} {type : UInt16} {elements values : List ElementValue} :
      .nested type elements ∈ values → OccursIn v elements → OccursIn v values

/-- The sites of an element value itself, those of the values inside left out. -/
inductive ElementValue.HasSite : ElementValue → Site → Prop
  | enum (type : UInt16) : HasSite (.enum type) (.descriptor type)
  | classInfo (type : UInt16) : HasSite (.classInfo type) (.resultDescriptor type)
  | nested (type : UInt16) (elements : List ElementValue) : HasSite (.nested type elements) (.descriptor type)

/-- Values have a site, at any depth. -/
def ElementValue.AnyHasSite (values : List ElementValue) (site : Site) : Prop :=
  ∃ v : ElementValue, v.OccursIn values ∧ v.HasSite site

/-- An annotation has a site: its type, or a site of its elements. -/
def AnnotationUse.HasSite (use : AnnotationUse) (site : Site) : Prop :=
  site = .descriptor use.type ∨ ElementValue.AnyHasSite use.elements site

/-- An attribute stands in a table, or in the table of a method body or a record component that occurs there. -/
inductive Attribute.OccursIn : Attribute → List Attribute → Prop
  | here {a : Attribute} {table : List Attribute} : a ∈ table → OccursIn a table
  | code {a : Attribute} {operands : List PoolOperand} {catchTypes : List UInt16} {inner table : List Attribute} :
      .code operands catchTypes inner ∈ table → OccursIn a inner → OccursIn a table
  | record {a : Attribute} {components : List RecordComponent} {component : RecordComponent}
      {table : List Attribute} :
      .record components ∈ table → component ∈ components → OccursIn a component.attributes → OccursIn a table

/-- The sites of an attribute itself, those of the attributes inside left out.  Reading lists the types that the handlers
of a method body catch without the 0 of a handler for every type (`ClassFile.decode_catchTypes_ne_zero`). -/
inductive Attribute.HasSite : Attribute → Site → Prop
  | operand {operands : List PoolOperand} {catchTypes : List UInt16} {inner : List Attribute} {o : PoolOperand} :
      o ∈ operands → HasSite (.code operands catchTypes inner) (.operand o)
  | catchType {operands : List PoolOperand} {catchTypes : List UInt16} {inner : List Attribute} {i : UInt16} :
      i ∈ catchTypes → HasSite (.code operands catchTypes inner) (.classEntry i)
  | exceptions {classes : List UInt16} {i : UInt16} : i ∈ classes → HasSite (.exceptions classes) (.classEntry i)
  | signature (text : UInt16) : HasSite (.signature text) (.signature text)
  | annotations {uses : List AnnotationUse} {use : AnnotationUse} {site : Site} :
      use ∈ uses → use.HasSite site → HasSite (.annotations uses) site
  | annotationDefault {value : ElementValue} {site : Site} :
      ElementValue.AnyHasSite [value] site → HasSite (.annotationDefault value) site
  | inner {rows : List InnerClass} {row : InnerClass} : row ∈ rows → HasSite (.innerClasses rows) (.classEntry row.inner)
  | outer {rows : List InnerClass} {row : InnerClass} :
      row ∈ rows → row.outer ≠ 0 → HasSite (.innerClasses rows) (.classEntry row.outer)
  | enclosingClass (owner method : UInt16) : HasSite (.enclosingMethod owner method) (.classEntry owner)
  | enclosingMethod (owner : UInt16) {method : UInt16} :
      method ≠ 0 → HasSite (.enclosingMethod owner method) (.typedName method)
  | nestHost (host : UInt16) : HasSite (.nestHost host) (.classEntry host)
  | nestMembers {classes : List UInt16} {i : UInt16} : i ∈ classes → HasSite (.nestMembers classes) (.classEntry i)
  | permittedSubclasses {classes : List UInt16} {i : UInt16} :
      i ∈ classes → HasSite (.permittedSubclasses classes) (.classEntry i)
  | record {components : List RecordComponent} {component : RecordComponent} :
      component ∈ components → HasSite (.record components) (.descriptor component.descriptor)
  | bootstrapMethod {methods : List BootstrapMethod} {row : BootstrapMethod} :
      row ∈ methods → HasSite (.bootstrapMethods methods) (.loadable row.method)
  | bootstrapArgument {methods : List BootstrapMethod} {row : BootstrapMethod} {i : UInt16} :
      row ∈ methods → i ∈ row.arguments → HasSite (.bootstrapMethods methods) (.loadable i)
  | localVariables {descriptors : List UInt16} {i : UInt16} :
      i ∈ descriptors → HasSite (.localVariables descriptors) (.descriptor i)
  | localVariableTypes {signatures : List UInt16} {i : UInt16} :
      i ∈ signatures → HasSite (.localVariableTypes signatures) (.signature i)

/-- Attributes have a site, at any depth. -/
def Attribute.AnyHasSite (table : List Attribute) (site : Site) : Prop :=
  ∃ a : Attribute, a.OccursIn table ∧ a.HasSite site

/-- A member has a site: its descriptor, or a site of its attributes. -/
def Member.HasSite (m : Member) (site : Site) : Prop :=
  site = .descriptor m.descriptor ∨ Attribute.AnyHasSite m.attributes site

/-- The mention sites of a class file. -/
inductive ClassFile.HasSite (c : ClassFile) : Site → Prop
  | superclass {i : UInt16} : c.superclass? = some i → HasSite c (.classEntry i)
  | interface {i : UInt16} : i ∈ c.interfaces → HasSite c (.classEntry i)
  | field {m : Member} {site : Site} : m ∈ c.fields → m.HasSite site → HasSite c site
  | method {m : Member} {site : Site} : m ∈ c.methods → m.HasSite site → HasSite c site
  | classAttribute {site : Site} : Attribute.AnyHasSite c.attributes site → HasSite c site

/-! ### Element values -/

namespace ElementValue

variable {site : Site}

@[simp] theorem anyHasSite_nil : ¬ AnyHasSite [] site := by
  intro h
  obtain ⟨v, occurs, -⟩ := h
  cases occurs with
  | here mem | array mem | nested mem => cases mem

theorem OccursIn.mono {v : ElementValue} {values more : List ElementValue} (h : v.OccursIn values)
    (sub : values ⊆ more) : v.OccursIn more := by
  cases h with
  | here mem => exact .here (sub mem)
  | array mem inside => exact .array (sub mem) inside
  | nested mem inside => exact .nested (sub mem) inside

theorem anyHasSite_cons {v : ElementValue} {values : List ElementValue} :
    AnyHasSite (v :: values) site ↔ AnyHasSite [v] site ∨ AnyHasSite values site := by
  constructor
  · intro h
    obtain ⟨w, occurs, has⟩ := h
    cases occurs with
    | here mem =>
      rcases List.mem_cons.1 mem with rfl | mem
      · exact .inl ⟨w, .here (List.mem_singleton_self w), has⟩
      · exact .inr ⟨w, .here mem, has⟩
    | array mem inside =>
      rcases List.mem_cons.1 mem with rfl | mem
      · exact .inl ⟨w, .array (List.mem_singleton_self _) inside, has⟩
      · exact .inr ⟨w, .array mem inside, has⟩
    | nested mem inside =>
      rcases List.mem_cons.1 mem with rfl | mem
      · exact .inl ⟨w, .nested (List.mem_singleton_self _) inside, has⟩
      · exact .inr ⟨w, .nested mem inside, has⟩
  · intro h
    rcases h with ⟨w, occurs, has⟩ | ⟨w, occurs, has⟩
    · exact ⟨w, occurs.mono (by simp), has⟩
    · exact ⟨w, occurs.mono (List.subset_cons_self v values), has⟩

theorem anyHasSite_array {values : List ElementValue} :
    AnyHasSite [.array values] site ↔ AnyHasSite values site := by
  constructor
  · intro h
    obtain ⟨w, occurs, has⟩ := h
    cases occurs with
    | here mem =>
      obtain rfl := List.mem_singleton.1 mem
      cases has
    | array mem inside =>
      cases List.mem_singleton.1 mem
      exact ⟨w, inside, has⟩
    | nested mem inside => cases List.mem_singleton.1 mem
  · intro h
    obtain ⟨w, occurs, has⟩ := h
    exact ⟨w, .array (List.mem_singleton_self _) occurs, has⟩

theorem anyHasSite_nested {type : UInt16} {elements : List ElementValue} :
    AnyHasSite [.nested type elements] site ↔ site = .descriptor type ∨ AnyHasSite elements site := by
  constructor
  · intro h
    obtain ⟨w, occurs, has⟩ := h
    cases occurs with
    | here mem =>
      obtain rfl := List.mem_singleton.1 mem
      cases has
      exact .inl rfl
    | array mem inside => cases List.mem_singleton.1 mem
    | nested mem inside =>
      cases List.mem_singleton.1 mem
      exact .inr ⟨w, inside, has⟩
  · intro h
    rcases h with rfl | ⟨w, occurs, has⟩
    · exact ⟨_, .here (List.mem_singleton_self _), .nested type elements⟩
    · exact ⟨w, .nested (List.mem_singleton_self _) occurs, has⟩

/-- A value with no values inside has only its own sites. -/
theorem anyHasSite_leaf {v : ElementValue} (harray : ∀ values, v ≠ .array values)
    (hnested : ∀ type elements, v ≠ .nested type elements) : AnyHasSite [v] site ↔ v.HasSite site := by
  constructor
  · intro h
    obtain ⟨w, occurs, has⟩ := h
    cases occurs with
    | here mem =>
      obtain rfl := List.mem_singleton.1 mem
      exact has
    | array mem inside => exact absurd (List.mem_singleton.1 mem).symm (harray _)
    | nested mem inside => exact absurd (List.mem_singleton.1 mem).symm (hnested _ _)
  · exact fun has => ⟨v, .here (List.mem_singleton_self v), has⟩

end ElementValue

namespace Site

open ElementValue in
mutual

private theorem mem_ofValueOnto (site : Site) (found : List Site) (v : ElementValue) :
    site ∈ ofValueOnto found v ↔ site ∈ found ∨ AnyHasSite [v] site := by
  cases v with
  | const =>
    rw [ofValueOnto, anyHasSite_leaf (by simp) (by simp)]
    exact ⟨.inl, fun h => h.resolve_right nofun⟩
  | enum type =>
    rw [ofValueOnto, anyHasSite_leaf (by simp) (by simp), List.mem_cons, or_comm]
    exact or_congr_right ⟨by rintro rfl; exact .enum type, by rintro ⟨⟩; rfl⟩
  | classInfo type =>
    rw [ofValueOnto, anyHasSite_leaf (by simp) (by simp), List.mem_cons, or_comm]
    exact or_congr_right ⟨by rintro rfl; exact .classInfo type, by rintro ⟨⟩; rfl⟩
  | nested type elements =>
    rw [ofValueOnto, mem_ofValuesOnto, anyHasSite_nested, List.mem_cons, or_assoc, or_left_comm]
  | array values => rw [ofValueOnto, mem_ofValuesOnto, anyHasSite_array]

private theorem mem_ofValuesOnto (site : Site) (found : List Site) (values : List ElementValue) :
    site ∈ ofValuesOnto found values ↔ site ∈ found ∨ AnyHasSite values site := by
  cases values with
  | nil => simp [ofValuesOnto]
  | cons v values => rw [ofValuesOnto, mem_ofValuesOnto, mem_ofValueOnto, or_assoc, ← anyHasSite_cons]

end

private theorem mem_ofAnnotatedOnto (site : Site) (found : List Site) (use : AnnotationUse) :
    site ∈ ofAnnotatedOnto found use ↔ site ∈ found ∨ use.HasSite site := by
  rw [ofAnnotatedOnto, mem_ofValuesOnto, List.mem_cons, AnnotationUse.HasSite, or_assoc, or_left_comm]

private theorem mem_foldl_ofAnnotatedOnto (site : Site) (found : List Site) (uses : List AnnotationUse) :
    site ∈ uses.foldl ofAnnotatedOnto found ↔ site ∈ found ∨ ∃ use ∈ uses, use.HasSite site := by
  induction uses generalizing found with
  | nil => simp
  | cons use uses ih =>
    rw [List.foldl_cons, ih, mem_ofAnnotatedOnto, or_assoc]
    simp

end Site

/-! ### Attributes -/

namespace Attribute

variable {site : Site}

@[simp] theorem anyHasSite_nil : ¬ AnyHasSite [] site := by
  intro h
  obtain ⟨a, occurs, -⟩ := h
  cases occurs with
  | here mem | code mem | record mem => cases mem

theorem OccursIn.mono {a : Attribute} {table more : List Attribute} (h : a.OccursIn table) (sub : table ⊆ more) :
    a.OccursIn more := by
  cases h with
  | here mem => exact .here (sub mem)
  | code mem inside => exact .code (sub mem) inside
  | record mem row inside => exact .record (sub mem) row inside

theorem anyHasSite_cons {a : Attribute} {table : List Attribute} :
    AnyHasSite (a :: table) site ↔ AnyHasSite [a] site ∨ AnyHasSite table site := by
  constructor
  · intro h
    obtain ⟨b, occurs, has⟩ := h
    cases occurs with
    | here mem =>
      rcases List.mem_cons.1 mem with rfl | mem
      · exact .inl ⟨b, .here (List.mem_singleton_self b), has⟩
      · exact .inr ⟨b, .here mem, has⟩
    | code mem inside =>
      rcases List.mem_cons.1 mem with rfl | mem
      · exact .inl ⟨b, .code (List.mem_singleton_self _) inside, has⟩
      · exact .inr ⟨b, .code mem inside, has⟩
    | record mem row inside =>
      rcases List.mem_cons.1 mem with rfl | mem
      · exact .inl ⟨b, .record (List.mem_singleton_self _) row inside, has⟩
      · exact .inr ⟨b, .record mem row inside, has⟩
  · intro h
    rcases h with ⟨b, occurs, has⟩ | ⟨b, occurs, has⟩
    · exact ⟨b, occurs.mono (by simp), has⟩
    · exact ⟨b, occurs.mono (List.subset_cons_self a table), has⟩

theorem anyHasSite_code {operands : List PoolOperand} {catchTypes : List UInt16} {inner : List Attribute} :
    AnyHasSite [.code operands catchTypes inner] site ↔
      site ∈ operands.map Site.operand ++ catchTypes.map Site.classEntry ∨ AnyHasSite inner site := by
  constructor
  · intro h
    obtain ⟨b, occurs, has⟩ := h
    cases occurs with
    | here mem =>
      obtain rfl := List.mem_singleton.1 mem
      cases has with
      | operand mem => exact .inl (List.mem_append_left _ (List.mem_map_of_mem mem))
      | catchType mem => exact .inl (List.mem_append_right _ (List.mem_map_of_mem mem))
    | code mem inside =>
      cases List.mem_singleton.1 mem
      exact .inr ⟨b, inside, has⟩
    | record mem row inside => cases List.mem_singleton.1 mem
  · intro h
    rcases h with mem | ⟨b, occurs, has⟩
    · refine ⟨_, .here (List.mem_singleton_self _), ?_⟩
      rcases List.mem_append.1 mem with mem | mem
      · obtain ⟨o, listed, rfl⟩ := List.mem_map.1 mem
        exact .operand listed
      · obtain ⟨i, listed, rfl⟩ := List.mem_map.1 mem
        exact .catchType listed
    · exact ⟨b, .code (List.mem_singleton_self _) occurs, has⟩

theorem anyHasSite_record {components : List RecordComponent} : AnyHasSite [.record components] site ↔
    ∃ component ∈ components, site = .descriptor component.descriptor ∨ AnyHasSite component.attributes site := by
  constructor
  · intro h
    obtain ⟨b, occurs, has⟩ := h
    cases occurs with
    | here mem =>
      obtain rfl := List.mem_singleton.1 mem
      cases has with
      | record mem => exact ⟨_, mem, .inl rfl⟩
    | code mem inside => cases List.mem_singleton.1 mem
    | record mem row inside =>
      cases List.mem_singleton.1 mem
      exact ⟨_, row, .inr ⟨b, inside, has⟩⟩
  · intro h
    obtain ⟨component, row, rfl | ⟨b, occurs, has⟩⟩ := h
    · exact ⟨_, .here (List.mem_singleton_self _), .record row⟩
    · exact ⟨b, .record (List.mem_singleton_self _) row occurs, has⟩

/-- An attribute with no tables inside has only its own sites. -/
theorem anyHasSite_leaf {a : Attribute} (hcode : ∀ operands catchTypes inner, a ≠ .code operands catchTypes inner)
    (hrecord : ∀ components, a ≠ .record components) : AnyHasSite [a] site ↔ a.HasSite site := by
  constructor
  · intro h
    obtain ⟨b, occurs, has⟩ := h
    cases occurs with
    | here mem =>
      obtain rfl := List.mem_singleton.1 mem
      exact has
    | code mem inside => exact absurd (List.mem_singleton.1 mem).symm (hcode _ _ _)
    | record mem row inside => exact absurd (List.mem_singleton.1 mem).symm (hrecord _)
  · exact fun has => ⟨a, .here (List.mem_singleton_self a), has⟩

end Attribute

namespace Site

/-- A list of sites that are those of an attribute, put in front of the sites found before. -/
private theorem mem_leaf {site : Site} {found sites : List Site} {a : Attribute} (sound : ∀ s ∈ sites, a.HasSite s)
    (complete : ∀ s, a.HasSite s → s ∈ sites) :
    site ∈ sites.reverse ++ found ↔ site ∈ found ∨ a.HasSite site := by
  rw [List.mem_append, List.mem_reverse, or_comm]
  exact or_congr_right ⟨sound site, complete site⟩

private theorem mem_listed {site : Site} {found : List Site} {indices : List UInt16} {f : UInt16 → Site}
    {a : Attribute} (sound : ∀ i ∈ indices, a.HasSite (f i))
    (complete : ∀ s, a.HasSite s → ∃ i ∈ indices, f i = s) :
    site ∈ (indices.map f).reverse ++ found ↔ site ∈ found ∨ a.HasSite site := by
  refine mem_leaf ?_ fun s has => List.mem_map.2 (complete s has)
  intro s mem
  obtain ⟨i, listed, rfl⟩ := List.mem_map.1 mem
  exact sound i listed

private theorem mem_optional {site : Site} {f : UInt16 → Site} {i : UInt16} :
    site ∈ optional f i ↔ i ≠ 0 ∧ site = f i := by
  unfold optional
  split <;> simp_all

private theorem mem_innerClasses (site : Site) (found : List Site) (rows : List InnerClass) :
    site ∈ (rows.flatMap ofInnerClass).reverse ++ found ↔ site ∈ found ∨ (Attribute.innerClasses rows).HasSite site := by
  apply mem_leaf
  · intro s mem
    obtain ⟨row, hrow, mem⟩ := List.mem_flatMap.1 mem
    rcases List.mem_cons.1 mem with rfl | mem
    · exact .inner hrow
    · obtain ⟨outer, rfl⟩ := mem_optional.1 mem
      exact .outer hrow outer
  · intro s has
    cases has with
    | inner hrow => exact List.mem_flatMap.2 ⟨_, hrow, List.mem_cons_self⟩
    | outer hrow outer => exact List.mem_flatMap.2 ⟨_, hrow, List.mem_cons_of_mem _ (mem_optional.2 ⟨outer, rfl⟩)⟩

private theorem mem_enclosingMethod (site : Site) (found : List Site) (owner method : UInt16) :
    site ∈ (.classEntry owner :: optional .typedName method).reverse ++ found ↔
      site ∈ found ∨ (Attribute.enclosingMethod owner method).HasSite site := by
  apply mem_leaf
  · intro s mem
    rcases List.mem_cons.1 mem with rfl | mem
    · exact .enclosingClass owner method
    · obtain ⟨inside, rfl⟩ := mem_optional.1 mem
      exact .enclosingMethod owner inside
  · intro s has
    cases has with
    | enclosingClass => exact List.mem_cons_self
    | enclosingMethod _ inside => exact List.mem_cons_of_mem _ (mem_optional.2 ⟨inside, rfl⟩)

private theorem mem_bootstrapMethods (site : Site) (found : List Site) (methods : List BootstrapMethod) :
    site ∈ (methods.flatMap ofBootstrapMethod).reverse ++ found ↔
      site ∈ found ∨ (Attribute.bootstrapMethods methods).HasSite site := by
  apply mem_leaf
  · intro s mem
    obtain ⟨row, hrow, mem⟩ := List.mem_flatMap.1 mem
    rcases List.mem_cons.1 mem with rfl | mem
    · exact .bootstrapMethod hrow
    · obtain ⟨i, hi, rfl⟩ := List.mem_map.1 mem
      exact .bootstrapArgument hrow hi
  · intro s has
    cases has with
    | bootstrapMethod hrow => exact List.mem_flatMap.2 ⟨_, hrow, List.mem_cons_self⟩
    | bootstrapArgument hrow hi =>
      exact List.mem_flatMap.2 ⟨_, hrow, List.mem_cons_of_mem _ (List.mem_map_of_mem hi)⟩

/-- A single site in front of the sites found before. -/
private theorem mem_single {site first : Site} {found : List Site} {a : Attribute} (sound : a.HasSite first)
    (complete : ∀ s, a.HasSite s → s = first) : site ∈ first :: found ↔ site ∈ found ∨ a.HasSite site := by
  rw [List.mem_cons, or_comm]
  exact or_congr_right ⟨fun e => e ▸ sound, complete site⟩

-- Only method bodies and record components go on to tables inside; all other attributes are leaves.
open Attribute in
mutual

private theorem mem_ofAttributeOnto (site : Site) (found : List Site) (a : Attribute) :
    site ∈ ofAttributeOnto found a ↔ site ∈ found ∨ AnyHasSite [a] site := by
  cases a with
  | code operands catchTypes inner =>
    rw [ofAttributeOnto, mem_ofAttributesOnto, anyHasSite_code, List.mem_append, List.mem_reverse, or_assoc,
      or_left_comm]
  | record components => rw [ofAttributeOnto, mem_ofComponentsOnto, anyHasSite_record]
  | annotations uses =>
    rw [ofAttributeOnto, mem_foldl_ofAnnotatedOnto, anyHasSite_leaf (by simp) (by simp)]
    refine or_congr_right ⟨?_, ?_⟩
    · intro h
      obtain ⟨use, mem, has⟩ := h
      exact .annotations mem has
    · intro has
      cases has with
      | annotations mem has => exact ⟨_, mem, has⟩
  | annotationDefault value =>
    rw [ofAttributeOnto, mem_ofValueOnto, anyHasSite_leaf (by simp) (by simp)]
    refine or_congr_right ⟨.annotationDefault, fun has => ?_⟩
    cases has with
    | annotationDefault has => exact has
  | exceptions classes =>
    rw [ofAttributeOnto, anyHasSite_leaf (by simp) (by simp)]
    refine mem_listed (fun i mem => .exceptions mem) fun s has => ?_
    cases has with
    | exceptions mem => exact ⟨_, mem, rfl⟩
  | signature text =>
    rw [ofAttributeOnto, anyHasSite_leaf (by simp) (by simp)]
    exact mem_single (.signature text) (by rintro s ⟨⟩; rfl)
  | innerClasses rows => rw [ofAttributeOnto, anyHasSite_leaf (by simp) (by simp), mem_innerClasses]
  | enclosingMethod owner method => rw [ofAttributeOnto, anyHasSite_leaf (by simp) (by simp), mem_enclosingMethod]
  | nestHost host =>
    rw [ofAttributeOnto, anyHasSite_leaf (by simp) (by simp)]
    exact mem_single (.nestHost host) (by rintro s ⟨⟩; rfl)
  | nestMembers classes =>
    rw [ofAttributeOnto, anyHasSite_leaf (by simp) (by simp)]
    refine mem_listed (fun i mem => .nestMembers mem) fun s has => ?_
    cases has with
    | nestMembers mem => exact ⟨_, mem, rfl⟩
  | permittedSubclasses classes =>
    rw [ofAttributeOnto, anyHasSite_leaf (by simp) (by simp)]
    refine mem_listed (fun i mem => .permittedSubclasses mem) fun s has => ?_
    cases has with
    | permittedSubclasses mem => exact ⟨_, mem, rfl⟩
  | bootstrapMethods methods => rw [ofAttributeOnto, anyHasSite_leaf (by simp) (by simp), mem_bootstrapMethods]
  | localVariables descriptors =>
    rw [ofAttributeOnto, anyHasSite_leaf (by simp) (by simp)]
    refine mem_listed (fun i mem => .localVariables mem) fun s has => ?_
    cases has with
    | localVariables mem => exact ⟨_, mem, rfl⟩
  | localVariableTypes signatures =>
    rw [ofAttributeOnto, anyHasSite_leaf (by simp) (by simp)]
    refine mem_listed (fun i mem => .localVariableTypes mem) fun s has => ?_
    cases has with
    | localVariableTypes mem => exact ⟨_, mem, rfl⟩

private theorem mem_ofAttributesOnto (site : Site) (found : List Site) (table : List Attribute) :
    site ∈ ofAttributesOnto found table ↔ site ∈ found ∨ AnyHasSite table site := by
  cases table with
  | nil => simp [ofAttributesOnto]
  | cons a table => rw [ofAttributesOnto, mem_ofAttributesOnto, mem_ofAttributeOnto, or_assoc, ← anyHasSite_cons]

private theorem mem_ofComponentsOnto (site : Site) (found : List Site) (components : List RecordComponent) :
    site ∈ ofComponentsOnto found components ↔ site ∈ found ∨
      ∃ component ∈ components, site = .descriptor component.descriptor ∨ AnyHasSite component.attributes site := by
  cases components with
  | nil => simp [ofComponentsOnto]
  | cons component components =>
    rw [ofComponentsOnto, mem_ofComponentsOnto, mem_ofComponentOnto, or_assoc]
    simp

private theorem mem_ofComponentOnto (site : Site) (found : List Site) (component : RecordComponent) :
    site ∈ ofComponentOnto found component ↔
      site ∈ found ∨ site = .descriptor component.descriptor ∨ AnyHasSite component.attributes site := by
  cases component with
  | mk type attributes => rw [ofComponentOnto, mem_ofAttributesOnto, List.mem_cons, or_assoc, or_left_comm]

end

/-- The walk through a table of attributes finds the sites of the attributes at any depth. -/
theorem mem_ofAttributes {site : Site} {table : List Attribute} :
    site ∈ ofAttributes table ↔ Attribute.AnyHasSite table site := by
  rw [ofAttributes, List.mem_reverse, mem_ofAttributesOnto]
  simp

theorem mem_ofMember {site : Site} {m : Member} : site ∈ ofMember m ↔ m.HasSite site := by
  rw [ofMember, List.mem_cons, mem_ofAttributes, Member.HasSite]

theorem mem_ofSupertypes {site : Site} {c : ClassFile} : site ∈ ofSupertypes c ↔
    ∃ i, (c.superclass? = some i ∨ i ∈ c.interfaces) ∧ site = .classEntry i := by
  rw [ofSupertypes, List.mem_map]
  simp only [List.mem_append, Option.mem_toList, eq_comm]

end Site

/-- The sites of a class file are those that the walks through its parts find. -/
theorem ClassFile.hasSite_iff {c : ClassFile} {site : Site} : c.HasSite site ↔
    site ∈ Site.ofSupertypes c ∨ (∃ m ∈ c.fields, site ∈ Site.ofMember m) ∨ (∃ m ∈ c.methods, site ∈ Site.ofMember m) ∨
      site ∈ Site.ofAttributes c.attributes := by
  simp only [Site.mem_ofSupertypes, Site.mem_ofMember, Site.mem_ofAttributes]
  constructor
  · intro has
    cases has with
    | superclass h => exact .inl ⟨_, .inl h, rfl⟩
    | interface h => exact .inl ⟨_, .inr h, rfl⟩
    | field mem h => exact .inr (.inl ⟨_, mem, h⟩)
    | method mem h => exact .inr (.inr (.inl ⟨_, mem, h⟩))
    | classAttribute h => exact .inr (.inr (.inr h))
  · intro hx
    rcases hx with ⟨i, h | h, rfl⟩ | ⟨m, mem, h⟩ | ⟨m, mem, h⟩ | h
    · exact .superclass h
    · exact .interface h
    · exact .field mem h
    · exact .method mem h
    · exact .classAttribute h

end ClassCensus
