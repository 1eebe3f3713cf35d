import ClassCensus.Mention.Reference
import ClassCensus.Proofs.ClassFile.Lookup
import ClassCensus.Proofs.Outcome

/-!
# What sites denote

`ConstantPool.Denotes` says which classes a site names, by what the slots hold to which its index leads: a class entry
and its text, a name with a descriptor, a member reference, directly or behind a method handle.  A site that leads to
no slot, to a slot of another kind or to a text that cannot be read denotes nothing, not even an empty list.

Resolving a site gives the classes that it denotes, and fails exactly if it denotes nothing (`siteNames_eq_ok_iff`).
-/

namespace ClassCensus

/-- The constants that may be loaded and name no class. -/
def Constant.IsLiteral : Constant → Prop
  | .utf8 _ | .integer _ | .float _ | .long _ | .double _ | .string _ | .nameAndType _ _ | .undecoded _ => True
  | _ => False

namespace ConstantPool

/-- The classes that the class entry in a slot names; there is at most one. -/
def EntryDenotes (pool : ConstantPool) (index : UInt16) (names : List String) : Prop :=
  ∃ text name?, pool.HoldsClass index text ∧ entryClass? text = .ok name? ∧ names = name?.toList

/-- The classes that the descriptor in a slot names. -/
def DescriptorDenotes (pool : ConstantPool) (index : UInt16) (names : List String) : Prop :=
  ∃ text, pool.Holds index (.utf8 text) ∧ descriptorClasses text = .ok names

/-- The classes in the descriptor of the typed name in a slot. -/
def TypedNameDenotes (pool : ConstantPool) (index : UInt16) (names : List String) : Prop :=
  ∃ name descriptor, pool.HoldsNameAndType index name descriptor ∧ descriptorClasses descriptor = .ok names

/-- The classes that the parts of a member reference name. -/
def MemberDenotes (pool : ConstantPool) (owner typedName : UInt16) (names : List String) : Prop :=
  ∃ ownerNames typeNames, pool.EntryDenotes owner ownerNames ∧ pool.TypedNameDenotes typedName typeNames ∧
    names = ownerNames ++ typeNames

/-- The classes that the constant in a slot names where it is loaded. -/
inductive LoadDenotes (pool : ConstantPool) (index : UInt16) : List String → Prop
  | classInfo {i : UInt16} {names : List String} :
      pool.Holds index (.classInfo i) → pool.EntryDenotes index names → LoadDenotes pool index names
  | memberRef {kind : MemberKind} {owner typedName : UInt16} {names : List String} :
      pool.Holds index (.memberRef kind owner typedName) → pool.MemberDenotes owner typedName names →
      LoadDenotes pool index names
  | methodHandle {tag : UInt8} {i : UInt16} {kind : MemberKind} {owner typedName : UInt16} {names : List String} :
      pool.Holds index (.methodHandle tag i) → pool.Holds i (.memberRef kind owner typedName) →
      pool.MemberDenotes owner typedName names → LoadDenotes pool index names
  | methodType {i : UInt16} {names : List String} :
      pool.Holds index (.methodType i) → pool.DescriptorDenotes i names → LoadDenotes pool index names
  | dynamic {bootstrap typedName : UInt16} {names : List String} :
      pool.Holds index (.dynamic bootstrap typedName) → pool.TypedNameDenotes typedName names →
      LoadDenotes pool index names
  | invokeDynamic {bootstrap typedName : UInt16} {names : List String} :
      pool.Holds index (.invokeDynamic bootstrap typedName) → pool.TypedNameDenotes typedName names →
      LoadDenotes pool index names
  | literal {entry : Constant} : pool.Holds index entry → entry.IsLiteral → LoadDenotes pool index []

/-- The classes that a site names. -/
def Denotes (pool : ConstantPool) (site : Site) (names : List String) : Prop :=
  match site with
  | .classEntry index => pool.EntryDenotes index names
  | .descriptor index => pool.DescriptorDenotes index names
  | .resultDescriptor index =>
    pool.Holds index (.utf8 "V") ∧ names = [] ∨
      ∃ text, text ≠ "V" ∧ pool.Holds index (.utf8 text) ∧ descriptorClasses text = .ok names
  | .signature index => ∃ text, pool.Holds index (.utf8 text) ∧ signatureClasses text = .ok names
  | .typedName index => pool.TypedNameDenotes index names
  | .loadable index => pool.LoadDenotes index names
  | .operand operand => pool.LoadDenotes operand.index names

variable {pool : ConstantPool} {names : List String}

/-! ### Texts -/

theorem classEntryNames_eq_ok_iff {index : UInt16} :
    pool.classEntryNames index = .ok names ↔ pool.EntryDenotes index names := by
  simp only [classEntryNames, Except.bind_eq_ok_iff, className_eq_ok_iff, EntryDenotes]
  constructor
  · intro h
    obtain ⟨text, holds, name?, h, e⟩ := h
    cases e
    exact ⟨text, name?, holds, h, rfl⟩
  · intro h
    obtain ⟨text, name?, holds, h, rfl⟩ := h
    exact ⟨text, holds, name?, h, rfl⟩

theorem descriptorNames_eq_ok_iff {index : UInt16} :
    pool.descriptorNames index = .ok names ↔ pool.DescriptorDenotes index names := by
  simp only [descriptorNames, Except.bind_eq_ok_iff, utf8_eq_ok_iff, DescriptorDenotes]

theorem typedNameNames_eq_ok_iff {index : UInt16} :
    pool.typedNameNames index = .ok names ↔ pool.TypedNameDenotes index names := by
  simp only [typedNameNames, Except.bind_eq_ok_iff, TypedNameDenotes]
  constructor
  · intro h
    obtain ⟨⟨name, descriptor⟩, holds, h⟩ := h
    exact ⟨name, descriptor, nameAndType_eq_ok_iff.1 holds, h⟩
  · intro h
    obtain ⟨name, descriptor, holds, h⟩ := h
    exact ⟨(name, descriptor), nameAndType_eq_ok_iff.2 holds, h⟩

theorem memberRefNames_eq_ok_iff {owner typedName : UInt16} :
    pool.memberRefNames owner typedName = .ok names ↔ pool.MemberDenotes owner typedName names := by
  simp only [memberRefNames, Except.bind_eq_ok_iff, classEntryNames_eq_ok_iff, typedNameNames_eq_ok_iff, MemberDenotes]
  constructor
  · intro h
    obtain ⟨a, ha, b, hb, e⟩ := h
    cases e
    exact ⟨a, b, ha, hb, rfl⟩
  · intro h
    obtain ⟨a, b, ha, hb, rfl⟩ := h
    exact ⟨a, ha, b, hb, rfl⟩

/-- A result descriptor names what its text names, unless the text is that of the type of no value. -/
theorem resultDescriptorNames_eq_ok_iff {index : UInt16} :
    pool.resultDescriptorNames index = .ok names ↔ pool.Denotes (.resultDescriptor index) names := by
  simp only [resultDescriptorNames, Except.bind_eq_ok_iff, utf8_eq_ok_iff, Denotes]
  constructor
  · intro h
    obtain ⟨text, holds, h⟩ := h
    by_cases void : text = "V"
    · rw [if_pos void] at h
      cases h
      exact .inl ⟨void ▸ holds, rfl⟩
    · rw [if_neg void] at h
      exact .inr ⟨text, void, holds, h⟩
  · intro h
    rcases h with ⟨holds, rfl⟩ | ⟨text, void, holds, h⟩
    · exact ⟨"V", holds, rfl⟩
    · exact ⟨text, holds, by rw [if_neg void, h]⟩

/-! ### Loaded constants -/

theorem loadableNames_eq_ok_iff {index : UInt16} :
    pool.loadableNames index = .ok names ↔ pool.LoadDenotes index names := by
  simp only [loadableNames, Except.bind_eq_ok_iff, get_eq_ok_iff]
  constructor
  · intro hx
    obtain ⟨entry, holds, h⟩ := hx
    -- the constant in the slot leaves one rule
    cases entry with
    | unusable => exact absurd rfl holds.2
    | classInfo i => exact .classInfo holds (classEntryNames_eq_ok_iff.1 h)
    | memberRef kind owner typedName => exact .memberRef holds (memberRefNames_eq_ok_iff.1 h)
    | methodHandle tag i =>
      obtain ⟨target, behind, h⟩ := Except.bind_eq_ok_iff.1 h
      cases target with
      | memberRef kind owner typedName =>
        exact .methodHandle holds (get_eq_ok_iff.1 behind) (memberRefNames_eq_ok_iff.1 h)
      | _ => cases h
    | methodType i => exact .methodType holds (descriptorNames_eq_ok_iff.1 h)
    | dynamic bootstrap typedName => exact .dynamic holds (typedNameNames_eq_ok_iff.1 h)
    | invokeDynamic bootstrap typedName => exact .invokeDynamic holds (typedNameNames_eq_ok_iff.1 h)
    | _ =>
      cases h
      exact .literal holds trivial
  · intro denotes
    cases denotes with
    | classInfo holds h => exact ⟨_, holds, classEntryNames_eq_ok_iff.2 h⟩
    | memberRef holds h => exact ⟨_, holds, memberRefNames_eq_ok_iff.2 h⟩
    | methodHandle holds behind h =>
      exact ⟨_, holds, Except.bind_eq_ok_iff.2 ⟨_, get_eq_ok_iff.2 behind, memberRefNames_eq_ok_iff.2 h⟩⟩
    | methodType holds h => exact ⟨_, holds, descriptorNames_eq_ok_iff.2 h⟩
    | dynamic holds h => exact ⟨_, holds, typedNameNames_eq_ok_iff.2 h⟩
    | invokeDynamic holds h => exact ⟨_, holds, typedNameNames_eq_ok_iff.2 h⟩
    | @literal entry holds h =>
      refine ⟨entry, holds, ?_⟩
      cases entry <;> first | rfl | exact h.elim

/-! ### Sites -/

/-- Resolving a site succeeds exactly with the classes that it denotes. -/
theorem siteNames_eq_ok_iff {site : Site} : pool.siteNames site = .ok names ↔ pool.Denotes site names := by
  cases site with
  | classEntry index => exact classEntryNames_eq_ok_iff
  | descriptor index => exact descriptorNames_eq_ok_iff
  | resultDescriptor index => exact resultDescriptorNames_eq_ok_iff
  | signature index => simp only [siteNames, signatureNames, Except.bind_eq_ok_iff, utf8_eq_ok_iff, Denotes]
  | typedName index => exact typedNameNames_eq_ok_iff
  | loadable index => exact loadableNames_eq_ok_iff
  | operand operand => exact Except.mapError_eq_ok_iff.trans loadableNames_eq_ok_iff

end ConstantPool

end ClassCensus
