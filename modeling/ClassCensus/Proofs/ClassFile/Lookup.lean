import ClassCensus.ClassFile.Pool
import ClassCensus.Proofs.Outcome

/-!
# What look-ups in a constant pool find

A look-up succeeds exactly if the slot holds an entry of the kind that is asked for, and so do the slots that this entry
points to.
-/

namespace ClassCensus

namespace ConstantPool

/-- A slot of the pool holds an entry. -/
def Holds (pool : ConstantPool) (index : UInt16) (entry : Constant) : Prop :=
  pool.entries[index.toNat]? = some entry ∧ entry ≠ .unusable

/-- A slot of the pool holds a class entry that points to a text. -/
def HoldsClass (pool : ConstantPool) (index : UInt16) (text : String) : Prop :=
  ∃ name, pool.Holds index (.classInfo name) ∧ pool.Holds name (.utf8 text)

/-- A slot of the pool holds an entry that points to a name and to a descriptor. -/
def HoldsNameAndType (pool : ConstantPool) (index : UInt16) (name descriptor : String) : Prop :=
  ∃ i j, pool.Holds index (.nameAndType i j) ∧ pool.Holds i (.utf8 name) ∧ pool.Holds j (.utf8 descriptor)

variable {pool : ConstantPool} {index : UInt16}

theorem get_eq_ok_iff {entry : Constant} : pool.get index = .ok entry ↔ pool.Holds index entry := by
  unfold get Holds
  cases pool.entries[index.toNat]? with
  | none => simp
  | some found =>
    by_cases h : found = .unusable
    · subst h
      simp only [Option.some.injEq, ne_eq, reduceCtorEq, false_iff, not_and, not_not]
      exact Eq.symm
    · simp only [Except.ok.injEq, Option.some.injEq]
      constructor
      · rintro rfl
        exact ⟨rfl, h⟩
      · exact And.left

theorem utf8_eq_ok_iff {text : String} : pool.utf8 index = .ok text ↔ pool.Holds index (.utf8 text) := by
  unfold utf8
  simp only [Except.bind_eq_ok_iff, get_eq_ok_iff]
  constructor
  · intro h
    obtain ⟨entry, holds, h⟩ := h
    split at h <;> cases h
    exact holds
  · exact fun holds => ⟨_, holds, rfl⟩

theorem className_eq_ok_iff {text : String} : pool.className index = .ok text ↔ pool.HoldsClass index text := by
  unfold className HoldsClass
  simp only [Except.bind_eq_ok_iff, get_eq_ok_iff]
  constructor
  · intro h
    obtain ⟨entry, holds, h⟩ := h
    split at h
    · exact ⟨_, holds, utf8_eq_ok_iff.1 h⟩
    · cases h
  · intro h
    obtain ⟨name, holds, h⟩ := h
    exact ⟨_, holds, utf8_eq_ok_iff.2 h⟩

theorem nameAndType_eq_ok_iff {name descriptor : String} :
    pool.nameAndType index = .ok (name, descriptor) ↔ pool.HoldsNameAndType index name descriptor := by
  unfold nameAndType HoldsNameAndType
  simp only [Except.bind_eq_ok_iff, get_eq_ok_iff]
  constructor
  · intro h
    obtain ⟨entry, holds, h⟩ := h
    split at h
    · simp only [Except.bind_eq_ok_iff, utf8_eq_ok_iff] at h
      obtain ⟨_, hn, _, hd, e⟩ := h
      cases e
      exact ⟨_, _, holds, hn, hd⟩
    · cases h
  · intro h
    obtain ⟨i, j, holds, hn, hd⟩ := h
    refine ⟨_, holds, ?_⟩
    simp only [utf8_eq_ok_iff.2 hn, utf8_eq_ok_iff.2 hd]
    rfl

end ConstantPool

end ClassCensus
