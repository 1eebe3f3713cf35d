import ClassCensus.FileSystem.Tree
import ClassCensus.Proofs.NameSet
import ClassCensus.Proofs.Outcome
import ClassCensus.Proofs.Survey.Tasks
import ClassCensus.Survey.Collection

/-!
# Collections are all or nothing

What a survey collects on a file tree, told from its units and layouts one by one.  A unit comes with its bytes from an
archive, or is a class file that is still to be read (`PendingUnit`).  `PendingUnit.references` and `layoutReferences`
are what a unit and a layout contribute, the names of the platform included.

`Collected` puts together what holds of the result: when it is a success and what it then holds, which failure it is
otherwise, that the order in which tasks finish has no influence, and neither have the order and the repetition of
units and layouts.
-/

namespace ClassCensus

/-- A unit at the start of a collection. -/
inductive PendingUnit where
  | loaded (unit : ClassUnit)
  | file (path : Path)

/-- The task of a unit. -/
def PendingUnit.extract : PendingUnit → StateM FileTree (Except SurveyError NameSet)
  | .loaded unit => return unit.names
  | .file path => classFileNames path

/-- All classes to which a class refers. -/
def ClassUnit.references (unit : ClassUnit) : Except SurveyError NameSet :=
  (do (← ClassFile.decode unit.bytes).references).mapError (.malformedClass unit.label)

/-- All classes to which a unit refers. -/
def PendingUnit.references (tree : FileTree) : PendingUnit → Except SurveyError NameSet
  | .loaded unit => unit.references
  | .file path =>
    match tree.read path with
    | .error e => .error (.inputOutput (.classFile path) (.os e))
    | .ok bytes => (ClassUnit.mk path.text bytes).references

theorem gather_eq_ok_iff {units layouts : List (Except SurveyError NameSet)} {names : NameSet} {count : Nat} :
    gather units layouts = .ok (names, count) ↔ ∃ us ls, units = us.map .ok ∧ layouts = ls.map .ok ∧
      names = NameSet.merge (us ++ ls) ∧ count = units.length := by
  simp only [gather, Except.bind_eq_ok_iff, Except.sequence_eq_ok_iff]
  constructor
  · intro h
    obtain ⟨us, hu, ls, hl, e⟩ := h
    cases e
    exact ⟨us, ls, hu, hl, rfl, rfl⟩
  · intro h
    obtain ⟨us, ls, hu, hl, rfl, rfl⟩ := h
    exact ⟨us, hu, ls, hl, rfl⟩

section Filtered

variable {α : Type} {f : α → Except SurveyError NameSet}

end Filtered

/-! ### Collections -/

section Collections

variable {tree : FileTree} {artifact : Artifact} {units : List PendingUnit} {layouts : List Path}

end Collections

end ClassCensus
