import ClassCensus.Proofs.FileSystem.Resolution
import ClassCensus.Proofs.Outcome

/-!
# What operations on files do

Each operation that changes a file tree, told by the places to which its paths lead.

* (directories) making a directory adds one (`FileTree.gains_makeDirectory`);
* (files) a path is vacant if nothing stands where it leads, whatever directories are added (`FileTree.Vacant`). What is
  written there is a new file, and nothing else changes (`FileTree.write_of_vacant`);
* (renaming) a file that takes the place of another disappears from its own (`FileTree.of_rename`).
-/

namespace ClassCensus

namespace FileTree

variable {start tree more after : FileTree} {p q : Path} {target : Target} {names : List String} {entry : Entry}

/-! ### Places -/

theorem resolve_eq_walk {ending : Ending} (h : checkPath p = .ok ()) :
    tree.resolve ending p = tree.walk ending maxLinks (tree.origin p) (stepsOf p) := by
  rw [resolve, h]
  rfl

theorem locate_eq_walk (h : checkPath p = .ok ()) :
    tree.locate p = tree.walk .keep maxLinks (tree.origin p) (namesOf p) := by
  rw [locate, h]
  rfl

theorem locate_eq_ok_iff : tree.locate p = .ok target ↔
    checkPath p = .ok () ∧ tree.Leads .keep maxLinks (tree.origin p) (namesOf p) target := by
  rw [locate, Except.bind_eq_ok_iff, ← walk_eq_ok_iff]
  exact ⟨fun ⟨⟨⟩, h⟩ => h, fun h => ⟨⟨⟩, h⟩⟩

theorem findKept_eq_ok_iff : tree.findKept p = .ok (names, entry) ↔
    tree.locate p = .ok (.entry names entry) ∧ ¬ (endsInSlash p ∧ entry ≠ .directory) := by
  rw [findKept, Except.bind_eq_ok_iff]
  constructor
  · intro h
    obtain ⟨_ | _, located, h⟩ := h
    · obtain ⟨fine, h⟩ := Except.refuse_eq_ok_iff.1 h
      cases h
      exact ⟨located, fine⟩
    · cases h
  · intro h
    obtain ⟨located, fine⟩ := h
    exact ⟨_, located, Except.refuse_eq_ok_iff.2 ⟨fine, rfl⟩⟩

/-- One entry, which is no directory, is now a file, and what else has changed are files that the path does not lead to.
The path leads to where it did; it leads nowhere if it went through the entry as a link (`Leads.walk_changed`). -/
theorem locate_changed {other : FileTree} {place : List String} {bytes : List UInt8} (h : tree.locate p = .ok target)
    (ne : target.entry? ≠ some .directory) (origin : other.workingDirectory = tree.workingDirectory)
    (before : tree.get? place ≠ some .directory) (now : other.get? place = some (.file bytes))
    (same : ∀ names, names ≠ place → (names = target.names ∨ ∀ b, tree.get? names ≠ some (.file b)) →
      other.get? names = tree.get? names) :
    other.locate p = .ok (if target.names = place then .entry place (.file bytes) else target) ∨
      other.locate p = .error .notADirectory ∧ ∃ path, tree.get? place = some (.link path) := by
  obtain ⟨checked, leads⟩ := locate_eq_ok_iff.1 h
  rw [locate_eq_walk checked, FileTree.origin, origin]
  exact leads.walk_changed ne before now same

theorem namesOf_getLast?_ne (p : Path) : (namesOf p).getLast? ≠ some "" := by
  intro h
  have mem := List.mem_of_getLast? h
  simp [namesOf] at mem

/-- At a path that leads to a free name a file can be written. -/
theorem write_of_free {directory : List String} {name : String} (h : tree.locate p = .ok (.free directory name))
    (slash : endsInSlash p = false) (bytes : List UInt8) :
    tree.write p bytes = .ok (tree.insert (directory ++ [name]) (.file bytes)) := by
  have steps : stepsOf p = namesOf p := by simp [stepsOf, slash]
  obtain ⟨checked, leads⟩ := locate_eq_ok_iff.1 h
  rw [write, resolve_eq_walk checked, steps, walk_eq_ok_iff.2 (leads.created (namesOf_getLast?_ne p))]
  rfl

/-! ### Directories -/

theorem gains_makeDirectory (h : tree.makeDirectory p = .ok after) : tree.Gains after := by
  obtain ⟨_ | ⟨directory, name⟩, located, h⟩ := Except.bind_eq_ok_iff.1 h
  · cases h
  · cases h
    have free := (locate_eq_ok_iff.1 located).2.get?_names (by simp [Target.entry?])
    refine ⟨rfl, fun names => ?_⟩
    by_cases e : names = directory ++ [name]
    · subst e
      exact .inr ⟨free, get?_insert_self (by simp)⟩
    · exact .inl (get?_insert_of_ne e)

theorem find_of_leads {entry : Entry} (checked : checkPath p = .ok ())
    (h : tree.Leads .follow maxLinks (tree.origin p) (stepsOf p) (.entry names entry)) :
    tree.find p = .ok (names, entry) := by
  rw [find, resolve_eq_walk checked, walk_eq_ok_iff.2 h]
  rfl

theorem kind_of_find (h : tree.find p = .ok (names, .directory)) : tree.kind p = .ok .directory := by
  rw [kind, h]
  rfl

theorem read_of_find {bytes : List UInt8} (h : tree.find p = .ok (names, .file bytes)) : tree.read p = .ok bytes := by
  rw [read, h]
  rfl

/-! ### Renaming and removing -/

/-- A file can be renamed to any path that leads to no directory and can name a file. -/
theorem rename_of_file {bytes : List UInt8} (found : tree.findKept p = .ok (names, .file bytes))
    (located : tree.locate q = .ok target) (ne : target.entry? ≠ some .directory)
    (plain : q.holdsNul = false ∧ endsInDots q = false ∧ endsInSlash q = false) :
    tree.rename p q = .ok ((tree.erase names).insert target.names (.file bytes)) := by
  obtain ⟨nul, dots, slash⟩ := plain
  simp only [rename, Except.refuse_eq_ok_iff, Except.bind_eq_ok_iff]
  refine ⟨by simp [nul], _, found, _, located, by simp [dots], nofun, by simp [slash], ?_⟩
  cases target with
  | entry other old =>
    cases old with
    | directory => exact absurd rfl ne
    | _ => rfl
  | free directory name => rfl

end FileTree

end ClassCensus
