import ClassCensus.Proofs.FileSystem.Below
import ClassCensus.Proofs.FileSystem.Operations
import ClassCensus.Proofs.FileSystem.PathOrder
import ClassCensus.Proofs.Outcome
import ClassCensus.Survey.Discovery

/-!
# Inputs that are found

Class files and layouts are looked for in a tree whose searches may come with what is below a directory in any order
(`SearchedTree`).

* (step) what a search for the files of one input gathers is told by the tree alone (`SearchedTree.Gathers`), and two
  searches in a row gather what one of them does (`SearchedTree.Gathers.append`);
* (run) so do the searches for all inputs (`SearchedTree.gathers_concatenate`);
* (result) the paths are put in order, each in one of its spellings, so neither the order of the inputs nor that of the
  searches has any influence (`InputsDiscovered`).
-/

namespace ClassCensus

/-! ### Names of files -/

theorem occursIn_iff {part chars : List Char} : occursIn part chars ↔ part <:+: chars := by
  induction chars with
  | nil => rw [occursIn, List.isEmpty_iff, List.infix_nil]
  | cons c chars ih => rw [occursIn, Bool.or_eq_true, List.isPrefixOf_iff_prefix, ih, List.infix_cons_iff]

theorem any_isClassFileName_iff {name? : Option String} :
    name?.any isClassFileName ↔ ∃ name, name? = some name ∧ ".class".toList <:+ name.toList := by
  cases name? with
  | none => simp
  | some name => simp [isClassFileName]

/-- A path has the text `layout` in it if one of its names has. -/
theorem isLayoutPath_iff {names : List String} : isLayoutPath names ↔
    names.getLast?.bind Path.extensionOf? = some "xml" ∧ "layout".toList <:+: ("/".intercalate names).toList := by
  rw [isLayoutPath, Bool.and_eq_true, decide_eq_true_iff, List.any_eq_true,
    Path.infix_intercalate_iff (by decide) (by decide)]
  simp only [occursIn_iff]

/-! ### Searches -/

namespace FileTree

/-- Names that lead from the directory `root` to a regular file. -/
def FileBelow (tree : FileTree) (root : Path) (names : List String) : Prop :=
  ∃ directory bytes, tree.find root = .ok (directory, .directory) ∧ tree.Below directory names (.file bytes)

theorem kind_eq_directory_iff {tree : FileTree} {p : Path} :
    tree.kind p = .ok .directory ↔ ∃ directory, tree.find p = .ok (directory, .directory) := by
  rw [kind, Except.bind_eq_ok_iff]
  constructor
  · intro h
    obtain ⟨⟨names, entry⟩, found, h⟩ := h
    cases entry with
    | directory => exact ⟨names, found⟩
    | file | link => cases h
  · intro h
    obtain ⟨directory, found⟩ := h
    exact ⟨_, found, rfl⟩

end FileTree

namespace SearchedTree

variable {searched : SearchedTree} {root input : Path}

/-- However many searches have gone before, a search for paths leaves the tree as it is; it gathers the paths with a
property, or fails where it is not ready. -/
structure Gathers (searched : SearchedTree) (find : StateM SearchedTree (Except SurveyError (List Path))) (ready : Prop)
    (member : Path → Prop) : Prop where
  unchanged : ∀ n, ∃ n', (find { searched with searches := n }).2 = { searched with searches := n' }
  collects : ∀ n, (find { searched with searches := n }).1.Collects ready member

namespace Gathers

variable {find find' : StateM SearchedTree (Except SurveyError (List Path))} {ready ready' : Prop}
  {member member' : Path → Prop}

theorem pure {result : Except SurveyError (List Path)} (h : result.Collects ready member) :
    searched.Gathers (Pure.pure result) ready member :=
  ⟨fun n => ⟨n, rfl⟩, fun _ => h⟩

/-- A search that runs as another one does gathers what that one gathers. -/
theorem of_run (h : searched.Gathers find ready member)
    (run : ∀ n, find' { searched with searches := n } = find { searched with searches := n }) :
    searched.Gathers find' ready member := by
  constructor
  · intro n
    rw [run]
    exact h.unchanged n
  · intro n
    rw [run]
    exact h.collects n

theorem congr (h : searched.Gathers find ready member) (hr : ready ↔ ready') (hm : ∀ q, member q ↔ member' q) :
    searched.Gathers find ready' member' := by
  obtain rfl := propext hr
  obtain rfl := funext fun q => propext (hm q)
  exact h

/-- Two searches in a row, of which the second is left out if the first fails. -/
theorem append (h : searched.Gathers find ready member) (h' : searched.Gathers find' ready' member') :
    searched.Gathers (do
      match ← find with
      | .error e => return .error e
      | .ok found =>
        match ← find' with
        | .error e => return .error e
        | .ok rest => return .ok (found ++ rest)) (ready ∧ ready') fun q => member q ∨ member' q := by
  have run (n : Nat) : ∃ n' n'', (do
      match ← find with
      | .error e => return .error e
      | .ok found =>
        match ← find' with
        | .error e => return .error e
        | .ok rest => return .ok (found ++ rest) : StateM SearchedTree _) { searched with searches := n } =
      ((find { searched with searches := n }).1 >>= fun found =>
        (found ++ ·) <$> (find' { searched with searches := n' }).1, { searched with searches := n'' }) := by
    -- what the first search leaves is the tree after some number of searches
    obtain ⟨n', left⟩ := h.unchanged n
    obtain ⟨n'', left'⟩ := h'.unchanged n'
    rw [StateM.bind_apply, left]
    cases (find { searched with searches := n }).1 with
    | error e => exact ⟨n', n', rfl⟩
    | ok found =>
      refine ⟨n', n'', ?_⟩
      dsimp only
      rw [StateM.bind_apply, left']
      cases (find' { searched with searches := n' }).1 <;> rfl
  constructor
  · intro n
    obtain ⟨n', n'', run⟩ := run n
    exact ⟨n'', congrArg Prod.snd run⟩
  · intro n
    obtain ⟨n', n'', run⟩ := run n
    rw [run]
    exact (h.collects n).append (h'.collects n')

end Gathers

theorem kind_apply (searched : SearchedTree) (p : Path) :
    (Files.kind p : StateM SearchedTree _) searched = (searched.tree.kind p, searched) :=
  rfl

theorem isDirectory_apply (p : Path) : (Files.isDirectory p : StateM SearchedTree Bool) searched =
    (decide (searched.tree.kind p = .ok .directory), searched) := by
  rw [Files.isDirectory, StateM.bind_apply, kind_apply]
  rcases searched.tree.kind p with e | ⟨_ | _⟩ <;> rfl

/-- Below a directory one search is made; below anything else, none. -/
theorem filesBelow_apply (searched : SearchedTree) (root : Path) (keep : List String → Bool) :
    (filesBelow root keep : StateM SearchedTree _) searched =
      if searched.tree.kind root = .ok .directory then
        (match searched.search searched.searches root with
          | .error e => .error (.inputOutput (.walk root) (.os e))
          | .ok entries => .ok (((fileNames entries).filter keep).map fun names => root.join ("/".intercalate names)),
          { searched with searches := searched.searches + 1 })
      else (.error (.inputOutput (.directory root) .notADirectory), searched) := by
  rw [filesBelow, StateM.bind_apply, isDirectory_apply]
  by_cases dir : searched.tree.kind root = .ok .directory
  · have looked : (Files.filesBelow root : StateM SearchedTree _) searched =
        (fileNames <$> searched.search searched.searches root, { searched with searches := searched.searches + 1 }) :=
      rfl
    rw [if_pos dir, decide_eq_true dir, Bool.not_true, if_neg Bool.false_ne_true, StateM.bind_apply, looked]
    cases searched.search searched.searches root <;> rfl
  · rw [if_neg dir, decide_eq_false dir]
    rfl

theorem gathers_filesBelow (h : searched.Delivers root) (keep : List String → Bool) :
    searched.Gathers (filesBelow root keep) (searched.tree.kind root = .ok .directory) fun q =>
      ∃ names, searched.tree.FileBelow root names ∧ keep names ∧ q = root.join ("/".intercalate names) := by
  have run (n : Nat) := filesBelow_apply { searched with searches := n } root keep
  by_cases dir : searched.tree.kind root = .ok .directory
  · simp only [if_pos dir] at run
    obtain ⟨directory, found⟩ := FileTree.kind_eq_directory_iff.1 dir
    constructor
    · intro n
      exact ⟨n + 1, by rw [run]⟩
    · intro n
      obtain ⟨entries, delivered, exact⟩ := h n directory found
      rw [run, delivered]
      refine .ok dir fun q => ?_
      simp only [List.mem_map, List.mem_filter, mem_fileNames_iff, exact]
      constructor
      · intro h'
        obtain ⟨names, ⟨⟨bytes, below⟩, kept⟩, rfl⟩ := h'
        exact ⟨names, ⟨directory, bytes, found, below⟩, kept, rfl⟩
      · intro h'
        obtain ⟨names, ⟨other, bytes, found', below⟩, kept, rfl⟩ := h'
        cases found.symm.trans found'
        exact ⟨names, ⟨⟨bytes, below⟩, kept⟩, rfl⟩
  · simp only [if_neg dir] at run
    constructor
    · intro n
      exact ⟨n, by rw [run]⟩
    · intro n
      rw [run]
      exact .error dir

/-- A file with the name of a class is found as it is, and below a directory the files with such names. -/
theorem gathers_classFilesOf (h : searched.Delivers input) :
    searched.Gathers (classFilesOf input) (∃ kind, searched.tree.kind input = .ok kind) fun q =>
      searched.tree.kind input = .ok .file ∧ input.fileName?.any isClassFileName ∧ q = input ∨
        ∃ names, searched.tree.FileBelow input names ∧ names.getLast?.any isClassFileName ∧
          q = input.join ("/".intercalate names) := by
  have notBelow (ne : searched.tree.kind input ≠ .ok .directory) (names : List String) :
      ¬ searched.tree.FileBelow input names := by
    intro below
    obtain ⟨directory, bytes, found, -⟩ := below
    exact ne (FileTree.kind_eq_directory_iff.2 ⟨directory, found⟩)
  cases kind : searched.tree.kind input with
  | error e =>
    have run (n : Nat) : (classFilesOf input : StateM SearchedTree _) { searched with searches := n } =
        (.error (.inputOutput (.classInput input) (.os e)), { searched with searches := n }) := by
      rw [classFilesOf, StateM.bind_apply, kind_apply, kind]
      rfl
    have fails : ¬ ∃ kind : FileKind, (Except.error e : Except OsError _) = .ok kind := by simp
    exact Gathers.of_run (.pure (.error fails)) run
  | ok kind' =>
    cases kind' with
    | directory =>
      have run (n : Nat) : (classFilesOf input : StateM SearchedTree _) { searched with searches := n } =
          (filesBelow input fun names => names.getLast?.any isClassFileName : StateM SearchedTree _)
            { searched with searches := n } := by
        rw [classFilesOf, StateM.bind_apply, kind_apply, kind]
      apply ((gathers_filesBelow h fun names => names.getLast?.any isClassFileName).of_run run).congr
      · exact iff_of_true kind ⟨_, rfl⟩
      · simp
    | file =>
      have run (n : Nat) : (classFilesOf input : StateM SearchedTree _) { searched with searches := n } =
          (.ok (if input.fileName?.any isClassFileName then [input] else []), { searched with searches := n }) := by
        rw [classFilesOf, StateM.bind_apply, kind_apply, kind]
        rfl
      have none := notBelow (by simp [kind])
      refine Gathers.of_run (.pure (.ok ⟨_, rfl⟩ fun q => ?_)) run
      by_cases named : input.fileName?.any isClassFileName
      · simp [named, none]
      · simp [named, none]

theorem gathers_layoutsBelow (h : searched.Delivers root) :
    searched.Gathers (layoutsBelow root) (searched.tree.kind root = .ok .directory) fun q =>
      ∃ names, searched.tree.FileBelow root names ∧ isLayoutPath names ∧ q = root.join ("/".intercalate names) := by
  have below := gathers_filesBelow h isLayoutPath
  constructor
  · exact below.unchanged
  · intro n
    exact (below.collects n).rearranged fun l q => Path.mem_sort

theorem gathers_concatenate {find : Path → StateM SearchedTree (Except SurveyError (List Path))} {ready : Path → Prop}
    {member : Path → Path → Prop} {paths : List Path}
    (h : ∀ path ∈ paths, searched.Gathers (find path) (ready path) (member path)) :
    searched.Gathers (concatenate find paths) (∀ path ∈ paths, ready path) fun q => ∃ path ∈ paths, member path q := by
  induction paths with
  | nil =>
    constructor
    · exact fun n => ⟨n, rfl⟩
    · exact fun n => .ok (by simp) (by simp)
  | cons path paths ih =>
    obtain ⟨first, others⟩ := List.forall_mem_cons.1 h
    have both := first.append (ih others)
    simp only [List.forall_mem_cons, List.exists_mem_cons_iff]
    exact both

/-- The class files that are found among inputs. -/
def classInputs (searched : SearchedTree) (inputs : List Path) : Except SurveyError (List Path) :=
  ((expandClassInputs inputs : StateM SearchedTree _).run searched).1

/-- The layouts that are given or found below resource directories. -/
def layoutInputs (searched : SearchedTree) (layouts resources : List Path) : Except SurveyError (List Path) :=
  ((resolveLayouts layouts resources : StateM SearchedTree _).run searched).1

end SearchedTree

/-! ### What is found -/

namespace FileTree

/-- A path, in any spelling, of a file that counts as a class file of the inputs. -/
def IsClassInput (tree : FileTree) (inputs : List Path) (q : Path) : Prop :=
  (∃ name, q.fileName? = some name ∧ ".class".toList <:+ name.toList) ∧
    ∃ input ∈ inputs, tree.kind input = .ok .file ∧ input.same q ∨
      ∃ names, tree.FileBelow input names ∧ q.components = input.components ++ names.map .name

/-- A path, in any spelling, of a layout that is given or stands below a resource directory. -/
def IsLayoutInput (tree : FileTree) (layouts resources : List Path) (q : Path) : Prop :=
  (∃ layout ∈ layouts, layout.same q) ∨
    ∃ root ∈ resources, ∃ names, tree.FileBelow root names ∧ q.components = root.components ++ names.map .name ∧
      q.extension? = some "xml" ∧ "layout".toList <:+: ("/".intercalate names).toList

variable {tree : FileTree} {root p q : Path} {names : List String}

theorem FileBelow.same_join_iff (h : tree.FileBelow root names) :
    (root.join ("/".intercalate names)).same q ↔ q.components = root.components ++ names.map .name := by
  obtain ⟨directory, bytes, -, below⟩ := h
  rw [Path.same_iff, Path.components_join root below.ne_nil below.isEntryName, eq_comm]

theorem FileBelow.fileName?_eq (h : tree.FileBelow root names)
    (e : q.components = root.components ++ names.map .name) : q.fileName? = names.getLast? := by
  obtain ⟨directory, bytes, -, below⟩ := h
  exact Path.fileName?_of_components below.ne_nil e

theorem fileName?_congr (h : p.same q) : p.fileName? = q.fileName? := by
  rw [Path.fileName?, Path.fileName?, Path.same_iff.1 h]

/-- The paths that a search of the inputs gathers are spellings of the class files. -/
theorem isClassInput_iff {inputs : List Path} : tree.IsClassInput inputs q ↔ ∃ p, (∃ input ∈ inputs,
    tree.kind input = .ok .file ∧ input.fileName?.any isClassFileName ∧ p = input ∨
      ∃ names, tree.FileBelow input names ∧ names.getLast?.any isClassFileName ∧
        p = input.join ("/".intercalate names)) ∧ p.same q := by
  rw [IsClassInput, ← any_isClassFileName_iff]
  constructor
  · intro h
    obtain ⟨named, input, mem, ⟨file, spelt⟩ | ⟨names, below, e⟩⟩ := h
    · rw [← fileName?_congr spelt] at named
      exact ⟨input, ⟨input, mem, .inl ⟨file, named, rfl⟩⟩, spelt⟩
    · rw [below.fileName?_eq e] at named
      exact ⟨_, ⟨input, mem, .inr ⟨names, below, named, rfl⟩⟩, below.same_join_iff.2 e⟩
  · intro h
    obtain ⟨p, ⟨input, mem, ⟨file, named, rfl⟩ | ⟨names, below, named, rfl⟩⟩, spelt⟩ := h
    · rw [fileName?_congr spelt] at named
      exact ⟨named, p, mem, .inl ⟨file, spelt⟩⟩
    · rw [below.same_join_iff] at spelt
      rw [← below.fileName?_eq spelt] at named
      exact ⟨named, input, mem, .inr ⟨names, below, spelt⟩⟩

/-- The paths that a search of the resource directories gathers, and those given, are spellings of the layouts. -/
theorem isLayoutInput_iff {layouts resources : List Path} : tree.IsLayoutInput layouts resources q ↔
    ∃ p, (p ∈ layouts ∨ ∃ root ∈ resources, ∃ names, tree.FileBelow root names ∧ isLayoutPath names ∧
      p = root.join ("/".intercalate names)) ∧ p.same q := by
  rw [IsLayoutInput]
  constructor
  · intro h
    rcases h with ⟨layout, mem, spelt⟩ | ⟨root, mem, names, below, e, extension, part⟩
    · exact ⟨layout, .inl mem, spelt⟩
    · rw [Path.extension?, below.fileName?_eq e] at extension
      exact ⟨_, .inr ⟨root, mem, names, below, isLayoutPath_iff.2 ⟨extension, part⟩, rfl⟩, below.same_join_iff.2 e⟩
  · intro h
    obtain ⟨p, mem | ⟨root, mem, names, below, kept, rfl⟩, spelt⟩ := h
    · exact .inl ⟨p, mem, spelt⟩
    · rw [below.same_join_iff] at spelt
      obtain ⟨extension, part⟩ := isLayoutPath_iff.1 kept
      rw [← below.fileName?_eq spelt] at extension
      exact .inr ⟨root, mem, names, below, spelt, extension, part⟩

end FileTree

/-- A search finds nothing if it is not ready; else it finds the paths with a property, each once in one of its
spellings and in strictly ascending order. -/
structure Discovered (result : Except SurveyError (List Path)) (ready : Prop) (member : Path → Prop) : Prop where
  succeeds_iff : (∃ found, result = .ok found) ↔ ready
  increasing : ∀ found, result = .ok found → Path.Increasing found
  distinct : ∀ found, result = .ok found → found.Pairwise fun p q => ¬ p.same q
  mem_iff : ∀ found, result = .ok found → ∀ q, (∃ p ∈ found, p.same q) ↔ member q

/-- Two searches succeed or fail alike, and find the same paths in the same order, up to their spelling. -/
structure FoundAlike (result result' : Except SurveyError (List Path)) : Prop where
  succeeds_iff : (∃ found, result = .ok found) ↔ ∃ found, result' = .ok found
  components_eq : ∀ found found', result = .ok found → result' = .ok found' →
    found.map Path.components = found'.map Path.components

theorem Discovered.of_collects {gathered : Except SurveyError (List Path)} {ready : Prop} {member member' : Path → Prop}
    (h : gathered.Collects ready member) (spelt : ∀ q, member' q ↔ ∃ p, member p ∧ p.same q) :
    Discovered (Path.sortDistinct <$> gathered) ready member' where
  succeeds_iff := Except.exists_map_eq_ok_iff.trans h.succeeds_iff
  increasing := by
    intro found hx
    obtain ⟨l, -, rfl⟩ := Except.map_eq_ok_iff.1 hx
    exact Path.increasing_sortDistinct l
  distinct := by
    intro found hx
    obtain ⟨l, -, rfl⟩ := Except.map_eq_ok_iff.1 hx
    exact (Path.increasing_sortDistinct l).not_same
  mem_iff := by
    intro found hx q
    obtain ⟨l, hl, rfl⟩ := Except.map_eq_ok_iff.1 hx
    simp only [Path.exists_same_sortDistinct, h.mem_iff l hl, spelt]

theorem Discovered.foundAlike {result result' : Except SurveyError (List Path)} {ready ready' : Prop}
    {member member' : Path → Prop} (h : Discovered result ready member) (h' : Discovered result' ready' member')
    (hr : ready ↔ ready') (hm : ∀ q, member q ↔ member' q) : FoundAlike result result' where
  succeeds_iff := by rw [h.succeeds_iff, h'.succeeds_iff, hr]
  components_eq := by
    intro found found' e e'
    apply Path.components_eq_of_increasing (h.increasing found e) (h'.increasing found' e')
    intro p
    rw [h.mem_iff found e, h'.mem_iff found' e', hm]

namespace SearchedTree

variable {searched : SearchedTree} {inputs resources : List Path}

theorem discovered_classInputs (h : ∀ input ∈ inputs, searched.Delivers input) :
    Discovered (searched.classInputs inputs) (∀ input ∈ inputs, ∃ kind, searched.tree.kind input = .ok kind)
      (searched.tree.IsClassInput inputs) :=
  .of_collects ((gathers_concatenate fun input mem => gathers_classFilesOf (h input mem)).collects searched.searches)
    fun _ => FileTree.isClassInput_iff

theorem discovered_layoutInputs (layouts : List Path) (h : ∀ root ∈ resources, searched.Delivers root) :
    Discovered (searched.layoutInputs layouts resources)
      (∀ root ∈ resources, searched.tree.kind root = .ok .directory)
      (searched.tree.IsLayoutInput layouts resources) := by
  have below := (gathers_concatenate fun root mem => gathers_layoutsBelow (h root mem)).collects searched.searches
  have given : (Except.ok layouts : Except SurveyError _).Collects True (· ∈ layouts) := .ok trivial fun _ => Iff.rfl
  have all := Discovered.of_collects (given.append below) fun _ => FileTree.isLayoutInput_iff
  rw [true_and] at all
  have result : searched.layoutInputs layouts resources =
      (fun found => Path.sortDistinct (layouts ++ found)) <$>
        ((concatenate layoutsBelow resources : StateM SearchedTree _) searched).1 :=
    rfl
  rw [result]
  cases gathered : ((concatenate layoutsBelow resources : StateM SearchedTree _) searched).1 with
  | _ => rwa [gathered] at all

end SearchedTree

/-- What is found among inputs and resource directories is told by the tree, whatever the order and the repetition of
what is given and of what a search comes with. -/
structure InputsDiscovered (searched : SearchedTree) (inputs layouts resources : List Path) : Prop where
  exact_classes : Discovered (searched.classInputs inputs)
    (∀ input ∈ inputs, ∃ kind, searched.tree.kind input = .ok kind) (searched.tree.IsClassInput inputs)
  exact_layouts : Discovered (searched.layoutInputs layouts resources)
    (∀ root ∈ resources, searched.tree.kind root = .ok .directory) (searched.tree.IsLayoutInput layouts resources)
  stable_classes : ∀ (other : SearchedTree) (inputs' : List Path), other.tree = searched.tree →
    (∀ p, p ∈ inputs' ↔ p ∈ inputs) → (∀ input ∈ inputs', other.Delivers input) →
      FoundAlike (other.classInputs inputs') (searched.classInputs inputs)
  stable_layouts : ∀ (other : SearchedTree) (layouts' resources' : List Path), other.tree = searched.tree →
    (∀ p, p ∈ layouts' ↔ p ∈ layouts) → (∀ p, p ∈ resources' ↔ p ∈ resources) →
      (∀ root ∈ resources', other.Delivers root) →
        FoundAlike (other.layoutInputs layouts' resources') (searched.layoutInputs layouts resources)

theorem inputs_discovered {searched : SearchedTree} {inputs layouts resources : List Path}
    (h : ∀ root ∈ inputs ++ resources, searched.Delivers root) :
    InputsDiscovered searched inputs layouts resources := by
  obtain ⟨ofInputs, ofResources⟩ := List.forall_mem_append.1 h
  have exactClasses := SearchedTree.discovered_classInputs ofInputs
  have exactLayouts := SearchedTree.discovered_layoutInputs layouts ofResources
  refine ⟨exactClasses, exactLayouts, ?_, ?_⟩
  · intro other inputs' tree members delivers
    apply (SearchedTree.discovered_classInputs delivers).foundAlike exactClasses
    · simp only [tree, members]
    · simp only [tree, FileTree.IsClassInput, members, implies_true]
  · intro other layouts' resources' tree given members delivers
    apply (SearchedTree.discovered_layoutInputs layouts' delivers).foundAlike exactLayouts
    · simp only [tree, members]
    · simp only [tree, FileTree.IsLayoutInput, given, members, implies_true]

/-- A tree with a class in a directory, another behind a link that stands there, and a layout. -/
def linkedClasses : FileTree where
  entries := [(["app"], .directory), (["app", "A.class"], .file []), (["app", "old"], .link ⟨"/lib"⟩),
    (["lib"], .directory), (["lib", "B.class"], .file []), (["res"], .directory), (["res", "layout"], .directory),
    (["res", "layout", "main.xml"], .file [])]
  workingDirectory := []

private theorem linkedClasses_wellFormed : linkedClasses.WellFormed where
  nodup := by decide
  isEntryName := by
    have plain : ∀ found ∈ linkedClasses.entries, ∀ name ∈ found.1, name ∉ ["", ".", ".."] ∧ '/' ∉ name.toList := by
      decide
    exact fun found mem name onPath => ⟨(plain found mem name onPath).1, (plain found mem name onPath).2⟩
  parent := by decide

private theorem linkedClasses_find : linkedClasses.find ⟨"/app"⟩ = .ok (["app"], .directory) ∧
    linkedClasses.find ⟨"/app//A.class"⟩ = .ok (["app", "A.class"], .file []) := by
  have steps : FileTree.stepsOf ⟨"/app"⟩ = ["app"] ∧ FileTree.stepsOf ⟨"/app//A.class"⟩ = ["app", "A.class"] := by
    decide +kernel
  constructor
  · apply FileTree.find_of_leads rfl
    rw [steps.1]
    exact .enter (.of_step (by decide) (by simp)) rfl .here
  · apply FileTree.find_of_leads rfl
    rw [steps.2]
    exact .enter (.of_step (by decide) (by simp)) rfl (.file (.of_step (by decide) (by simp)) rfl)

/-- A directory that is given twice, with a file in it that is given as well, in another spelling. -/
theorem inputs_discovered_linkedClasses :
    let searched := SearchedTree.turning linkedClasses
    let inputs : List Path := [⟨"/app"⟩, ⟨"/app//A.class"⟩, ⟨"/app"⟩]
    (∀ root ∈ inputs ++ [⟨"/res"⟩], searched.Delivers root) ∧
      InputsDiscovered searched inputs [⟨"/res//layout/main.xml"⟩] [⟨"/res"⟩] ∧
        ∃ found, searched.classInputs inputs = .ok found ∧ ∃ p ∈ found, p.same ⟨"/app/A.class"⟩ := by
  intro searched inputs
  have delivers : ∀ root ∈ inputs ++ [⟨"/res"⟩], searched.Delivers root :=
    fun root _ => SearchedTree.delivers_turning linkedClasses_wellFormed root
  have discovered : InputsDiscovered searched inputs [⟨"/res//layout/main.xml"⟩] [⟨"/res"⟩] :=
    inputs_discovered delivers
  have directory : searched.tree.kind ⟨"/app"⟩ = .ok .directory := FileTree.kind_of_find linkedClasses_find.1
  have file : searched.tree.kind ⟨"/app//A.class"⟩ = .ok .file := by
    rw [FileTree.kind, show searched.tree.find ⟨"/app//A.class"⟩ = _ from linkedClasses_find.2]
    rfl
  have ready : ∀ input ∈ inputs, ∃ kind, searched.tree.kind input = .ok kind := by
    simp only [inputs, List.forall_mem_cons]
    exact ⟨⟨_, directory⟩, ⟨_, file⟩, ⟨_, directory⟩, by simp⟩
  obtain ⟨found, given⟩ := discovered.exact_classes.succeeds_iff.2 ready
  have named : ∃ name, (Path.mk "/app/A.class").fileName? = some name ∧ ".class".toList <:+ name.toList :=
    ⟨"A.class", by decide, by decide⟩
  have spelt : (Path.mk "/app//A.class").same ⟨"/app/A.class"⟩ := by decide
  refine ⟨delivers, discovered, found, given, (discovered.exact_classes.mem_iff found given _).2 ⟨named, ?_⟩⟩
  exact ⟨⟨"/app//A.class"⟩, by simp [inputs], .inl ⟨file, spelt⟩⟩

end ClassCensus
