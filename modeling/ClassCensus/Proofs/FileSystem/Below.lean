import ClassCensus.Proofs.FileSystem.Growth
import ClassCensus.Proofs.FileSystem.PathBelow

/-!
# What stands below a directory

The entries below a directory are those to which names lead through directories alone (`FileTree.Below`); what a link
leads to is not below the directory that holds the link.

* (listing) a tree in which every entry stands in a directory lists what is below a directory
  (`FileTree.mem_entriesBelow_iff`);
* (searches) a search for what is below a directory goes on by itself and comes with its entries in any order, another
  one each time.  A tree that is searched in this way keeps the count of the searches (`SearchedTree`).
-/

namespace ClassCensus

namespace FileTree

variable {tree : FileTree} {directory names : List String} {name : String} {entry : Entry}

/-- An entry below a directory, by the names that lead to it. -/
inductive Below (tree : FileTree) : (directory names : List String) → Entry → Prop where
  | child {directory : List String} {name : String} {entry : Entry} (named : Path.IsEntryName name)
      (found : tree.get? (directory ++ [name]) = some entry) : Below tree directory [name] entry
  | deeper {directory names : List String} {name : String} {entry : Entry} (named : Path.IsEntryName name)
      (found : tree.get? (directory ++ [name]) = some .directory)
      (rest : Below tree (directory ++ [name]) names entry) : Below tree directory (name :: names) entry

namespace Below

theorem ne_nil (h : tree.Below directory names entry) : names ≠ [] := by
  cases h <;> exact List.cons_ne_nil _ _

theorem isEntryName (h : tree.Below directory names entry) : ∀ name ∈ names, Path.IsEntryName name := by
  induction h with
  | child named _ => exact List.forall_mem_singleton.2 named
  | deeper named _ _ ih => exact List.forall_mem_cons.2 ⟨named, ih⟩

theorem get?_eq (h : tree.Below directory names entry) : tree.get? (directory ++ names) = some entry := by
  induction h with
  | child _ found => exact found
  | deeper _ _ _ ih =>
    rw [List.append_assoc] at ih
    exact ih

/-- What stands in a directory below another one is below that one too. -/
theorem behind (h : tree.Below directory names .directory) (named : Path.IsEntryName name)
    (found : tree.get? (directory ++ names ++ [name]) = some entry) : tree.Below directory (names ++ [name]) entry := by
  generalize e : Entry.directory = middle at h
  induction h with
  | child first opened =>
    subst e
    exact .deeper first opened (.child named found)
  | deeper first opened _ ih =>
    apply Below.deeper first opened
    apply ih _ e
    rwa [List.append_assoc _ [_], List.singleton_append]

end Below

/-! ### Listings -/

/-- Every entry has a name and stands in a directory. -/
structure WellFormed (tree : FileTree) : Prop where
  nodup : (tree.entries.map Prod.fst).Nodup
  isEntryName : ∀ found ∈ tree.entries, ∀ name ∈ found.1, Path.IsEntryName name
  parent : ∀ found ∈ tree.entries, found.1 ≠ [] ∧ tree.get? found.1.dropLast = some .directory

namespace WellFormed

theorem get?_eq_some_iff (h : tree.WellFormed) (given : names ≠ []) :
    tree.get? names = some entry ↔ (names, entry) ∈ tree.entries := by
  rw [get?_of_ne_nil given, List.lookup_eq_some_iff]
  constructor
  · intro h'
    obtain ⟨before, after, split, -⟩ := h'
    rw [split]
    exact List.mem_append_right before List.mem_cons_self
  · intro mem
    obtain ⟨before, after, split⟩ := List.append_of_mem mem
    refine ⟨before, after, split, fun found early => ?_⟩
    have nodup := h.nodup
    rw [split, List.map_append, List.map_cons] at nodup
    have apart := (List.nodup_append.1 nodup).2.2
    rw [bne_iff_ne]
    exact (apart found.1 (List.mem_map_of_mem early) names List.mem_cons_self).symm

/-- In a tree whose entries stand in directories, those below a directory are told by their names. -/
theorem below_iff (h : tree.WellFormed) (given : names ≠ []) :
    tree.Below directory names entry ↔ (directory ++ names, entry) ∈ tree.entries := by
  have whole {names : List String} (given : names ≠ []) : directory ++ names ≠ [] := by simp [given]
  rw [← h.get?_eq_some_iff (whole given)]
  constructor
  · exact Below.get?_eq
  · intro found
    -- from the directory that holds the entry, whose names are one fewer
    induction names using List.reverseRecOn generalizing entry with
    | nil => exact absurd rfl given
    | append_singleton names name ih =>
      have mem := (h.get?_eq_some_iff (whole given)).1 found
      have named : Path.IsEntryName name := h.isEntryName _ mem name (by simp)
      by_cases first : names = []
      · subst first
        exact .child named found
      · have parent := (h.parent _ mem).2
        rw [← List.append_assoc, List.dropLast_concat] at parent
        apply (ih first parent).behind named
        rwa [List.append_assoc]

end WellFormed

theorem below?_eq_some_iff {whole : List String} :
    below? directory whole = some names ↔ whole = directory ++ names ∧ names ≠ [] := by
  unfold below?
  constructor
  · intro h
    by_cases inside : directory.isPrefixOf whole ∧ directory.length < whole.length
    · rw [if_pos inside, Option.some_inj] at h
      subst h
      obtain ⟨start, longer⟩ := inside
      rw [List.isPrefixOf_iff_prefix, List.prefix_iff_eq_append] at start
      refine ⟨start.symm, ?_⟩
      rw [ne_eq, List.drop_eq_nil_iff]
      omega
    · rw [if_neg inside] at h
      cases h
  · intro h
    obtain ⟨rfl, given⟩ := h
    have longer : directory.length < (directory ++ names).length := by
      have := List.length_pos_iff.2 given
      rw [List.length_append]
      omega
    rw [if_pos ⟨List.isPrefixOf_iff_prefix.2 (List.prefix_append _ _), longer⟩, List.drop_left]

/-- The entries below a directory. -/
def entriesBelow (tree : FileTree) (directory : List String) : List (List String × Entry) :=
  tree.entries.filterMap fun found => (below? directory found.1).map (·, found.2)

theorem mem_entriesBelow_iff (h : tree.WellFormed) :
    (names, entry) ∈ tree.entriesBelow directory ↔ tree.Below directory names entry := by
  simp only [entriesBelow, List.mem_filterMap, Option.map_eq_some_iff, below?_eq_some_iff]
  constructor
  · intro h'
    obtain ⟨⟨whole, _⟩, mem, _, ⟨rfl, given⟩, ⟨⟩⟩ := h'
    exact (h.below_iff given).2 mem
  · intro below
    exact ⟨_, (h.below_iff below.ne_nil).1 below, names, ⟨rfl, below.ne_nil⟩, rfl⟩

end FileTree

/-! ### Searches -/

/-- A file tree with a search for what is below a directory. -/
structure SearchedTree where
  tree : FileTree
  /-- For each search, by its number, and each directory the entries that it comes with, by the names that lead to
  them. -/
  search : Nat → Path → Except OsError (List (List String × Entry))
  /-- The number of searches so far. -/
  searches : Nat

namespace SearchedTree

/-- The names of the regular files among entries. -/
def fileNames (entries : List (List String × Entry)) : List (List String) :=
  entries.filterMap fun found =>
    match found.2 with
    | .file _ => some found.1
    | _ => none

/-- An operation that leaves the tree as it is. -/
def query {α : Type} (operation : FileTree → Except OsError α) : StateM SearchedTree (Except OsError α) :=
  fun searched => (operation searched.tree, searched)

/-- An operation that changes the tree unless it fails. -/
def change (operation : FileTree → Except OsError FileTree) : StateM SearchedTree (Except OsError Unit) :=
  fun searched =>
    match operation searched.tree with
    | .error e => (.error e, searched)
    | .ok tree => (.ok (), { searched with tree })

instance : Files (StateM SearchedTree) where
  kind p := query (·.kind p)
  read p := query (·.read p)
  filesBelow p := fun searched =>
    (fileNames <$> searched.search searched.searches p, { searched with searches := searched.searches + 1 })
  makeDirectory p := change (·.makeDirectory p)
  write p bytes := change (·.write p bytes)
  rename p q := change (·.rename p q)
  remove p := change (·.remove p)

/-- If the path leads to a directory, every search below it comes with every entry below it, in whatever order, and with
nothing else. A search below the standard input does not, where a directory has that path. -/
def Delivers (searched : SearchedTree) (root : Path) : Prop :=
  ∀ n directory, searched.tree.find root = .ok (directory, .directory) →
    ∃ entries, searched.search n root = .ok entries ∧
      ∀ names entry, (names, entry) ∈ entries ↔ searched.tree.Below directory names entry

theorem mem_fileNames_iff {entries : List (List String × Entry)} {names : List String} :
    names ∈ fileNames entries ↔ ∃ bytes, (names, Entry.file bytes) ∈ entries := by
  rw [fileNames, List.mem_filterMap]
  constructor
  · intro h
    obtain ⟨⟨names, entry⟩, mem, kept⟩ := h
    cases entry with
    | file bytes =>
      cases kept
      exact ⟨bytes, mem⟩
    | directory | link => cases kept
  · intro h
    obtain ⟨bytes, mem⟩ := h
    exact ⟨_, mem, rfl⟩

/-- The files that a tree itself lists below a directory are those below it. -/
theorem mem_filesBelow_iff {tree : FileTree} (h : tree.WellFormed) {p : Path} {directory : List String}
    (found : tree.find p = .ok (directory, .directory)) (other : ¬ p.same standardInput) :
    ∃ listed, tree.filesBelow p = .ok listed ∧
      ∀ names, names ∈ listed ↔ ∃ bytes, tree.Below directory names (.file bytes) := by
  refine ⟨fileNames (tree.entriesBelow directory), ?_, fun names => ?_⟩
  · have kept (found : List String × Entry) :
        (match found.2 with
          | .file _ => FileTree.below? directory found.1
          | _ => none) =
        ((FileTree.below? directory found.1).map (·, found.2)).bind fun found =>
          match found.2 with
          | .file _ => some found.1
          | _ => none := by
      obtain ⟨whole, entry⟩ := found
      cases entry <;> cases FileTree.below? directory whole <;> rfl
    rw [FileTree.filesBelow, found, fileNames, FileTree.entriesBelow, List.filterMap_filterMap]
    simp only [← kept]
    exact if_neg other
  · simp only [mem_fileNames_iff, FileTree.mem_entriesBelow_iff h]

/-- A tree that is searched through its list of entries, forwards and backwards by turns. -/
def turning (tree : FileTree) : SearchedTree where
  tree := tree
  search n root := do
    match ← tree.find root with
    | (directory, .directory) =>
      let entries := tree.entriesBelow directory
      return if n % 2 = 0 then entries else entries.reverse
    | _ => throw .notADirectory
  searches := 0

theorem delivers_turning {tree : FileTree} (h : tree.WellFormed) (root : Path) : (turning tree).Delivers root := by
  intro n directory found
  have searched : (turning tree).search n root = .ok (if n % 2 = 0 then tree.entriesBelow directory
      else (tree.entriesBelow directory).reverse) := by
    show (tree.find root >>= _) = _
    rw [show tree.find root = .ok (directory, .directory) from found]
    rfl
  refine ⟨_, searched, fun names entry => ?_⟩
  rw [show (turning tree).tree = tree from rfl, ← FileTree.mem_entriesBelow_iff h]
  by_cases even : n % 2 = 0
  · rw [if_pos even]
  · rw [if_neg even, List.mem_reverse]

end SearchedTree

end ClassCensus
