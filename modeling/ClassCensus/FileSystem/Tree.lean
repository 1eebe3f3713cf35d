import ClassCensus.FileSystem.Files

/-!
# File trees

A file system held in memory: regular files, directories and symbolic links, each under the names that lead to it from
the root.

* (walk) a path is resolved name by name; a link in the middle is followed, at the end only if asked for, and at most
  40 links in all; where a file may be made, a slash after the last name is refused before that name is looked at;
* (operations) each operation of `Files` changes one entry, or none if it fails.
-/

namespace ClassCensus

/-- What stands in a file tree. -/
inductive Entry where
  | file (bytes : List UInt8)
  | directory
  | link (target : Path)
deriving DecidableEq

/-- A file tree: its entries below the root by the names that lead to them, each once, and the directory from which
relative paths start. -/
structure FileTree where
  entries : List (List String × Entry)
  workingDirectory : List String

namespace FileTree

/-- The tree with nothing but its root. -/
def empty : FileTree := ⟨[], []⟩

/-- The entry under the given names; the root is a directory. -/
def get? (tree : FileTree) (names : List String) : Option Entry :=
  if names = [] then some .directory else tree.entries.lookup names

/-- The tree with no entry under the given names. -/
def erase (tree : FileTree) (names : List String) : FileTree :=
  { tree with entries := tree.entries.filter (·.1 ≠ names) }

/-- The tree with the given entry under the given names. -/
def insert (tree : FileTree) (names : List String) (entry : Entry) : FileTree :=
  { tree with entries := (names, entry) :: (tree.erase names).entries }

/-- The greatest number of links followed in one path. -/
def maxLinks : Nat := 40

/-- The greatest number of bytes of a name. -/
def maxNameSize : Nat := 255

/-- The greatest number of bytes of the text of a path. -/
def maxPathSize : Nat := 4095

/-- Where a path leads: to an entry, or to a name that is free in a directory. -/
inductive Target where
  | entry (names : List String) (entry : Entry)
  | free (directory : List String) (name : String)

/-- What is done with the name at the end of a path. -/
inductive Ending where
  /-- A link there is taken as it is. -/
  | keep
  /-- A link there is followed. -/
  | follow
  /-- A link there is followed, and a file is made where there is none. -/
  | create
deriving DecidableEq

/-- The path ends in a slash. -/
def endsInSlash (p : Path) : Bool :=
  p.text.toList.getLast? = some '/'

/-- The names of a path in order. -/
def namesOf (p : Path) : List String :=
  p.pieces.filter (· ≠ "")

/-- The names of a path in order, and an empty one for a slash at the end. -/
def stepsOf (p : Path) : List String :=
  namesOf p ++ (if endsInSlash p then [""] else [])

/-- Resolves the names `steps` from the directory `directory`, following at most `links` links. An empty name asks for a
directory before it, where no file can be made. -/
def walk (tree : FileTree) (ending : Ending) (links : Nat) (directory : List String) (steps : List String) :
    Except OsError Target :=
  match steps with
  | [] => .ok (.entry directory .directory)
  | step :: steps =>
    if step = "" ∨ step = "." then tree.walk ending links directory steps
    else if step = ".." then tree.walk ending links directory.dropLast steps
    else if ending = .create ∧ steps = [""] then .error .isADirectory
    else if maxNameSize < step.utf8ByteSize then .error .nameTooLong
    else
      let names := directory ++ [step]
      match tree.get? names with
      | none => if steps = [] then .ok (.free directory step) else .error .notFound
      | some .directory => tree.walk ending links names steps
      | some (.file bytes) => if steps = [] then .ok (.entry names (.file bytes)) else .error .notADirectory
      | some (.link target) =>
        if steps = [] ∧ ending = .keep then .ok (.entry names (.link target))
        else match links with
        | 0 => .error .tooManyLinks
        | links + 1 =>
          tree.walk ending links (if target.isAbsolute then [] else directory) (stepsOf target ++ steps)
termination_by (links, steps.length)

/-- Where a path starts. -/
def origin (tree : FileTree) (p : Path) : List String :=
  if p.isAbsolute then [] else tree.workingDirectory

/-- Fails for a text that cannot be a path of the system. -/
def checkPath (p : Path) : Except OsError Unit :=
  if p.holdsNul then .error .nulInPath
  else if p.text = "" then .error .notFound
  else if maxPathSize < p.text.utf8ByteSize then .error .nameTooLong
  else .ok ()

/-- Resolves a path. -/
def resolve (tree : FileTree) (ending : Ending) (p : Path) : Except OsError Target := do
  checkPath p
  tree.walk ending maxLinks (tree.origin p) (stepsOf p)

/-- Resolves a path whose slash at the end is left aside, a link at its end taken as it is. -/
def locate (tree : FileTree) (p : Path) : Except OsError Target := do
  checkPath p
  tree.walk .keep maxLinks (tree.origin p) (namesOf p)

/-- Resolves a path to an entry that exists, links followed. -/
def find (tree : FileTree) (p : Path) : Except OsError (List String × Entry) := do
  match ← tree.resolve .follow p with
  | .free _ _ => throw .notFound
  | .entry names entry => return (names, entry)

/-- Resolves a path to an entry that exists, a link at its end taken as it is; a slash at the end asks for a
directory. -/
def findKept (tree : FileTree) (p : Path) : Except OsError (List String × Entry) := do
  match ← tree.locate p with
  | .free _ _ => throw .notFound
  | .entry names entry =>
    if endsInSlash p ∧ entry ≠ .directory then throw .notADirectory
    return (names, entry)

/-- What a path leads to, links followed. -/
def kind (tree : FileTree) (p : Path) : Except OsError FileKind := do
  match (← tree.find p).2 with
  | .directory => return .directory
  | _ => return .file

/-- The bytes of a file. -/
def read (tree : FileTree) (p : Path) : Except OsError (List UInt8) := do
  match (← tree.find p).2 with
  | .file bytes => return bytes
  | .directory => throw .isADirectory
  | .link _ => throw .tooManyLinks

/-- The names that lead from a directory to an entry below it. -/
def below? (directory names : List String) : Option (List String) :=
  if directory.isPrefixOf names ∧ directory.length < names.length then some (names.drop directory.length) else none

/-- The regular files below a directory; none below the standard input. -/
def filesBelow (tree : FileTree) (p : Path) : Except OsError (List (List String)) := do
  match ← tree.find p with
  | (directory, .directory) =>
    if p.same standardInput then return []
    return tree.entries.filterMap fun found =>
      match found.2 with
      | .file _ => below? directory found.1
      | _ => none
  | _ => throw .notADirectory

/-- Makes a directory. -/
def makeDirectory (tree : FileTree) (p : Path) : Except OsError FileTree := do
  match ← tree.locate p with
  | .entry _ _ => throw .alreadyExists
  | .free directory name => return tree.insert (directory ++ [name]) .directory

/-- Makes a link; its target need not exist, but it has to be a path. -/
def makeLink (tree : FileTree) (p target : Path) : Except OsError FileTree := do
  if p.holdsNul then throw .nulInPath
  checkPath target
  match ← tree.locate p with
  | .entry _ _ => throw .alreadyExists
  | .free directory name =>
    if endsInSlash p then throw .notFound
    return tree.insert (directory ++ [name]) (.link target)

/-- Makes a file, or replaces the bytes of a file. -/
def write (tree : FileTree) (p : Path) (bytes : List UInt8) : Except OsError FileTree := do
  match ← tree.resolve .create p with
  | .entry _ .directory => throw .isADirectory
  | .entry names _ => return tree.insert names (.file bytes)
  | .free directory name => return tree.insert (directory ++ [name]) (.file bytes)

/-- The last piece of a path that is not empty leads nowhere by a name of its own. -/
def endsInDots (p : Path) : Bool :=
  match (namesOf p).getLast? with
  | none => true
  | some piece => piece = "." || piece = ".."

/-- Gives a file another path. -/
def rename (tree : FileTree) (p q : Path) : Except OsError FileTree := do
  if q.holdsNul then throw .nulInPath
  let (names, entry) ← tree.findKept p
  let target ← tree.locate q
  if endsInDots q then throw .busy
  if entry = .directory then throw .isADirectory
  if endsInSlash q then throw .notADirectory
  match target with
  | .entry _ .directory => throw .isADirectory
  | .entry other _ => return (tree.erase names).insert other entry
  | .free directory name => return (tree.erase names).insert (directory ++ [name]) entry

/-- Removes a file or a link. -/
def remove (tree : FileTree) (p : Path) : Except OsError FileTree := do
  match ← tree.findKept p with
  | (_, .directory) => throw .isADirectory
  | (names, _) => return tree.erase names

/-- An operation that leaves the tree as it was. -/
def query {α : Type} (operation : FileTree → Except OsError α) : StateM FileTree (Except OsError α) := do
  return operation (← get)

/-- An operation that changes the tree unless it fails. -/
def change (operation : FileTree → Except OsError FileTree) : StateM FileTree (Except OsError Unit) := do
  match operation (← get) with
  | .ok tree =>
    set tree
    return .ok ()
  | .error e => return .error e

instance : Files (StateM FileTree) where
  kind p := query (·.kind p)
  read p := query (·.read p)
  filesBelow p := query (·.filesBelow p)
  makeDirectory p := change (·.makeDirectory p)
  write p bytes := change (·.write p bytes)
  rename p q := change (·.rename p q)
  remove p := change (·.remove p)

end FileTree

end ClassCensus
