import ClassCensus.FileSystem.OsError
import ClassCensus.FileSystem.Path

/-!
# Operations on files

What the program asks of a file system. The program is written against these operations alone, so it runs on a file
tree held in memory as well as on the files of a machine.
-/

namespace ClassCensus

/-- What a path leads to, links followed. -/
inductive FileKind where
  | file
  | directory
deriving DecidableEq

/-- The path that stands for the standard input in a search for files. -/
def standardInput : Path := ⟨"-"⟩

/-- A computation with operations on files. -/
class Files (m : Type → Type) where
  /-- What a path leads to. -/
  kind : Path → m (Except OsError FileKind)
  /-- The bytes of a file. -/
  read : Path → m (Except OsError (List UInt8))
  /-- The regular files below a directory, each by the names that lead to it; links below it are not followed. Below the
  standard input none are found, even if a directory has that path. -/
  filesBelow : Path → m (Except OsError (List (List String)))
  /-- Makes a directory in a directory that exists. -/
  makeDirectory : Path → m (Except OsError Unit)
  /-- Makes a file, or replaces the bytes of a file. -/
  write : Path → List UInt8 → m (Except OsError Unit)
  /-- Gives a file another path, in place of any file there, in one step. -/
  rename : Path → Path → m (Except OsError Unit)
  /-- Removes a file. -/
  remove : Path → m (Except OsError Unit)

namespace Files

variable {m : Type → Type} [Monad m] [Files m]

/-- The path leads to a directory. -/
def isDirectory (p : Path) : m Bool := do
  match ← Files.kind p with
  | .ok .directory => return true
  | _ => return false

/-- Makes the first of the directories `paths`, each of which stands above the one before it; whatever of the others
does not exist is made first. -/
def makeDirectories : (paths : List Path) → m (Except OsError Unit)
  | [] => return .error .notFound
  | p :: above => do
    if p.text = "" then return .ok ()
    match ← Files.makeDirectory p with
    | .ok () => return .ok ()
    | .error .notFound =>
      match ← makeDirectories above with
      | .error e => return .error e
      | .ok () => made p (← Files.makeDirectory p)
    | .error e => made p (.error e)
where
  /-- The result for a directory that may have stood before. -/
  made (p : Path) (result : Except OsError Unit) : m (Except OsError Unit) := do
    match result with
    | .ok () => return .ok ()
    | .error e => if ← isDirectory p then return .ok () else return .error e

/-- Makes a directory and those above it. -/
def makeDirectoryWithParents (p : Path) : m (Except OsError Unit) :=
  makeDirectories p.ancestors

end Files

end ClassCensus
