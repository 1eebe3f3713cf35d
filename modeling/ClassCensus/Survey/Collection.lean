import ClassCensus.Mention.Reference
import ClassCensus.Survey.Request

/-!
# Collecting names

The names of a survey are those of all its units and layouts, or none at all.

* (units) the class entries of an archive, in its order, or class files; an archive has to be readable as a whole;
* (all or nothing) every unit and every layout is looked at; of several failures, that of the first unit counts, and
  that of a layout only if no unit fails (`gather`);
* (filter) the names of platform classes are left out.
-/

namespace ClassCensus

/-- A class of an archive: its bytes and the name by which messages call it. -/
structure ClassUnit where
  label : String
  bytes : List UInt8

/-- The entry is a class. -/
def isClassEntry (header : Archive.Header) : Bool :=
  !header.isDirectory && isClassFileName header.name

/-- The class in an entry of an archive, if it is one; every entry has to open. -/
def classUnit? (archive : Path) (image : Array UInt8) (number : Nat) (header : Archive.Header) :
    Except SurveyError (Option ClassUnit) := do
  let entry ← (Archive.openEntry image header).mapError fun e =>
    .inputOutput (.openEntry number archive) (.archive e)
  if !isClassEntry header then return none
  let bytes ← entry.read.mapError fun e => .inputOutput (.readEntry header.name archive) (.archive e)
  return some ⟨archive.text ++ "!" ++ header.name, bytes⟩

/-- The classes of entries, of which the first has the number `number`, after the classes `read` (latest first). -/
def classUnitsOnto (archive : Path) (image : Array UInt8) (read : List ClassUnit) (number : Nat) :
    (headers : List Archive.Header) → Except SurveyError (List ClassUnit)
  | [] => .ok read.reverse
  | header :: headers => do
    let unit? ← classUnit? archive image number header
    classUnitsOnto archive image (unit?.toList ++ read) (number + 1) headers

/-- The classes of an archive, in its order. -/
def classUnits (archive : Path) (bytes : List UInt8) : Except SurveyError (List ClassUnit) := do
  let image := bytes.toArray
  let headers ← (Archive.headers image).mapError fun e => .inputOutput (.readDirectory archive) (.archive e)
  classUnitsOnto archive image [] 0 headers

/-- The names that a unit refers to. -/
def ClassUnit.names (unit : ClassUnit) : Except SurveyError NameSet :=
  (classReferences unit.bytes).mapError (.malformedClass unit.label)

/-- The names that a layout in the file `path` holds. -/
def layoutNames (path : Path) (document : List UInt8) : Except SurveyError NameSet :=
  (Layout.dottedNames document).mapError (.malformedLayout path)

/-- The names of all units and layouts, or the first failure. -/
def gather (units layouts : List (Except SurveyError NameSet)) : Except SurveyError (NameSet × Nat) := do
  let unitNames ← units.mapM id
  let layoutNames ← layouts.mapM id
  return (NameSet.merge (unitNames ++ layoutNames), units.length)

variable {m : Type → Type} [Monad m] [Files m]

/-- The names of a class file. -/
def classFileNames (path : Path) : m (Except SurveyError NameSet) := do
  match ← Files.read path with
  | .error e => return .error (.inputOutput (.classFile path) (.os e))
  | .ok bytes => return (ClassUnit.mk path.text bytes).names

/-- The names of a layout, without those of platform classes. -/
def layoutFileNames (path : Path) : m (Except SurveyError NameSet) := do
  match ← Files.read path with
  | .error e => return .error (.inputOutput (.layout path) (.os e))
  | .ok document => return NameSet.withoutPlatform <$> layoutNames path document

/-- The bytes of an archive; a directory opens like a file and fails where its bytes are needed. -/
def archiveBytes (path : Path) : m (Except SurveyError (List UInt8)) := do
  match ← Files.read path with
  | .error .isADirectory => return .error (.inputOutput (.mapArchive path) (.os .noDevice))
  | .error e => return .error (.inputOutput (.openArchive path) (.os e))
  | .ok bytes => return .ok bytes

/-- The names of each unit of an artifact, unless the artifact as a whole cannot be read. -/
def Artifact.unitNames : Artifact → m (Except SurveyError (List (Except SurveyError NameSet)))
  | .archive path => do
    match ← archiveBytes path with
    | .error e => return .error e
    | .ok bytes => return (·.map ClassUnit.names) <$> classUnits path bytes
  | .classes paths => do return .ok (← paths.mapM classFileNames)

/-- The names of an artifact and of layouts, with the number of units. -/
def collect (artifact : Artifact) (layouts : List Path) : m (Except SurveyError (NameSet × Nat)) := do
  match ← artifact.unitNames with
  | .error e => return .error e
  | .ok units => return gather units (← layouts.mapM layoutFileNames)

end ClassCensus
