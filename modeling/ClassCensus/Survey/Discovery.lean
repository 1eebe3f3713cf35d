import ClassCensus.Survey.Error

/-!
# Finding inputs

Class files and layouts are given one by one or by directories above them.

* (class files) of the inputs that are files, those are kept whose name ends in `.class`; below a directory, the
  regular files with such a name (`expandClassInputs`);
* (layouts) below a resource directory, the regular files with the extension `xml` whose path from there mentions
  `layout` (`layoutsBelow`);
* (order) results are in the order of paths.
-/

namespace ClassCensus

variable {m : Type → Type} [Monad m] [Files m]

/-- The name is that of a class file. -/
def isClassFileName (name : String) : Bool :=
  ".class".toList.isSuffixOf name.toList

/-- The part occurs in the characters. -/
def occursIn (part : List Char) : List Char → Bool
  | [] => part.isEmpty
  | c :: chars => part.isPrefixOf (c :: chars) || occursIn part chars

/-- The names lead to a layout. -/
def isLayoutPath (names : List String) : Bool :=
  (names.getLast?.bind Path.extensionOf?) = some "xml" && names.any fun name => occursIn "layout".toList name.toList

/-- The regular files below a directory that are kept, as paths. -/
def filesBelow (directory : Path) (keep : List String → Bool) : m (Except SurveyError (List Path)) := do
  if !(← Files.isDirectory directory) then
    return .error (.inputOutput (.directory directory) .notADirectory)
  match ← Files.filesBelow directory with
  | .error e => return .error (.inputOutput (.walk directory) (.os e))
  | .ok found => return .ok ((found.filter keep).map fun names => directory.join ("/".intercalate names))

/-- The class files of one input. -/
def classFilesOf (input : Path) : m (Except SurveyError (List Path)) := do
  match ← Files.kind input with
  | .error e => return .error (.inputOutput (.classInput input) (.os e))
  | .ok .directory => filesBelow input fun names => names.getLast?.any isClassFileName
  | .ok .file => return .ok (if input.fileName?.any isClassFileName then [input] else [])

/-- The results of a computation for each path in order, up to the first failure. -/
def concatenate (find : Path → m (Except SurveyError (List Path))) :
    (paths : List Path) → m (Except SurveyError (List Path))
  | [] => return .ok []
  | path :: paths => do
    match ← find path with
    | .error e => return .error e
    | .ok found =>
      match ← concatenate find paths with
      | .error e => return .error e
      | .ok rest => return .ok (found ++ rest)

/-- The class files of inputs, in order and each once. -/
def expandClassInputs (inputs : List Path) : m (Except SurveyError (List Path)) := do
  return Path.sortDistinct <$> (← concatenate classFilesOf inputs)

/-- The layouts below a resource directory, in order. -/
def layoutsBelow (resources : Path) : m (Except SurveyError (List Path)) := do
  return Path.sort <$> (← filesBelow resources isLayoutPath)

/-- The layouts given and those below resource directories, in order and each once. -/
def resolveLayouts (layouts resources : List Path) : m (Except SurveyError (List Path)) := do
  return (fun found => Path.sortDistinct (layouts ++ found)) <$> (← concatenate layoutsBelow resources)

end ClassCensus
