import ClassCensus.Archive.Reader
import ClassCensus.ClassFile.Error
import ClassCensus.FileSystem.Files
import ClassCensus.Layout.Outline

/-!
# Failures of a survey

A survey fails as a whole, for one reason: a class that is malformed, a layout that is malformed, or a file, directory
or archive that cannot be used.

* (texts) `SurveyError.message` is the text of the failure, `SurveyError.causes` the texts of what lies behind it.
-/

namespace ClassCensus

/-- Why a file, a directory or an archive cannot be used. -/
inductive IoCause where
  | os (error : OsError)
  | notADirectory
  | archive (fault : Archive.ArchiveFault)
deriving DecidableEq

/-- The text of a cause. -/
def IoCause.message : IoCause → String
  | .os error => error.message
  | .notADirectory => "not a directory"
  | .archive fault => fault.message

/-- The texts of a cause and of what lies behind it: behind an archive that ends too early lies the reading that came to
its end, in the same words. -/
def IoCause.causes (cause : IoCause) : List String :=
  cause.message :: match cause with
  | .archive .truncated => [cause.message]
  | _ => []

/-- What a survey was about to do with a file, a directory or an archive. -/
inductive IoContext where
  | classInput (path : Path)
  | classFile (path : Path)
  | layout (path : Path)
  | directory (path : Path)
  | walk (path : Path)
  | openArchive (path : Path)
  | mapArchive (path : Path)
  | readDirectory (archive : Path)
  /-- Opening the entry with a number. -/
  | openEntry (number : Nat) (archive : Path)
  | readEntry (name : String) (archive : Path)
  | makeReportDirectory (path : Path)
  | writeReport (path : Path)
  | replaceReport (path : Path)
deriving DecidableEq

/-- The words for what a survey was about to do. -/
def IoContext.describe : IoContext → String
  | .classInput path => s!"class input {path.text}"
  | .classFile path => s!"class file {path.text}"
  | .layout path => s!"layout {path.text}"
  | .directory path => s!"directory {path.text}"
  | .walk path => s!"walking {path.text}"
  | .openArchive path => s!"open jar {path.text}"
  | .mapArchive path => s!"mmap jar {path.text}"
  | .readDirectory archive => s!"read zip structure of {archive.text}"
  | .openEntry number archive => s!"entry #{number} of {archive.text}"
  | .readEntry name archive => s!"entry {name} of {archive.text}"
  | .makeReportDirectory path => s!"create report directory {path.text}"
  | .writeReport path => s!"write {path.text}"
  | .replaceReport path => s!"replace report {path.text}"

/-- Why a survey fails. -/
inductive SurveyError where
  | malformedClass (unit : String) (cause : FormatError)
  | malformedLayout (path : Path) (cause : Layout.LayoutError)
  | inputOutput (context : IoContext) (cause : IoCause)
deriving DecidableEq

/-- The text of a failure. -/
def SurveyError.message : SurveyError → String
  | .malformedClass unit cause => s!"malformed class {unit}: {cause.message}"
  | .malformedLayout path cause => s!"failed to parse layout {path.text}: {cause.message}"
  | .inputOutput context cause => s!"I/O error on {context.describe}: {cause.message}"

/-- The texts of a failure and of what lies behind it, the outermost first. -/
def SurveyError.causes (error : SurveyError) : List String :=
  error.message :: match error with
  | .malformedClass _ cause => [cause.message]
  | .malformedLayout _ _ => []
  | .inputOutput _ cause => cause.causes

end ClassCensus
