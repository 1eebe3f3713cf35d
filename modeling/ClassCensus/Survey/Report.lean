import ClassCensus.Survey.Collection
import ClassCensus.Text.JsonString

/-!
# Reports

A survey ends by replacing its report. The text is written to a temporary file beside the report, which then takes the
place of the report in one step, so the report is never seen in parts.

* (failure) if the last step fails, the temporary file is removed and the report is as it was;
* (tag) the name of the temporary file carries a tag that tells one run from another.
-/

namespace ClassCensus

/-- The temporary file beside a report. -/
def temporaryPath (tag : String) (output : Path) : Path :=
  output.append s!".{tag}.tmp"

/-- What a survey reports about itself. -/
structure Summary where
  output : Path
  classUnits : Nat
  layoutFiles : Nat
  references : Nat
deriving DecidableEq

/-- A summary as a JSON object, a field to a line, for a run that took the given time. -/
def Summary.render (milliseconds : Nat) (summary : Summary) : String :=
  "\n".intercalate [
    "\x7b",
    s!"  \"output\": {Text.jsonString summary.output.text},",
    s!"  \"class_units\": {summary.classUnits},",
    s!"  \"layout_files\": {summary.layoutFiles},",
    s!"  \"references\": {summary.references},",
    s!"  \"duration_ms\": {milliseconds}",
    "\x7d"]

variable {m : Type → Type} [Monad m] [Files m]

/-- Makes the directory of a report, if it has one. -/
def prepareDirectory (output : Path) : m (Except SurveyError Unit) := do
  match output.parent? with
  | none => return .ok ()
  | some directory =>
    if directory.text = "" then return .ok ()
    match ← Files.makeDirectoryWithParents directory with
    | .ok () => return .ok ()
    | .error e => return .error (.inputOutput (.makeReportDirectory directory) (.os e))

/-- Replaces a report. -/
def writeReport (tag : String) (output : Path) (text : String) : m (Except SurveyError Unit) := do
  match ← prepareDirectory output with
  | .error e => return .error e
  | .ok () =>
    let temporary := temporaryPath tag output
    match ← Files.write temporary text.toUTF8.toList with
    | .error e => return .error (.inputOutput (.writeReport temporary) (.os e))
    | .ok () =>
      match ← Files.rename temporary output with
      | .ok () => return .ok ()
      | .error e =>
        let _ ← Files.remove temporary
        return .error (.inputOutput (.replaceReport output) (.os e))

/-- Runs a survey. -/
def Request.run (tag : String) (request : Request) : m (Except SurveyError Summary) := do
  match ← collect request.artifact request.layouts with
  | .error e => return .error e
  | .ok (names, units) =>
    match ← writeReport tag request.output names.render with
    | .error e => return .error e
    | .ok () =>
      return .ok {
        output := request.output, classUnits := units, layoutFiles := request.layouts.length
        references := names.size }

end ClassCensus
