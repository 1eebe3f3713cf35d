import ClassCensus.CommandLine.Basic
import ClassCensus.Survey.Report

/-!
# The program

A run of the program on the words of its command line ends in a summary, in a failure, or in an answer about its
usage.

* (failure) a failure is reported with what was attempted, then with its causes, the outermost first; several causes
  are numbered, and every line of a cause is indented.
-/

namespace ClassCensus

/-- How a run ends. -/
inductive Outcome where
  | usage (error : UsageError)
  /-- What was attempted, and why it failed. -/
  | failed (attempt : String) (error : SurveyError)
  | finished (summary : Summary)

/-- The words for the attempt to find the inputs. -/
def resolveAttempt : String :=
  "Failed to resolve analysis inputs"

/-- The words for the attempt to run a survey. -/
def runAttempt (output : Path) : String :=
  s!"Class reference analysis failed; {output.text} was not modified"

variable {m : Type → Type} [Monad m] [Files m]

/-- Runs the program. -/
def runProgram (tag : String) (words : List String) : m Outcome := do
  match CommandLine.parse words with
  | .error e => return .usage e
  | .ok line =>
    match ← line.order.resolve with
    | .error e => return .failed resolveAttempt e
    | .ok request =>
      match ← request.run tag with
      | .error e => return .failed (runAttempt request.output) e
      | .ok summary => return .finished summary

/-- A text with `indent` after each line break. -/
def indentLines (indent : String) (text : String) : String :=
  String.ofList (text.toList.flatMap fun c => if c = '\n' then '\n' :: indent.toList else [c])

/-- The lines of the cause with a number. -/
def numberedCause (number : Nat) (text : String) : String :=
  let digits := toString number
  String.ofList (List.replicate (5 - digits.length) ' ') ++ digits ++ ": " ++ indentLines "       " text

/-- The lines of causes. -/
def causeLines : List String → List String
  | [cause] => ["    " ++ indentLines "    " cause]
  | causes => causes.zipIdx.map fun cause => numberedCause cause.2 cause.1

/-- The report of a failure. -/
def failureReport (attempt : String) (error : SurveyError) : String :=
  "\n".intercalate (s!"Error: {attempt}" :: "" :: "Caused by:" :: causeLines error.causes) ++ "\n"

/-- The answer shows a text that was asked for. -/
def UsageError.isRequested : UsageError → Bool
  | .displayHelp | .displayVersion => true
  | _ => false

/-- The exit code of a run. -/
def Outcome.exitCode : Outcome → Nat
  | .usage error => if error.isRequested then 0 else 2
  | .failed _ _ => 1
  | .finished _ => 0

end ClassCensus
