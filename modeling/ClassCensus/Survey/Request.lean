import ClassCensus.Survey.Discovery

/-!
# Requests

What a survey is asked for on a command line, and the same with every input found.

* (threads) a number of threads changes no answer, so a request holds none.
-/

namespace ClassCensus

/-- The compiled artifact that a command line names. -/
inductive Artifact where
  | archive (path : Path)
  /-- Class files, or directories above them. -/
  | classes (paths : List Path)
deriving DecidableEq

/-- What a command line asks for. -/
structure Order where
  artifact : Artifact
  output : Path
  layouts : List Path
  resources : List Path
deriving DecidableEq

/-- What a survey is to do: an archive or class files, layouts, and where the report goes. -/
structure Request where
  artifact : Artifact
  layouts : List Path
  output : Path
deriving DecidableEq

variable {m : Type → Type} [Monad m] [Files m]

/-- The artifact with its class files found. -/
def Artifact.resolve : Artifact → m (Except SurveyError Artifact)
  | .archive path => return .ok (.archive path)
  | .classes paths => do return .classes <$> (← expandClassInputs paths)

/-- The request of an order, with every input found. -/
def Order.resolve (order : Order) : m (Except SurveyError Request) := do
  match ← order.artifact.resolve with
  | .error e => return .error e
  | .ok artifact =>
    match ← resolveLayouts order.layouts order.resources with
    | .error e => return .error e
    | .ok layouts => return .ok { artifact, layouts, output := order.output }

end ClassCensus
