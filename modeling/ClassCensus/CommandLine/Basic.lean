import ClassCensus.CommandLine.Reading
import ClassCensus.Survey.Request

/-!
# Command lines

A command line is an order for a survey with options about the run.

* (parts) the command with all its arguments is read before the options in front of it are settled, so its faults come
  first;
* (help) `help` shows the help of the command that its words name, if they name one.
-/

namespace ClassCensus

/-- What a command line says. -/
structure CommandLine where
  /-- The number of threads asked for; 0 asks for the default. -/
  threads? : Option Nat
  verbose : Bool
  quiet : Bool
  order : Order
deriving DecidableEq

namespace CommandLine

/-- The answer to the command that shows help, which takes the name of at most one command. -/
def helpAnswer : List String → UsageError
  | [] => .displayHelp
  | [word] => if word ∈ outerLevel.commands then .displayHelp else .invalidCommand
  | _ => .invalidCommand

/-- The order that a command with its arguments spells. -/
def parseCommand (command : Command) (words : List String) : Except UsageError Order := do
  let (r, _) ← Reading.start.words command.level words
  let r ← r.settle
  r.checkRequired command.level
  let paths := (r.values command.input).map Path.mk
  let some output := (r.values .output).head? | throw .missingRequired
  let artifact ← match command, paths with
    | .archive, path :: _ => pure (.archive path)
    | .archive, [] => throw .missingRequired
    | .classes, paths => pure (.classes paths)
  return {
    artifact, output := ⟨output⟩
    layouts := (r.values .layout).map Path.mk
    resources := (r.values .resources).map Path.mk }

/-- The fault of a command line without a command. -/
def withoutCommand (r : Reading) : UsageError :=
  if r.recorded.isEmpty then .displayHelpOnNothing else .missingCommand

/-- The command line that words spell. -/
def parse (words : List String) : Except UsageError CommandLine := do
  let (r, command?) ← Reading.start.words outerLevel words
  match command? with
  | none => throw (withoutCommand (← r.settle))
  | some (name, rest) =>
    let some command := Command.ofName? name | throw (helpAnswer rest)
    let order ← parseCommand command rest
    let r ← r.settle
    if r.has .verbose && r.has .quiet then throw .conflict
    return {
      threads? := (r.values .threads).head?.bind Reading.threads?
      verbose := r.has .verbose
      quiet := r.has .quiet
      order }

end CommandLine

end ClassCensus
