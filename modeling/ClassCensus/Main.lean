import ClassCensus.CommandLine.Usage
import ClassCensus.Program

/-!
# The program on a machine

The operations on files are those of the machine, the words of the command line are its arguments, and what a run has
to say is printed.
-/

namespace ClassCensus

namespace Machine

/-- The number of an error of the operating system; none for a failure that has no number. -/
def errorCode? : IO.Error → Option UInt32
  | .alreadyExists _ code _ | .interrupted _ code _ | .noFileOrDirectory _ code _ | .invalidArgument _ code _
  | .permissionDenied _ code _ | .resourceExhausted _ code _ | .inappropriateType _ code _ | .noSuchThing _ code _ =>
    some code
  | .otherError code _ | .resourceBusy code _ | .resourceVanished code _ | .unsupportedOperation code _
  | .hardwareFault code _ | .unsatisfiedConstraints code _ | .illegalOperation code _ | .protocolError code _
  | .timeExpired code _ => some code
  | .unexpectedEof | .userError _ => none

/-- The result of an operation on paths, with its failure as an error of the operating system. Some operations report
the number of an error with a minus sign, so only its size counts. -/
def attempt {α : Type} (paths : List Path) (operation : IO α) : IO (Except OsError α) := do
  if paths.any (·.holdsNul) then return .error .nulInPath
  match ← operation.toBaseIO with
  | .ok a => return .ok a
  | .error e =>
    match errorCode? e with
    | some code => return .error (.ofCode code.toInt32.toInt.natAbs)
    | none => throw e

/-- A path as the directory entry that the operations on files take. -/
def entry (p : Path) : IO.FS.DirEntry where
  root := p.text
  fileName := ""

/-- What a path leads to. -/
def kind (p : Path) : IO FileKind := do
  match (← (entry p).root.metadata).type with
  | .dir => return .directory
  | _ => return .file

/-- The regular files among the entries of a directory and below them, after the names `above`. -/
partial def filesAmong (above : List String) (entries : Array IO.FS.DirEntry) : IO (List (List String)) := do
  let found ← entries.toList.mapM fun e => do
    let names := above ++ [e.fileName]
    match (← e.path.symlinkMetadata).type with
    | .dir => filesAmong names (← e.path.readDir)
    | .file => return [names]
    | _ => return []
  return found.flatten

end Machine

instance : Files IO where
  kind p := Machine.attempt [p] (Machine.kind p)
  read p := Machine.attempt [p] do return (← IO.FS.readBinFile p.text).toList
  filesBelow p := Machine.attempt [p] do
    if p.same standardInput then return []
    Machine.filesAmong [] (← (Machine.entry p).root.readDir)
  makeDirectory p := Machine.attempt [p] (IO.FS.createDir p.text)
  write p bytes := Machine.attempt [p] (IO.FS.writeBinFile p.text ⟨bytes.toArray⟩)
  rename p q := Machine.attempt [p, q] (IO.FS.rename p.text q.text)
  remove p := Machine.attempt [p] (IO.FS.removeFile p.text)

/-- Prints what a run that took the given time has to say. -/
def Outcome.print (milliseconds : Nat) : Outcome → IO Unit
  | .usage error => if error.isRequested then IO.print error.answer else IO.eprint error.answer
  | .failed attempt error => IO.eprint (failureReport attempt error)
  | .finished summary => IO.println (summary.render milliseconds)

end ClassCensus

open ClassCensus in
/-- Runs the program on the words of its command line. -/
def main (words : List String) : IO UInt32 := do
  let start ← IO.monoMsNow
  let outcome ← runProgram (m := IO) (toString (← IO.monoNanosNow)) words
  outcome.print ((← IO.monoMsNow) - start)
  return UInt32.ofNat outcome.exitCode
