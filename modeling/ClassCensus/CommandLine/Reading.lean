import ClassCensus.CommandLine.Argument

/-!
# Reading arguments

The words of a command line are read from left to right. An option that takes a value stays pending until the next
option, the next input or the end shows that its values are complete; only then is it recorded and its values checked.

* (words) a word is an option if it starts with a dash and is more than a dash; `--` makes all words after it inputs;
* (commands) the name of a command ends the reading of a level, unless an option waits for a value;
* (order) of two faults the one that is noticed first counts, which is why a value is checked when it is recorded.
-/

namespace ClassCensus

/-- What the next word may be. -/
inductive ReadingMode where
  /-- Anything. -/
  | open
  /-- The value of the pending option. -/
  | value
  /-- Anything but the name of a command. -/
  | inputs
deriving DecidableEq

/-- The words of a level read so far. -/
structure Reading where
  /-- The arguments recorded with their values, latest first. -/
  recorded : List (Argument × List String)
  /-- The argument whose values may not be complete, with its values, latest first. -/
  pending? : Option (Argument × List String)
  mode : ReadingMode
  /-- All words to come are inputs. -/
  onlyInputs : Bool

namespace Reading

/-- Nothing has been read. -/
def start : Reading := ⟨[], none, .open, false⟩

/-- The values of an argument, in order. -/
def values (r : Reading) (a : Argument) : List String :=
  (r.recorded.reverse.filter (·.1 = a)).flatMap (·.2)

/-- The argument has been recorded. -/
def has (r : Reading) (a : Argument) : Bool :=
  r.recorded.any (·.1 = a)

/-- The greatest number of threads that can be asked for. -/
def maxThreads : Nat := 0xFFFFFFFFFFFFFFFF

/-- The number that a word spells in decimal digits, after an optional plus sign. -/
def threads? (word : String) : Option Nat :=
  let digits := match word.toList with
    | '+' :: digits => digits
    | digits => digits
  if digits.isEmpty || !digits.all Char.isDigit then none
  else some (digits.foldl (fun n c => 10 * n + (c.toNat - '0'.toNat)) 0) |>.filter (· ≤ maxThreads)

/-- Checks a value of an argument. -/
def checkValue (a : Argument) (value : String) : Except UsageError Unit :=
  match a with
  | .threads => if (threads? value).isSome then .ok () else .error .unreadableValue
  | _ => if value = "" then .error .invalidValue else .ok ()

/-- Records an argument with its values. -/
def record (r : Reading) (a : Argument) (values : List String) : Except UsageError Reading := do
  match a.role with
  | .showHelp => throw .displayHelp
  | .showVersion => throw .displayVersion
  | .flag =>
    if r.has a then throw .conflict
  | .single =>
    if values.isEmpty then throw .invalidValue
    if r.has a then throw .conflict
  | .repeated =>
    if values.isEmpty then throw .invalidValue
  values.forM (checkValue a)
  return { r with recorded := (a, values) :: r.recorded }

/-- Records the pending argument. -/
def settle (r : Reading) : Except UsageError Reading :=
  match r.pending? with
  | none => .ok r
  | some (a, values) => { r with pending? := none }.record a values.reverse

/-- Reads a flag. -/
def flag (r : Reading) (a : Argument) : Except UsageError Reading := do
  let r ← (← r.settle).record a []
  return { r with mode := .open }

/-- Reads an option that takes a value, with the value if it is attached. -/
def option (r : Reading) (a : Argument) : (attached? : Option String) → Except UsageError Reading
  | some value => do
    let r ← (← r.settle).record a [value]
    return { r with mode := .open }
  | none => do
    let r ← r.settle
    return { r with pending? := some (a, []), mode := .value }

/-- Reads a long option with the text after its two dashes. -/
def longOption (level : ArgumentLevel) (r : Reading) (text : List Char) : Except UsageError Reading :=
  let name := text.takeWhile (· ≠ '=')
  let attached? := match text.dropWhile (· ≠ '=') with
    | [] => none
    | _ :: value => some (String.ofList value)
  match level.long.lookup (String.ofList name) with
  | none => .error .unknownArgument
  | some a =>
    if a.takesValue then r.option a attached?
    else if attached?.isSome then .error .unexpectedValue
    else r.flag a

/-- Reads the letters after a dash: flags, up to an option that takes the rest as its value. -/
def shortOptions (level : ArgumentLevel) (r : Reading) : (letters : List Char) → Except UsageError Reading
  | [] => .ok r
  | c :: letters =>
    match level.short.lookup c with
    | none => .error .unknownArgument
    | some a =>
      if a.takesValue then
        match letters with
        | [] => r.option a none
        | '=' :: value => r.option a (some (String.ofList value))
        | value => r.option a (some (String.ofList value))
      else do
        let r ← r.flag a
        r.shortOptions level letters

/-- Reads a word that is no option. -/
def input (level : ArgumentLevel) (r : Reading) (word : String) : Except UsageError Reading :=
  match level.input? with
  | none => .error (if r.onlyInputs ∧ word ∈ level.commands then .unknownArgument else .invalidCommand)
  | some a =>
    if a.role = .repeated then do
      match r.pending? with
      | some (b, values) =>
        if b = a then return { r with pending? := some (a, word :: values), mode := .inputs }
      | none => pure ()
      let r ← r.settle
      return { r with pending? := some (a, [word]), mode := .inputs }
    else if r.has a || r.pending?.any (·.1 = a) then .error .unknownArgument
    else do
      let r ← r.settle
      return { r with pending? := some (a, [word]), mode := .open }

/-- Reads the value of the pending option. -/
def value (r : Reading) (word : String) : Reading :=
  { r with
    pending? := r.pending?.map fun pending => (pending.1, word :: pending.2)
    mode := .open }

/-- Reads words of a level up to the name of a command, which comes with the words after it. -/
def words (level : ArgumentLevel) (r : Reading) :
    List String → Except UsageError (Reading × Option (String × List String))
  | [] => .ok (r, none)
  | word :: rest =>
    if r.onlyInputs then do
      (← r.input level word).words level rest
    else if r.mode = .open ∧ word ∈ level.commands then .ok (r, some (word, rest))
    else match word.toList with
    | ['-', '-'] => { r with onlyInputs := true }.words level rest
    | '-' :: '-' :: text => do
      (← r.longOption level text).words level rest
    | '-' :: c :: letters => do
      (← r.shortOptions level (c :: letters)).words level rest
    | _ =>
      if r.mode = .value then (r.value word).words level rest
      else do
        (← r.input level word).words level rest

/-- Checks that the required arguments of a level are given. -/
def checkRequired (level : ArgumentLevel) (r : Reading) : Except UsageError Unit :=
  if level.required.all r.has then .ok () else .error .missingRequired

end Reading

end ClassCensus
