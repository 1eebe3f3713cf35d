/-!
# Arguments

The arguments that the command line knows: their names, what they take, and where they may stand.

* (levels) the program has options of its own and two commands, each with its options and its inputs.
-/

namespace ClassCensus

/-- Why a command line is refused, or answered with a text instead of a run. -/
inductive UsageError where
  | displayHelp
  | displayVersion
  /-- Nothing at all was given. -/
  | displayHelpOnNothing
  | missingCommand
  | invalidCommand
  | missingRequired
  | unknownArgument
  /-- Arguments that exclude each other, or one given twice. -/
  | conflict
  /-- A value that is missing or empty. -/
  | invalidValue
  | unreadableValue
  /-- A value for an argument that takes none. -/
  | unexpectedValue
deriving DecidableEq

/-- The arguments. -/
inductive Argument where
  | help
  | version
  | verbose
  | quiet
  | threads
  | output
  | layout
  | resources
  /-- The archive that a command takes as its input. -/
  | archive
  /-- A class file or directory that a command takes as an input. -/
  | classes
deriving DecidableEq

/-- What becomes of an argument that is given. -/
inductive ArgumentRole where
  | showHelp
  | showVersion
  | flag
  | single
  | repeated
deriving DecidableEq

/-- What becomes of an argument. -/
def Argument.role : Argument → ArgumentRole
  | .help => .showHelp
  | .version => .showVersion
  | .verbose | .quiet => .flag
  | .threads | .output | .archive => .single
  | .layout | .resources | .classes => .repeated

/-- The argument takes a value. -/
def Argument.takesValue (a : Argument) : Bool :=
  a.role = .single || a.role = .repeated

/-- The option of a long name. -/
abbrev LongNames := List (String × Argument)

/-- The option of a letter. -/
abbrev ShortNames := List (Char × Argument)

/-- The arguments that may stand at one place of the command line. -/
structure ArgumentLevel where
  long : LongNames
  short : ShortNames
  /-- The argument that takes the words that are no options. -/
  input? : Option Argument
  commands : List String
  /-- The arguments that have to be given. -/
  required : List Argument

/-- The two commands of a survey. -/
inductive Command where
  | archive
  | classes
deriving DecidableEq

/-- The word for a command. -/
def Command.name : Command → String
  | .archive => "jar"
  | .classes => "classes"

/-- The command of a word. -/
def Command.ofName? (name : String) : Option Command :=
  [Command.archive, Command.classes].find? (·.name = name)

/-- The word for the command that shows help. -/
def helpCommand : String := "help"

/-- The input of a command. -/
def Command.input : Command → Argument
  | .archive => .archive
  | .classes => .classes

/-- The arguments before a command. -/
def outerLevel : ArgumentLevel where
  long := [("threads", .threads), ("verbose", .verbose), ("quiet", .quiet), ("help", .help), ("version", .version)]
  short := [('v', .verbose), ('q', .quiet), ('h', .help), ('V', .version)]
  input? := none
  commands := [Command.archive.name, Command.classes.name, helpCommand]
  required := []

/-- The arguments of a command. -/
def Command.level (command : Command) : ArgumentLevel where
  long := [("output", .output), ("layout", .layout), ("res", .resources), ("help", .help)]
  short := [('o', .output), ('h', .help)]
  input? := some command.input
  commands := []
  required := [command.input, .output]

end ClassCensus
