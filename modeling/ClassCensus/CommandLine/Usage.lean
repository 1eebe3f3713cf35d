import ClassCensus.CommandLine.Argument

/-!
# Texts about usage

What the program says about its command line, when it is asked or when a command line is refused.
-/

namespace ClassCensus

/-- The name of the program and its version. -/
def versionText : String :=
  "class-census 0.1.0\n"

/-- The commands and options of the program. -/
def helpText : String :=
  "\n".intercalate [
    "Reports every class that an archive or a set of class files refers to.",
    "",
    "Usage: class-census [OPTIONS] jar <ARCHIVE> --output <FILE> [INPUTS]",
    "       class-census [OPTIONS] classes <PATH>... --output <FILE> [INPUTS]",
    "       class-census help [COMMAND]",
    "",
    "Options:",
    "      --threads <N>    Number of threads",
    "  -v, --verbose        Say more",
    "  -q, --quiet          Say less",
    "  -h, --help           Show this text",
    "  -V, --version        Show the version",
    "",
    "Inputs:",
    "  -o, --output <FILE>  Where the report goes",
    "      --layout <FILE>  A layout to take class names from",
    "      --res <DIR>      A directory of resources whose layouts are taken",
    ""]

/-- What is wrong with a command line. -/
def UsageError.describe : UsageError → String
  | .displayHelp | .displayVersion => "a text was asked for"
  | .displayHelpOnNothing | .missingCommand => "a command is missing"
  | .invalidCommand => "there is no such command"
  | .missingRequired => "a required argument is missing"
  | .unknownArgument => "an argument is not known here"
  | .conflict => "an argument is given twice, or arguments exclude each other"
  | .invalidValue => "the value of an option is missing or empty"
  | .unreadableValue => "the value of an option is not a number that it can take"
  | .unexpectedValue => "a value is given to an option that takes none"

/-- The answer to a command line that does not start a run. -/
def UsageError.answer : UsageError → String
  | .displayHelp | .displayHelpOnNothing => helpText
  | .displayVersion => versionText
  | error => s!"error: {error.describe}\n\n{helpText}"

end ClassCensus
