/-!
# Errors of the operating system

The reasons for which an operation on files can fail, with their numbers and texts. A path that cannot be handed to the
system at all fails before the system is asked, so that reason has no number.
-/

namespace ClassCensus

/-- A reason for which an operation on files fails. -/
inductive OsError where
  /-- The path holds the character that ends a text for the system. -/
  | nulInPath
  | notPermitted
  | notFound
  | permissionDenied
  | busy
  | alreadyExists
  | noDevice
  | notADirectory
  | isADirectory
  | invalidArgument
  | noSpace
  | readOnly
  | nameTooLong
  | directoryNotEmpty
  | tooManyLinks
  | other (code : Nat)
deriving DecidableEq

namespace OsError

/-- The number of an error that the system reports. -/
def code? : OsError → Option Nat
  | .nulInPath => none
  | .notPermitted => some 1
  | .notFound => some 2
  | .permissionDenied => some 13
  | .busy => some 16
  | .alreadyExists => some 17
  | .noDevice => some 19
  | .notADirectory => some 20
  | .isADirectory => some 21
  | .invalidArgument => some 22
  | .noSpace => some 28
  | .readOnly => some 30
  | .nameTooLong => some 36
  | .directoryNotEmpty => some 39
  | .tooManyLinks => some 40
  | .other code => some code

/-- The errors that have a text of their own. -/
def named : List OsError :=
  [.notPermitted, .notFound, .permissionDenied, .busy, .alreadyExists, .noDevice, .notADirectory, .isADirectory,
    .invalidArgument, .noSpace, .readOnly, .nameTooLong, .directoryNotEmpty, .tooManyLinks]

/-- The error with a number. -/
def ofCode (code : Nat) : OsError :=
  (named.find? (·.code? = some code)).getD (.other code)

/-- The words for an error. -/
def describe : OsError → String
  | .nulInPath => "file name contained an unexpected NUL byte"
  | .notPermitted => "Operation not permitted"
  | .notFound => "No such file or directory"
  | .permissionDenied => "Permission denied"
  | .busy => "Device or resource busy"
  | .alreadyExists => "File exists"
  | .noDevice => "No such device"
  | .notADirectory => "Not a directory"
  | .isADirectory => "Is a directory"
  | .invalidArgument => "Invalid argument"
  | .noSpace => "No space left on device"
  | .readOnly => "Read-only file system"
  | .nameTooLong => "File name too long"
  | .directoryNotEmpty => "Directory not empty"
  | .tooManyLinks => "Too many levels of symbolic links"
  | .other code => s!"Unknown error {code}"

/-- The text of an error. -/
def message (error : OsError) : String :=
  match error.code? with
  | some code => s!"{error.describe} (os error {code})"
  | none => error.describe

end OsError

end ClassCensus
