import Shebang.Config.Error
import Shebang.CommandLine.Command
import Shebang.ExitCode
import Shebang.Input

/-!
What ends a run before its command has done its work.
-/

namespace Shebang.CommandLine

inductive UsageError where
  | argument (cause : ArgumentError)
  | choice (option : Text) (cause : InvalidChoice)
  | directory (option : Text) (path : Text)
  | unreadable (option : Text) (path : Text)
  | unknownCommand (name : Text)
  | extraArguments (arguments : List Text)
  deriving DecidableEq, Repr

namespace UsageError

def message : UsageError → Text
  | .argument (.unknownOption name) => "No such option " ++ name.quoted ++ "."
  | .argument (.missingValue name) => "Option " ++ name.quoted ++ " requires an argument."
  | .argument (.unexpectedValue name) => "Option " ++ name.quoted ++ " does not take a value."
  | .choice option cause => "Invalid value for " ++ option ++ ": " ++ cause.message
  | .directory option path =>
    "Invalid value for " ++ option ++ ": File " ++ path.quoted ++ " is a directory."
  | .unreadable option path =>
    "Invalid value for " ++ option ++ ": File " ++ path.quoted ++ " is not readable."
  | .unknownCommand name => "No such command " ++ name.quoted ++ "."
  | .extraArguments [extra] => "Got unexpected extra argument (" ++ extra ++ ")"
  | .extraArguments extras =>
    "Got unexpected extra arguments (" ++ Text.joinWith " " extras ++ ")"

def showsUsage : UsageError → Bool
  | .argument (.missingValue _) => false
  | .argument (.unexpectedValue _) => false
  | _ => true

/-- The exit code of these errors is not one of the program's own. -/
def code : Nat := 2

def report (e : UsageError) (s : Scope) : Text :=
  let usage : Text :=
    if e.showsUsage then
      s.usage ++ "\nTry '" ++ s.path ++ " --help' for help.\n\n"
    else ""
  usage ++ "Error: " ++ e.message

end UsageError

inductive CommandError where
  | verbosity (cause : VerbosityConflict)
  | inputs (cause : InputListError)
  | config (cause : ConfigError)
  deriving DecidableEq, Repr

namespace CommandError

def message : CommandError → Text
  | .verbosity cause => cause.message
  | .inputs cause => cause.message
  | .config cause => cause.message

def exitCode : CommandError → ExitCode
  | .verbosity _ => .usageError
  | .inputs _ => .usageError
  | .config _ => .configError

end CommandError

end Shebang.CommandLine
