import Shebang.CommandLine.Arguments
import Shebang.Settings
import Shebang.Version

/-!
The commands of the program and their options.
-/

namespace Shebang.CommandLine

inductive OptionKey where
  | quiet
  | verbose
  | noColor
  | color
  | format
  | nodes
  | mergeConfig
  | noConfig
  | config
  | help
  deriving DecidableEq, Repr

inductive Command where
  | detect
  | languages
  | scan
  | version
  deriving DecidableEq, Repr

def helpOption : OptionSpec OptionKey where
  key := .help
  short := some 'h'
  long := "help"
  valueName := none
  help := "Show this message and exit."

def formatOption : OptionSpec OptionKey where
  key := .format
  short := none
  long := "format"
  valueName := some "OUTPUTFORMAT"
  help := "Output format (" ++ Text.joinWith ", " OutputFormat.choices.names ++ ")."

def programOptions : List (OptionSpec OptionKey) := [
  { key := .quiet
    short := some 'q'
    long := "quiet"
    valueName := none
    help := "Suppress per-file output; only errors and the exit code remain." },
  { key := .verbose
    short := some 'v'
    long := "verbose"
    valueName := none
    help := "Increase verbosity (e.g. show the node partition of each shebang line)." },
  { key := .noColor
    short := none
    long := "no-color"
    valueName := none
    help := "Disable color output (equivalent to --color=never)." },
  { key := .color
    short := none
    long := "color"
    valueName := some "COLORMODE"
    help := "Color output: auto (default), always, or never." },
  helpOption]

def configOptions : List (OptionSpec OptionKey) := [
  { key := .mergeConfig
    short := some 'M'
    long := "merge-config"
    valueName := none
    help := "Union language extensions across config layers instead of replacing them." },
  { key := .noConfig
    short := none
    long := "no-config"
    valueName := none
    help := "Ignore pyproject.toml and shebangscan.toml in the working directory." },
  { key := .config
    short := some 'c'
    long := "config"
    valueName := some "FILE"
    help := "Additional config file(s) to merge after discovered ones (later wins)." },
  formatOption,
  helpOption]

def nodesOption : OptionSpec OptionKey where
  key := .nodes
  short := none
  long := "nodes"
  valueName := none
  help := "Include the named span partition of each shebang line."

namespace Command

def all : List Command := [.detect, .languages, .scan, .version]

def name : Command → Text
  | .detect => "detect"
  | .languages => "languages"
  | .scan => "scan"
  | .version => "version"

def ofName? (t : Text) : Option Command := all.find? fun c => c.name == t

def summary : Command → Text
  | .detect => "Detect the language of each PATH from its extension and shebang."
  | .languages => "List the configured languages."
  | .scan => "Classify the shebang line of each PATH ('-' reads STDIN)."
  | .version => "Show the current version of ShebangScan."

def options : Command → List (OptionSpec OptionKey)
  | .detect => configOptions
  | .languages => configOptions
  | .scan => [formatOption, nodesOption, helpOption]
  | .version => [formatOption, helpOption]

def takesPaths : Command → Bool
  | .detect => true
  | .scan => true
  | _ => false

end Command

/-- What arguments are read for: the program as a whole, or one of its commands. -/
inductive Scope where
  | program
  | command (command : Command)
  deriving DecidableEq, Repr

namespace Scope

def path : Scope → Text
  | .program => toolName
  | .command c => toolName ++ " " ++ c.name

def options : Scope → List (OptionSpec OptionKey)
  | .program => programOptions
  | .command c => c.options

def option? (s : Scope) (key : OptionKey) : Option (OptionSpec OptionKey) :=
  s.options.find? fun o => o.key == key

def summary : Scope → Text
  | .program => "ShebangScan: shebang recognition and shell language detection."
  | .command c => c.summary

def usage (s : Scope) : Text :=
  let positionals : Text :=
    match s with
    | .program => " [COMMAND] [ARGS]..."
    | .command c => if c.takesPaths then " [PATHS]..." else ""
  "Usage: " ++ s.path ++ " [OPTIONS]" ++ positionals

def read (s : Scope) (arguments : List Text) : Except ArgumentError (Arguments OptionKey) :=
  readArguments s.options (s != .program) arguments

end Scope

end Shebang.CommandLine
