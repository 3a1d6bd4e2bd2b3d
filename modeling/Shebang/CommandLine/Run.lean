import Shebang.CommandLine.Detect
import Shebang.CommandLine.Help

/-!
The program as a function: from a world and arguments to what is written and how the run ends. The
arguments of the program are read first, then the session is set up, and then the arguments of the
command are read and the command is carried out.
-/

namespace Shebang.CommandLine

/-- Reads arguments for a scope. A fault in them ends the run, and so does a request for help, which
is answered before the values of other options are looked at. -/
def readScope (w : World) (color : Bool) (s : Scope) (arguments : List Text) :
    Program (OptionValues × List Text) := do
  match s.read arguments with
  | .error e => Program.usageError color s (.argument e)
  | .ok a =>
    if a.has .help then
      Program.emit [(Console.mk color).printLine s.help]
      throw (.exit ExitCode.success.code)
    match readValues w.files s a with
    | .error (.usage e) => Program.usageError color s e
    | .error .embeddedNul => Program.fail (.load (.notOpened .embeddedNul))
    | .ok values => pure (values, a.positionals)

/-- The log of a run. A level that the environment names counts, and so does zero. -/
def openLog (level : Option Text) : Except Text.NumeralError Log.Setup := do
  let given ← Log.parseLevel level
  Log.setup (given.map Int.ofNat) level

def openSession (w : World) (values : OptionValues) : Program Session := do
  match verbosityLevel values.verbose values.quiet with
  | .error e => Program.commandError false (.verbosity e)
  | .ok verbosity =>
    match openLog w.environment.logLevel with
    | .error e => Program.fail (.numeral e)
    | .ok log =>
      let mode := if values.noColor then .never else values.color.getD .auto
      pure {
        verbosity
        console := ⟨w.environment.colorEnabled (some mode) none w.terminal⟩
        log
        places := w.places }

def runCommand (w : World) (s : Session) (command : Command) (arguments : List Text) :
    Program ExitCode := do
  let scope := Scope.command command
  let (values, positionals) ← readScope w s.console.color scope arguments
  if !command.takesPaths ∧ positionals ≠ [] then
    Program.usageError s.console.color scope (.extraArguments positionals)
  match command with
  | .scan => scan w s values positionals
  | .detect => detect w s values positionals
  | .languages => languages w s values
  | .version => showVersion s values

/-- A command that does not exist. A name that looks like an option is read as one first, so help
can be asked for even here. -/
def unknownCommand (w : World) (name : Text) (rest : List Text) : Program ExitCode := do
  if isOption name then
    let _ ← readScope w false .program (name :: rest)
  Program.usageError false .program (.unknownCommand name)

def hint : Text := "Hint: use 'shebangscan scan [PATHS...]' to classify shebang lines."

def program (w : World) (arguments : List Text) : Program ExitCode := do
  let (values, rest) ← readScope w false .program arguments
  match rest with
  | [] =>
    let s ← openSession w values
    s.print [hint, [], Scope.program.help]
    pure .success
  | name :: rest =>
    match Command.ofName? name with
    | none => unknownCommand w name rest
    | some command => runCommand w (← openSession w values) command rest

def run (w : World) (arguments : List Text) : Outcome := .ofProgram (program w arguments)

end Shebang.CommandLine
