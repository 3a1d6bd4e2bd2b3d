import Shebang.CommandLine.Error
import Shebang.FileSystem

/-!
What the options of a command say, read from its arguments.
-/

namespace Shebang.CommandLine

structure OptionValues where
  quiet : Nat
  verbose : Nat
  noColor : Bool
  color : Option ColorMode
  format : OutputFormat
  nodes : Bool
  mergeConfig : Bool
  noConfig : Bool
  configFiles : List Text
  deriving DecidableEq, Repr

def OptionValues.initial : OptionValues where
  quiet := 0
  verbose := 0
  noColor := false
  color := none
  format := .default
  nodes := false
  mergeConfig := false
  noConfig := false
  configFiles := []

def optionHint (s : Scope) (key : OptionKey) : Text :=
  match s.option? key with
  | none => []
  | some o =>
    Text.joinWith " / " ((o.longName :: o.shortName.toList).map fun name => "'" ++ name ++ "'")

inductive ArgumentFault where
  | usage (cause : UsageError)
  | embeddedNul
  deriving DecidableEq, Repr

/-- Checks the name of a configuration file, which may be missing but is no directory, and which may
be read if it is there. -/
def checkFile (fs : FileSystem) (hint : Text) (name : Text) : Except ArgumentFault Unit :=
  if name.contains '\x00' then .error .embeddedNul
  else match fs.lookup name with
    | .directory _ => .error (.usage (.directory hint name))
    | .unopened why =>
      if why.number = Refusal.denied.number then .error (.usage (.unreadable hint name)) else .ok ()
    | _ => .ok ()

/-- The value of a choice option: the last one that was given. -/
def chosen {α : Type} (c : Choices α) (hint : Text) (values : List Text) :
    Except ArgumentFault (Option α) :=
  match values.getLast? with
  | none => .ok none
  | some t =>
    match c.choose t with
    | .ok v => .ok (some v)
    | .error e => .error (.usage (.choice hint e))

def OptionValues.set (fs : FileSystem) (s : Scope) (a : Arguments OptionKey) (v : OptionValues)
    (key : OptionKey) : Except ArgumentFault OptionValues :=
  let hint := optionHint s key
  match key with
  | .quiet => .ok { v with quiet := a.count .quiet }
  | .verbose => .ok { v with verbose := a.count .verbose }
  | .noColor => .ok { v with noColor := true }
  | .color => do pure { v with color := ← chosen ColorMode.choices hint (a.values .color) }
  | .format => do
    pure { v with format := (← chosen OutputFormat.choices hint (a.values .format)).getD .default }
  | .nodes => .ok { v with nodes := true }
  | .mergeConfig => .ok { v with mergeConfig := true }
  | .noConfig => .ok { v with noConfig := true }
  | .config => do
    (a.values .config).forM (checkFile fs hint)
    pure { v with configFiles := a.values .config }
  | .help => .ok v

/-- The options of a scope are looked at in the order of their first use. -/
def readValues (fs : FileSystem) (s : Scope) (a : Arguments OptionKey) :
    Except ArgumentFault OptionValues :=
  a.keys.foldlM (OptionValues.set fs s a) .initial

end Shebang.CommandLine
