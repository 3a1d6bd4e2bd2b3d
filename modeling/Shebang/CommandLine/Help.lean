import Shebang.CommandLine.Command

/-!
Help screens: two columns, the second one wrapped at the width of the page.
-/

namespace Shebang.CommandLine

def pageWidth : Nat := 80

/-- Puts words on a line as long as they fit, and then on the next one. `line` is the line so far.
-/
def wrapFrom (width : Nat) (line : Text) : List Text → List Text
  | [] => [line]
  | word :: words =>
    if line.length + 1 + word.length ≤ width then wrapFrom width (line ++ ' ' :: word) words
    else line :: wrapFrom width word words

def wrap (width : Nat) (t : Text) : List Text :=
  match t.splitOn ' ' with
  | [] => []
  | word :: words => wrapFrom width word words

def entryLines (column : Nat) (entry : Text × Text) : List Text :=
  match wrap (pageWidth - column) entry.2 with
  | [] => ["  " ++ entry.1]
  | first :: others =>
    (Text.padRight column ("  " ++ entry.1) ++ first) ::
      others.map fun line => List.replicate column ' ' ++ line

def sectionLines (title : Text) (entries : List (Text × Text)) : List Text :=
  let column := (entries.map fun e => e.1.length).foldl max 0 + 4
  [] :: title :: entries.flatMap (entryLines column)

def optionEntry (o : OptionSpec OptionKey) : Text × Text :=
  (Text.joinWith ", " o.names ++
    (match o.valueName with
      | none => []
      | some v => ' ' :: v), o.help)

def Scope.help (s : Scope) : Text :=
  let commands : List Text :=
    match s with
    | .program => sectionLines "Commands:" (Command.all.map fun c => (c.name, c.summary))
    | .command _ => []
  Text.joinWith "\n" (
    [s.usage, [], "  " ++ s.summary] ++ sectionLines "Options:" (s.options.map optionEntry) ++
      commands)

end Shebang.CommandLine
