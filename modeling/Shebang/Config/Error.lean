import Shebang.FileSystem

/-!
What is wrong with a configuration source.
-/

namespace Shebang

inductive ConfigProblem where
  | unreadable (why : Refusal)
  | notUtf8
  | invalidToml (reason : Text)
  | notFound
  | languagesNotTable
  | languageNotTable (name : Text)
  | extensionsNotStrings (name : Text)
  | descriptionNotString (name : Text)
  deriving DecidableEq, Repr

def ConfigProblem.message : ConfigProblem → Text
  | .unreadable why => "cannot read file (" ++ why.reason ++ ")"
  | .notUtf8 => "file is not valid UTF-8"
  | .invalidToml reason => "invalid TOML (" ++ reason ++ ")"
  | .notFound => "config file not found"
  | .languagesNotTable => "'languages' must be a table"
  | .languageNotTable name => "'languages." ++ name ++ "' must be a table"
  | .extensionsNotStrings name => "'languages." ++ name ++ ".extensions' must be a list of strings"
  | .descriptionNotString name => "'languages." ++ name ++ ".description' must be a string"

structure ConfigError where
  path : Option Path
  problem : ConfigProblem
  deriving DecidableEq, Repr

def ConfigError.message (e : ConfigError) : Text :=
  match e.path with
  | none => e.problem.message
  | some p => p.display ++ ": " ++ e.problem.message

end Shebang
