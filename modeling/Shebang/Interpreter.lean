import Shebang.Text

/-!
Interpreters named by a shebang line, and the tag that selects the grammar for the text below it.
-/

namespace Shebang

inductive Interpreter where
  | bash
  | zsh
  | unrecognized
  deriving DecidableEq, Repr

/-- The grammar for a script body; `none` leaves the body as it is. -/
inductive Tag where
  | bash
  | zsh
  | none
  deriving DecidableEq, Repr

namespace Interpreter

def ofToken (token : Text) : Interpreter :=
  if token = "bash" then .bash else if token = "zsh" then .zsh else .unrecognized

def name : Interpreter → Text
  | .bash => "bash"
  | .zsh => "zsh"
  | .unrecognized => "unrecognized"

def tag : Interpreter → Tag
  | .bash => .bash
  | .zsh => .zsh
  | .unrecognized => .none

end Interpreter

def Tag.name : Tag → Text
  | .bash => "bash"
  | .zsh => "zsh"
  | .none => "none"

end Shebang
