import Shebang.Text
import Shebang.Text.Quoted

/-!
Closed sets of values that a user chooses from by name.
-/

namespace Shebang

/-- The values of a kind, in the order in which they are offered. -/
structure Choices (α : Type) where
  kind : Text
  values : List α
  name : α → Text

structure InvalidChoice where
  value : Text
  offered : List Text
  deriving DecidableEq, Repr

def InvalidChoice.message (e : InvalidChoice) : Text :=
  "Invalid value '" ++ e.value ++ "'. Must be one of: " ++ Text.joinWith ", " e.offered

namespace Choices

variable {α : Type}

def names (c : Choices α) : List Text := c.values.map c.name

def find? (c : Choices α) (t : Text) : Option α := c.values.find? fun v => c.name v == t

def missing (c : Choices α) (t : Text) : Text := t.quoted ++ " is not a valid " ++ c.kind

/-- The value of this name, the case of letters aside. -/
def choose (c : Choices α) (t : Text) : Except InvalidChoice α :=
  match c.find? t.lower with
  | some v => .ok v
  | none => .error ⟨t, c.names⟩

def completions (c : Choices α) (t : Text) : List Text := c.names.filter (t.lower.isPrefixOf ·)

end Choices

end Shebang
