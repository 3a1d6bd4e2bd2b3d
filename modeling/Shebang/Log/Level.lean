import Shebang.Diagnostic
import Shebang.Text.Numeral
import Shebang.Text.Quoted

/-!
Levels of the log. A level is a number; some numbers have names.
-/

namespace Shebang.Log

def levelNames : List (Text × Nat) := [
  ("TRACE", 5),
  ("DEBUG", 10),
  ("INFO", 20),
  ("WARNING", 30),
  ("WARN", 30),
  ("ERROR", 40),
  ("CRITICAL", 50),
  ("FATAL", 50),
  ("NOTSET", 0)]

def critical : Nat := 50

def levelOfName? (name : Text) : Option Nat :=
  (levelNames.find? fun e => e.1 == name).map Prod.snd

def levelName (level : Int) : Text :=
  match levelNames.find? fun e => (e.2 : Int) == level with
  | some e => e.1
  | none => "Level " ++ Text.ofInt level

def severityLevel : Severity → Nat
  | .trace => 5
  | .debug => 10
  | .info => 20
  | .error => 40

/-- Reads a level: a numeral or a name, blanks around it and the case of letters aside. A text that
is neither is no level; a text of digits that is no decimal numeral is an error. -/
def parseLevel : Option Text → Except Text.NumeralError (Option Nat)
  | none => .ok none
  | some value =>
    let word := (value.trim Text.isBlank).upper
    if word ≠ [] ∧ word.all Text.isDigit then some <$> Text.readNumeral word
    else .ok (levelOfName? word)

structure Setup where
  level : Int
  debugFormat : Bool
  deriving DecidableEq, Repr

def Setup.ofLevel (level : Int) : Setup := ⟨level, level < 20⟩

/-- A level that is given counts as it is. Otherwise the environment decides, where zero counts as
nothing, and `critical` if that is silent too. -/
def setup (level : Option Int) (environment : Option Text) : Except Text.NumeralError Setup :=
  match level with
  | some n => .ok (.ofLevel n)
  | none => do
    match ← parseLevel environment with
    | none | some 0 => pure (.ofLevel critical)
    | some n => pure (.ofLevel n)

end Shebang.Log

namespace Shebang.Text

def shownNumeral : Nat := 200

def NumeralError.message : NumeralError → Text
  | .tooLong digits =>
    "Exceeds the limit (" ++ ofNat numeralLimit ++
      " digits) for integer string conversion: value has " ++ ofNat digits ++
      " digits; use sys.set_int_max_str_digits() to increase the limit"
  | .notDecimal t =>
    "invalid literal for int() with base 10: " ++ (quoted t).take shownNumeral

end Shebang.Text
