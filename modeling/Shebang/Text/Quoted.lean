import Shebang.Text
import Shebang.Text.Printable

/-!
Texts in quotes on one line. Single quotes are preferred; a text that holds a single quote and no
double quote stands in double quotes. What cannot be shown is written as an escape, so a quoted text
never breaks a line.
-/

namespace Shebang.Text

def quoteMark (t : Text) : Char :=
  if t.contains '\'' && !t.contains '"' then '"' else '\''

def hexDigits : Nat → Nat → Text
  | 0, _ => []
  | width + 1, n => hexDigits width (n / 16) ++ [Nat.digitChar (n % 16)]

def escapeCode (n : Nat) : Text :=
  if n < 0x100 then "\\x" ++ hexDigits 2 n
  else if n < 0x10000 then "\\u" ++ hexDigits 4 n
  else "\\U" ++ hexDigits 8 n

def escapeIn (mark c : Char) : Text :=
  if c = mark ∨ c = '\\' then ['\\', c]
  else if c = '\t' then "\\t"
  else if c = '\n' then "\\n"
  else if c = '\r' then "\\r"
  else if isPrintable c then [c]
  else escapeCode c.toNat

def quoted (t : Text) : Text :=
  quoteMark t :: t.flatMap (escapeIn (quoteMark t)) ++ [quoteMark t]

/-- A sequence of quoted texts in parentheses; a single one keeps its comma. -/
def quotedTuple : List Text → Text
  | [] => "()"
  | [t] => "(" ++ quoted t ++ ",)"
  | ts => "(" ++ joinWith ", " (ts.map quoted) ++ ")"

def quotedList (ts : List Text) : Text := "[" ++ joinWith ", " (ts.map quoted) ++ "]"

end Shebang.Text
