import Shebang.Terminal.Style

/-!
What a program sends to its two output channels. Without color all control sequences are removed,
whoever wrote them.
-/

namespace Shebang

inductive Emission where
  | out (text : Text)
  | err (text : Text)
  deriving DecidableEq, Repr

namespace Emission

def outText : Emission → Text
  | .out text => text
  | .err _ => []

def errText : Emission → Text
  | .out _ => []
  | .err text => text

def outputOf (es : List Emission) : Text := es.flatMap outText

def errorsOf (es : List Emission) : Text := es.flatMap errText

end Emission

structure Console where
  color : Bool
  deriving DecidableEq, Repr

namespace Console

open Terminal

/-- The text as it goes out, with a line feed if `newline` is set. -/
def echo (c : Console) (text : Text) (newline : Bool) : Text :=
  let full := if newline then text ++ ['\n'] else text
  if c.color then full else strip full

def styled (c : Console) (style : Style) (text : Text) : Text :=
  if c.color then style.apply text else text

def warningStyle : Style := { color := some .yellow }

def errorStyle : Style := { color := some .brightRed }

def print (c : Console) (text : Text) (newline : Bool) : Emission := .out (c.echo text newline)

def warn (c : Console) (text : Text) (newline : Bool) : Emission :=
  .err (c.echo (warningStyle.apply text) newline)

def error (c : Console) (text : Text) (newline : Bool) : Emission :=
  .err (c.echo (errorStyle.apply text) newline)

def printLine (c : Console) (text : Text) : Emission := c.print text true

def errorLine (c : Console) (text : Text) : Emission := c.error text true

def failure (c : Console) (message : Text) : Emission :=
  c.errorLine (c.styled errorStyle ("Error: " ++ message))

def plainFailure (c : Console) (message : Text) : Emission :=
  .err (c.echo ("Error: " ++ message) true)

end Console

end Shebang
