import Shebang.Interpreter
import Shebang.Script.Node

/-!
A script is its text split in two: the shebang line, if it has one, and the body below it. Both are
spans of the text, so the two parts together are the text again.
-/

namespace Shebang

inductive Form where
  | direct
  | viaLauncher
  deriving DecidableEq, Repr

def Form.name : Form → Text
  | .direct => "direct"
  | .viaLauncher => "via_launcher"

/-- A shebang line with its newline. `nodes` are its pieces in order, and `interpreter` is what the
token stands for. -/
structure ShebangLine where
  form : Form
  span : Span
  nodes : List Node
  pathPrefix : Text
  launcherFlags : List Text
  interpreterToken : Text
  interpreter : Interpreter
  arguments : Option Text
  deriving DecidableEq, Repr

def tagOf : Option ShebangLine → Tag
  | none => .none
  | some s => s.interpreter.tag

/-- `tag` is kept with the body, for those who do not look at the line. -/
structure Script where
  text : Text
  shebang : Option ShebangLine
  body : Span
  tag : Tag
  deriving DecidableEq, Repr

namespace Script

def hasShebang (s : Script) : Bool := s.shebang.isSome

def headerText (s : Script) : Text :=
  match s.shebang with
  | none => []
  | some line => line.span.text s.text

def bodyText (s : Script) : Text := s.body.text s.text

def reconstruct (s : Script) : Text := s.headerText ++ s.bodyText

/-- The shebang line, its pieces, and the body unless it is empty. -/
def nodes (s : Script) : List Node :=
  (match s.shebang with
    | none => []
    | some line => ⟨.shebangLine, line.span⟩ :: line.nodes) ++
  (if s.body.isEmpty then [] else [⟨.scriptContent, s.body⟩])

def textOf (s : Script) (n : Node) : Text := n.span.text s.text

def describe : Option ShebangLine → Text
  | none => "no shebang"
  | some s =>
    let invocation : Text :=
      match s.form with
      | .viaLauncher => "via launcher: " ++
          Text.joinWith " " ((s.pathPrefix ++ "env") :: s.launcherFlags ++ [s.interpreterToken])
      | .direct => "direct: " ++ s.pathPrefix ++ s.interpreterToken
    let remark : List Text :=
      if s.interpreter = .unrecognized then ["unrecognized interpreter"] else []
    let arguments : List Text :=
      match s.arguments with
      | none => []
      | some a => ["arguments: " ++ a]
    Text.joinWith ", " (invocation :: remark ++ arguments)

end Script

end Shebang
