import Shebang.Text

/-!
Languages and the file extensions that belong to them. Extensions are kept without leading dots.
-/

namespace Shebang

structure Language where
  name : Text
  extensions : List Text
  description : Text
  deriving DecidableEq, Repr

namespace Language

/-- Leading dots of the extension that is asked for do not count. -/
def matchesExtension (l : Language) (extension : Text) : Bool :=
  l.extensions.contains extension.dropDots

def builtins : List Language := [
  { name := "bash"
    extensions := ["bash", "sh"]
    description := "Bash scripts (*.bash, *.sh)" },
  { name := "zsh"
    extensions := ["zsh", "sh"]
    description := "Zsh scripts (*.zsh, *.sh)" }]

end Language

end Shebang
