import Shebang.Span

/-!
Named pieces of a script.
-/

namespace Shebang

inductive NodeKind where
  | shebangLine
  | marker
  | whitespace
  | interpreterPath
  | interpreterName
  | launcherPath
  | launcherFlag
  | launcherInterpreter
  | arguments
  | newline
  | scriptContent
  deriving DecidableEq, Repr

def NodeKind.name : NodeKind → Text
  | .shebangLine => "shebang_line"
  | .marker => "shebang_marker"
  | .whitespace => "whitespace"
  | .interpreterPath => "interpreter_path"
  | .interpreterName => "interpreter_name"
  | .launcherPath => "env_path"
  | .launcherFlag => "env_flags"
  | .launcherInterpreter => "env_interpreter"
  | .arguments => "args"
  | .newline => "newline"
  | .scriptContent => "script_content"

structure Node where
  kind : NodeKind
  span : Span
  deriving DecidableEq, Repr

def Node.unlessEmpty (kind : NodeKind) (span : Span) : List Node :=
  if span.isEmpty then [] else [⟨kind, span⟩]

end Shebang
