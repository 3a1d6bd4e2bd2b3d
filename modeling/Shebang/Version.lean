import Shebang.Text

/-!
The name and the version of the program.
-/

namespace Shebang

def toolName : Text := "shebangscan"

def version : Text := "0.1.0"

end Shebang
