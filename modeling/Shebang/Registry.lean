import Shebang.Language
import Shebang.OrderedMap

/-!
Registered languages. A name that is registered again takes the new definition and keeps its place,
and the order of places decides between languages that share an extension.
-/

namespace Shebang

structure Registry where
  byName : OrderedMap Language
  deriving DecidableEq, Repr

namespace Registry

def ofList (languages : List Language) : Registry :=
  ⟨languages.foldl (fun m l => m.put l.name l) []⟩

def builtin : Registry := ofList Language.builtins

def names (r : Registry) : List Text := r.byName.keys

def languages (r : Registry) : List Language := r.byName.values

def size (r : Registry) : Nat := r.byName.length

def contains (r : Registry) (name : Text) : Bool := r.byName.contains name

def find? (r : Registry) (name : Text) : Option Language := r.byName.find? name

def forExtension (r : Registry) (extension : Text) : List Language :=
  r.languages.filter (·.matchesExtension extension)

end Registry

end Shebang
