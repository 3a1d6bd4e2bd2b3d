import Shebang.FileSystem
import Shebang.OrderedMap

/-!
File systems given by a tree. A path is followed component by component, from the root or from the
working directory; the root is its own parent.
-/

namespace Shebang

inductive Tree where
  | file (content : Bytes)
  | directory (entries : List (Text × Tree))

namespace Tree

def entries : Tree → OrderedMap Tree
  | .file _ => []
  | .directory es => es

/-- Places `leaf` under a path of names and makes the directories on the way. A directory that is
there already stays as it is. -/
def insert (leaf : Tree) : List Text → Tree → Tree
  | [], t =>
    match leaf, t with
    | .directory _, .directory es => .directory es
    | _, _ => leaf
  | name :: names, t =>
    let below := (t.entries.find? name).getD (.directory [])
    .directory (t.entries.put name (insert leaf names below))

/-- The number of bytes in the longest name, and in the longest path with its end mark. -/
def nameLimit : Nat := 255

def pathLimit : Nat := 4096

/-- Follows components from a directory. `above` holds the directories it stands in, inner first. -/
def follow (here : Tree) (above : List Tree) : List Text → Lookup
  | [] => .directory .isDirectory
  | name :: names =>
    if name = [] ∨ name = ['.'] then follow here above names
    else if name = ['.', '.'] then
      match above with
      | [] => follow here [] names
      | parent :: outer => follow parent outer names
    else if nameLimit < (Utf8.encode name).length then .refused .nameTooLong
    else match here.entries.find? name with
      | none => .refused .noEntry
      | some (.directory es) => follow (.directory es) (here :: above) names
      | some (.file content) => if names = [] then .regular content else .refused .notDirectory

def descend (here : Tree) (above : List Tree) : List Text → Tree × List Tree
  | [] => (here, above)
  | name :: names =>
    descend ((here.entries.find? name).getD (.directory [])) (here :: above) names

def lookup (root : Tree) (workingDirectory : List Text) (path : Text) : Lookup :=
  if path = [] then .refused .noEntry
  else if pathLimit ≤ (Utf8.encode path).length then .refused .nameTooLong
  else
    let start := if path.head? = some '/' then (root, []) else descend root [] workingDirectory
    follow start.1 start.2 (path.splitOn '/')

def fileSystem (root : Tree) (workingDirectory : List Text) : FileSystem :=
  ⟨lookup root workingDirectory⟩

end Tree

end Shebang
