import Shebang.Text
import Shebang.Text.Quoted

/-!
Paths in normal form: empty components and `.` are gone, `..` stays, a trailing slash means nothing.
-/

namespace Shebang

/-- `root` is empty for a relative path, a slash for an absolute one; exactly two leading slashes
are kept. -/
structure Path where
  root : Text
  parts : List Text
  deriving DecidableEq, Repr

namespace Path

def rootOf (t : Text) : Text :=
  match (t.takeWhile (· == '/')).length with
  | 0 => ""
  | 2 => "//"
  | _ => "/"

def ofText (t : Text) : Path where
  root := rootOf t
  parts := (t.splitOn '/').filter fun part => part != [] && part != ['.']

/-- The path as text; the empty relative path is a dot. -/
def display (p : Path) : Text :=
  match p.root ++ Text.joinWith "/" p.parts with
  | [] => "."
  | t => t

def name (p : Path) : Text := p.parts.getLast?.getD []

def join (p : Path) (name : Text) : Path := { p with parts := p.parts ++ [name] }

/-- The name from its last dot on, unless that dot is its first or its last character. -/
def suffix (p : Path) : Text :=
  let tail := (p.name.reverse.takeWhile (· != '.')).reverse
  if tail = [] ∨ p.name.length ≤ tail.length + 1 then [] else '.' :: tail

def extension (p : Path) : Text := p.suffix.dropDots

def displayList (ps : List Path) : Text :=
  "[" ++ Text.joinWith ", " (ps.map fun p => "PosixPath(" ++ p.display.quoted ++ ")") ++ "]"

end Path

end Shebang
