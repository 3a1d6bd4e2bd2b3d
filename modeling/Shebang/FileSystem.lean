import Shebang.Path
import Shebang.Text.Utf8

/-!
A file system as it answers questions about paths, at one moment. Links are followed before the
answer, so they are only seen where they lead nowhere. Devices and pipes have no place here: what
they hold depends on more than the moment.
-/

namespace Shebang

structure Refusal where
  number : Nat
  reason : Text
  named : reason ≠ []
  deriving DecidableEq, Repr

namespace Refusal

def noEntry : Refusal := ⟨2, "No such file or directory", by decide⟩

def denied : Refusal := ⟨13, "Permission denied", by decide⟩

def notDirectory : Refusal := ⟨20, "Not a directory", by decide⟩

def isDirectory : Refusal := ⟨21, "Is a directory", by decide⟩

def nameTooLong : Refusal := ⟨36, "File name too long", by decide⟩

def linkLoop : Refusal := ⟨40, "Too many levels of symbolic links", by decide⟩

/-- The numbers of the errors that say that nothing is there. Besides a missing entry and a regular
file on the way these are a bad descriptor and links that go round. -/
def absentNumbers : List Nat := [noEntry.number, 9, notDirectory.number, linkLoop.number]

/-- Whether the question for a file has the answer no, instead of no answer. -/
def absent (why : Refusal) : Bool := absentNumbers.contains why.number

end Refusal

/-- What stands at a path. Finding a file and opening it are refused apart. -/
inductive Lookup where
  | regular (content : Bytes)
  /-- A regular file that cannot be opened. -/
  | unopened (why : Refusal)
  /-- A directory, with the error of an attempt to open it. -/
  | directory (why : Refusal)
  | refused (why : Refusal)
  deriving DecidableEq, Repr

structure FileSystem where
  lookup : Text → Lookup

inductive OpenError where
  | embeddedNul
  | refused (why : Refusal) (path : Text)
  deriving DecidableEq, Repr

def OpenError.message : OpenError → Text
  | .embeddedNul => "embedded null byte"
  | .refused why path =>
    "[Errno " ++ Text.ofNat why.number ++ "] " ++ why.reason ++ ": " ++ path.quoted

namespace FileSystem

def read (fs : FileSystem) (path : Path) : Except OpenError Bytes :=
  if path.display.contains '\x00' then .error .embeddedNul
  else match fs.lookup path.display with
    | .regular content => .ok content
    | .unopened why => .error (.refused why path.display)
    | .directory why => .error (.refused why path.display)
    | .refused why => .error (.refused why path.display)

/-- Whether a regular file stands at a path, unless the system does not let that be found out: a
directory on the way may be closed, or a name too long. -/
def isFile (fs : FileSystem) (path : Path) : Except OpenError Bool :=
  if path.display.contains '\x00' then .ok false
  else match fs.lookup path.display with
    | .regular _ => .ok true
    | .unopened _ => .ok true
    | .directory _ => .ok false
    | .refused why => if why.absent then .ok false else .error (.refused why path.display)

end FileSystem

end Shebang
