import Shebang.FileSystem
import Shebang.Recognize
import Shebang.Registry

/-!
The language of a file, from its extension and its first line. The file is opened only if several
languages claim the extension, or if there is none.
-/

namespace Shebang

def lineFeed : UInt8 := 0x0A

def markerBytes : Bytes := [0x23, 0x21]

/-- The longest first line that is looked at, in bytes. -/
def lineLimit : Nat := 4096

def firstLine : Bytes → Bytes
  | [] => []
  | b :: rest => if b = lineFeed then [b] else b :: firstLine rest

inductive LineProblem where
  | noMarker
  | tooLong
  | notUtf8
  deriving DecidableEq, Repr

/-- The first line of a file that starts with the marker, as text and with its line feed if it has
one. -/
def shebangText (content : Bytes) : Except LineProblem Text :=
  let limit := lineLimit - markerBytes.length
  let rest := (firstLine (content.drop markerBytes.length)).take limit
  if content.take markerBytes.length ≠ markerBytes then .error .noMarker
  else if rest.length = limit ∧ rest.getLast? ≠ some lineFeed then .error .tooLong
  else match Utf8.decode (markerBytes ++ rest) with
    | .error _ => .error .notUtf8
    | .ok line => .ok line

/-- The shebang line of a file; a file that cannot be opened has none, but a path with a NUL is
never opened. -/
def readShebangLine (fs : FileSystem) (path : Path) : Attempt OpenError (Option Text) :=
  match fs.read path with
  | .error .embeddedNul => throw .embeddedNul
  | .error e => do
    Attempt.note .debug ("Cannot read " ++ path.display ++ ": " ++ e.message)
    pure none
  | .ok content =>
    match shebangText content with
    | .ok line => pure (some line)
    | .error .noMarker => pure none
    | .error .tooLong => do
      Attempt.note .debug
        ("First line of " ++ path.display ++ " exceeds " ++ Text.ofNat lineLimit ++ " bytes")
      pure none
    | .error .notUtf8 => do
      Attempt.note .debug ("Shebang line of " ++ path.display ++ " is not valid UTF-8")
      pure none

/-- The tag of the shebang line of a file. A line that ends with the file counts as ended. -/
def shebangTag (fs : FileSystem) (path : Path) : Attempt OpenError Tag := do
  match ← readShebangLine fs path with
  | none => pure .none
  | some line =>
    let ended := if line.getLast? = some '\n' then line else line ++ ['\n']
    let script ← ExceptT.lift (recognizeTraced ended)
    let tag := tagOf script.shebang
    Attempt.note .debug ("Shebang of " ++ path.display ++ " resolves to " ++ tag.name)
    pure tag

inductive DetectionError where
  | unknownExtension (path : Path) (extension : Text)
  | noExtension (path : Path)
  /-- The file had to be opened and could not even be asked for. -/
  | notOpened (cause : OpenError)
  deriving DecidableEq, Repr

def DetectionError.message : DetectionError → Text
  | .unknownExtension _ extension => "no language registered for extension '." ++ extension ++ "'"
  | .noExtension _ => "file has no extension and no recognized shebang"
  | .notOpened cause => cause.message

namespace Registry

def tagAt (fs : FileSystem) (path : Path) : Attempt DetectionError Tag :=
  ExceptT.adapt DetectionError.notOpened (shebangTag fs path)

def detectByShebang (r : Registry) (fs : FileSystem) (path : Path) :
    Attempt DetectionError Language := do
  let tag ← tagAt fs path
  match if tag = .none then none else r.find? tag.name with
  | none => throw (.noExtension path)
  | some l =>
    Attempt.note .debug
      ("Detected " ++ l.name ++ " for " ++ path.display ++ " (shebang, no extension)")
    pure l

/-- Chooses among the languages that claim the extension: the one named like the tag, else the
first. -/
def detectAmong (first second : Language) (others : List Language) (fs : FileSystem) (path : Path) :
    Attempt DetectionError Language := do
  let candidates := first :: second :: others
  let tag ← tagAt fs path
  match candidates.find? (·.name == tag.name) with
  | some l =>
    Attempt.note .debug ("Detected " ++ l.name ++ " for " ++ path.display ++ " (shebang)")
    pure l
  | none =>
    Attempt.note .debug
      ("Ambiguous extension '." ++ path.extension ++ "' for " ++ path.display ++ " (" ++
        Text.joinWith ", " (candidates.map (·.name)) ++ "); using " ++ first.name)
    pure first

def detect (r : Registry) (fs : FileSystem) (path : Path) : Attempt DetectionError Language :=
  if path.extension = [] then r.detectByShebang fs path
  else match r.forExtension path.extension with
    | [] => throw (.unknownExtension path path.extension)
    | [l] => do
      Attempt.note .debug ("Detected " ++ l.name ++ " for " ++ path.display ++ " (extension)")
      pure l
    | first :: second :: others => detectAmong first second others fs path

end Registry

end Shebang
