import Shebang.Text

/-!
How a run of the program ends, as a number for the caller. Of several outcomes the highest number
counts.
-/

namespace Shebang

inductive ExitCode where
  | success
  | failure
  | usageError
  | encodingError
  | fileNotFound
  | unsupportedFileType
  | ioError
  | permissionDenied
  | configError
  deriving DecidableEq, Repr

namespace ExitCode

def code : ExitCode → Nat
  | .success => 0
  | .failure => 1
  | .usageError => 64
  | .encodingError => 65
  | .fileNotFound => 66
  | .unsupportedFileType => 69
  | .ioError => 74
  | .permissionDenied => 77
  | .configError => 78

def all : List ExitCode :=
  [.success, .failure, .usageError, .encodingError, .fileNotFound, .unsupportedFileType, .ioError,
    .permissionDenied, .configError]

structure Unknown where
  number : Int
  deriving DecidableEq, Repr

def Unknown.message (e : Unknown) : Text := Text.ofInt e.number ++ " is not a valid ExitCode"

def ofCode (n : Int) : Except Unknown ExitCode :=
  match all.find? fun c => (c.code : Int) == n with
  | some c => .ok c
  | none => .error ⟨n⟩

def worse (a b : ExitCode) : ExitCode := if a.code < b.code then b else a

/-- The highest code; success if there is none. -/
def worst (codes : List ExitCode) : ExitCode := codes.foldl worse .success

end ExitCode

end Shebang
