import Shebang.Log.Level

/-!
The root of the log: it decides by its level which lines are written, and its handlers write them.
-/

namespace Shebang.Log

/-- A handler of this program, which writes to standard error in one of two formats, or one that
others have added. -/
inductive Handler where
  | console (debugFormat : Bool)
  | foreign (id : Nat)
  deriving DecidableEq, Repr

structure Root where
  level : Int
  handlers : List Handler
  deriving DecidableEq, Repr

namespace Root

def initial : Root := ⟨30, []⟩

def add (r : Root) (h : Handler) : Root := { r with handlers := r.handlers ++ [h] }

def remove (r : Root) (h : Handler) : Root := { r with handlers := r.handlers.erase h }

/-- Gives way to a setup: its level counts, and its handler takes the place of all that are there.
-/
def install (r : Root) (s : Setup) : Root :=
  (r.handlers.foldl remove { r with level := s.level }).add (.console s.debugFormat)

def setup (r : Root) (level : Option Int) (environment : Option Text) :
    Except Text.NumeralError Root :=
  r.install <$> Log.setup level environment

end Root

end Shebang.Log
