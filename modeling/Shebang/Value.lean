import Shebang.Decimal.Binary64
import Shebang.Moment
import Shebang.OrderedMap

/-!
Configuration values, and what a reader of TOML may answer. Tables keep the order of their keys.
-/

namespace Shebang

inductive Value where
  | null
  | bool (value : Bool)
  | integer (value : Int)
  | float (value : Binary64)
  | string (value : Text)
  | moment (value : Moment)
  | list (items : List Value)
  | table (entries : List (Text × Value))

abbrev Table := OrderedMap Value

namespace Toml

/-- Why a reader makes no table of a text. Only the first is a fault of the document to those who
call the reader. -/
inductive ParseError where
  | invalid (reason : Text)
  /-- A key stands twice in one table. -/
  | keyTaken (key : Text)
  | other (message : Text)
  deriving DecidableEq, Repr

abbrev Parser := Text → Except ParseError Table

end Toml

end Shebang
