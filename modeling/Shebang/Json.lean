import Shebang.Text
import Shebang.Text.Quoted
import Shebang.Text.Encoding

/-!
JSON values and their text. Fields keep their order; every character outside ASCII is written as an
escape, so the text is ASCII and a line break in it is always layout.
-/

namespace Shebang

inductive Json where
  | null
  | bool (value : Bool)
  | number (value : Int)
  | string (value : Text)
  | array (items : List Json)
  | object (fields : List (Text × Json))

namespace Json

def ofNat (n : Nat) : Json := .number n

def strings (ts : List Text) : Json := .array (ts.map .string)

def escapeUnit (u : Nat) : Text := "\\u" ++ Text.hexDigits 4 u

def escapeChar (c : Char) : Text :=
  if c = '"' then "\\\""
  else if c = '\\' then "\\\\"
  else if c = '\n' then "\\n"
  else if c = '\r' then "\\r"
  else if c = '\t' then "\\t"
  else if c = '\x08' then "\\b"
  else if c = '\x0c' then "\\f"
  else if ' ' ≤ c ∧ c ≤ '~' then [c]
  else (Encoding.units16 c).flatMap escapeUnit

def renderString (t : Text) : Text := '"' :: t.flatMap escapeChar ++ ['"']

/-- One line, or an item per line with so many spaces for each level. -/
inductive Layout where
  | oneLine
  | indented (width : Nat)
  deriving DecidableEq, Repr

namespace Layout

def lineBreak (depth : Nat) : Layout → Text
  | .oneLine => []
  | .indented width => '\n' :: List.replicate (width * depth) ' '

def separator (depth : Nat) : Layout → Text
  | .oneLine => ", "
  | .indented width => ',' :: (Layout.indented width).lineBreak depth

end Layout

mutual

def renderAt (l : Layout) (depth : Nat) : Json → Text
  | .null => "null"
  | .bool true => "true"
  | .bool false => "false"
  | .number n => Text.ofInt n
  | .string t => renderString t
  | .array [] => "[]"
  | .array (item :: items) =>
    '[' :: l.lineBreak (depth + 1) ++ renderAt l (depth + 1) item ++
      renderItems l (depth + 1) items ++ l.lineBreak depth ++ [']']
  | .object [] => ['\x7b', '\x7d']
  | .object ((key, value) :: fields) =>
    '\x7b' :: l.lineBreak (depth + 1) ++ renderString key ++ ": " ++ renderAt l (depth + 1) value ++
      renderFields l (depth + 1) fields ++ l.lineBreak depth ++ ['\x7d']

def renderItems (l : Layout) (depth : Nat) : List Json → Text
  | [] => []
  | item :: items => l.separator depth ++ renderAt l depth item ++ renderItems l depth items

def renderFields (l : Layout) (depth : Nat) : List (Text × Json) → Text
  | [] => []
  | (key, value) :: fields =>
    l.separator depth ++ renderString key ++ ": " ++ renderAt l depth value ++
      renderFields l depth fields

end

def render (l : Layout) (j : Json) : Text := j.renderAt l 0

end Json

end Shebang
