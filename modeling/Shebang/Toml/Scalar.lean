import Shebang.Text.Numeral
import Shebang.Value

/-!
Numbers, booleans, dates and times of TOML 1.0, each read from its whole text.
-/

namespace Shebang.Toml

/-- Digits with single underscores between them, without the underscores. -/
def groupedDigits (isDigit : Char → Bool) (t : Text) : Option Text :=
  let groups := t.splitOn '_'
  if groups.all fun g => g != [] && g.all isDigit then some groups.flatten else none

def digitValue (c : Char) : Nat :=
  if c.isDigit then c.toNat - '0'.toNat else c.toLower.toNat - 'a'.toNat + 10

def valueInBase (base : Nat) (digits : Text) : Nat :=
  digits.foldl (fun n c => base * n + digitValue c) 0

def isOctalDigit (c : Char) : Bool := '0' ≤ c && c ≤ '7'

def isBinaryDigit (c : Char) : Bool := c == '0' || c == '1'

def isHexDigit (c : Char) : Bool :=
  c.isDigit || ('a' ≤ c && c ≤ 'f') || ('A' ≤ c && c ≤ 'F')

def wholePart (t : Text) : Option Text :=
  match groupedDigits Char.isDigit t with
  | some digits => if digits.head? = some '0' ∧ digits ≠ ['0'] then none else some digits
  | none => none

def readSign : Text → Bool × Text
  | '-' :: t => (true, t)
  | '+' :: t => (false, t)
  | t => (false, t)

def readInBase (base : Nat) (isDigit : Char → Bool) (t : Text) : Option Int :=
  (groupedDigits isDigit t).map fun digits => (valueInBase base digits : Int)

def readInteger (t : Text) : Option Int :=
  match t with
  | '0' :: 'x' :: digits => readInBase 16 isHexDigit digits
  | '0' :: 'o' :: digits => readInBase 8 isOctalDigit digits
  | '0' :: 'b' :: digits => readInBase 2 isBinaryDigit digits
  | _ =>
    let (negative, digits) := readSign t
    ((wholePart digits).filter (·.length ≤ Text.numeralLimit)).map fun d =>
      let n : Int := valueInBase 10 d
      if negative then -n else n

/-- The digits of an exponent and its sign; nothing means zero. -/
def readExponent : Text → Option Int
  | [] => some 0
  | e :: t =>
    if e = 'e' ∨ e = 'E' then
      let (negative, digits) := readSign t
      (groupedDigits Char.isDigit digits).map fun d =>
        let n : Int := valueInBase 10 d
        if negative then -n else n
    else none

def readFloat (t : Text) : Option Binary64 :=
  let (negative, t) := readSign t
  if t = "inf" then some (.infinity negative)
  else if t = "nan" then some .nan
  else
    let whole := t.takeWhile fun c => c != '.' && c != 'e' && c != 'E'
    match t.drop whole.length with
    | [] => none
    | '.' :: rest => do
      let digits ← wholePart whole
      let places := rest.takeWhile fun c => c != 'e' && c != 'E'
      let fraction ← groupedDigits Char.isDigit places
      let exponent ← readExponent (rest.drop places.length)
      some (.ofDecimal negative (valueInBase 10 (digits ++ fraction)) (exponent - fraction.length))
    | rest => do
      let digits ← wholePart whole
      let exponent ← readExponent rest
      some (.ofDecimal negative (valueInBase 10 digits) exponent)

def readScalar (t : Text) : Option Value :=
  if t = "true" then some (.bool true)
  else if t = "false" then some (.bool false)
  else match readInteger t with
    | some n => some (.integer n)
    | none =>
      match readFloat t with
      | some x => some (.float x)
      | none => (Moment.read t).map .moment

end Shebang.Toml
