import Shebang.Text

/-!
Binary floating point numbers of 64 bits, given by their bits. A decimal number becomes the nearest
of them, a tie the one with an even fraction; the text of a number has the fewest digits that become
it again. All of it is arithmetic on natural numbers.
-/

namespace Shebang

structure Binary64 where
  bits : UInt64
  deriving DecidableEq, Repr

namespace Binary64

def signBit : Nat := Nat.pow 2 63

def infinityBits : Nat := 0x7FF0000000000000

def nan : Binary64 := ⟨0x7FF8000000000000⟩

def withSign (negative : Bool) (magnitude : Nat) : Binary64 :=
  ⟨((if negative then signBit else 0) + magnitude).toUInt64⟩

def infinity (negative : Bool) : Binary64 := withSign negative infinityBits

def isNegative (x : Binary64) : Bool := signBit ≤ x.bits.toNat

def magnitude (x : Binary64) : Nat := x.bits.toNat % signBit

def isNan (x : Binary64) : Bool := infinityBits < x.magnitude

def isInfinite (x : Binary64) : Bool := x.magnitude == infinityBits

/-- The quotient, rounded to the nearest whole number and to an even one on a tie. -/
def roundDiv (num den : Nat) : Nat :=
  let q := num / den
  let r := num % den
  if den < 2 * r ∨ (2 * r = den ∧ q % 2 = 1) then q + 1 else q

def scale (num den : Nat) (q : Int) : Nat × Nat :=
  if q < 0 then (num * Nat.pow 2 (-q).toNat, den) else (num, den * Nat.pow 2 q.toNat)

/-- The bits of a positive fraction, without a sign. -/
def magnitudeOfFraction (num den : Nat) : Nat :=
  let guess : Int := num.log2 - den.log2 - 53
  let low := scale num den guess
  let exact := if low.1 < Nat.pow 2 53 * low.2 then guess else guess + 1
  let q := max exact (-1074)
  let fraction := scale num den q
  let m := roundDiv fraction.1 fraction.2
  let (m, q) := if m = Nat.pow 2 53 then (Nat.pow 2 52, q + 1) else (m, q)
  if m < Nat.pow 2 52 then m
  else min infinityBits ((q + 1075).toNat * Nat.pow 2 52 + (m - Nat.pow 2 52))

def decimalFraction (digits : Nat) (exponent : Int) : Nat × Nat :=
  if exponent < 0 then (digits, Nat.pow 10 (-exponent).toNat)
  else (digits * Nat.pow 10 exponent.toNat, 1)

/-- Exponents beyond these lead to zero or infinity whatever the digits are. -/
def magnitudeOfDecimal (digits : Nat) (exponent : Int) : Nat :=
  let places : Int := (Nat.toDigits 10 digits).length + exponent
  if digits = 0 ∨ places < -330 then 0
  else if 310 < places then infinityBits
  else
    let f := decimalFraction digits exponent
    magnitudeOfFraction f.1 f.2

def ofDecimal (negative : Bool) (digits : Nat) (exponent : Int) : Binary64 :=
  withSign negative (magnitudeOfDecimal digits exponent)

def fractionOf (magnitude : Nat) : Nat × Nat :=
  let e := magnitude / Nat.pow 2 52
  let f := magnitude % Nat.pow 2 52
  let m := if e = 0 then f else f + Nat.pow 2 52
  let q : Int := ((max e 1 : Nat) : Int) - 1075
  if q < 0 then (m, Nat.pow 2 (-q).toNat) else (m * Nat.pow 2 q.toNat, 1)

def pointPlace (num den : Nat) : Int :=
  let guess : Int := Int.fdiv (((num.log2 : Int) - den.log2) * 30103) 100000
  let below (p : Int) : Bool :=
    if p < 0 then num * Nat.pow 10 (-p).toNat < den else num < den * Nat.pow 10 p.toNat
  (([guess - 1, guess, guess + 1].find? below).getD (guess + 2))

/-- The decimal of `count` digits that becomes `magnitude` again and is nearest to it, if there is
one: its digits and its exponent. -/
def decimalOf? (magnitude : Nat) (count : Nat) : Option (Nat × Int) :=
  let (num, den) := fractionOf magnitude
  let unit := pointPlace num den - count
  let (num, den) :=
    if unit < 0 then (num * Nat.pow 10 (-unit).toNat, den) else (num, den * Nat.pow 10 unit.toNat)
  let low := num / den
  let lowFits := magnitudeOfDecimal low unit = magnitude
  let highFits := magnitudeOfDecimal (low + 1) unit = magnitude
  if lowFits ∧ highFits then some (roundDiv num den, unit)
  else if lowFits then some (low, unit)
  else if highFits then some (low + 1, unit)
  else none

/-- The fewest digits that become `magnitude` again. Seventeen always do. -/
def shortest (magnitude : Nat) : Nat × Int :=
  ((List.range 17).findSome? fun n => decimalOf? magnitude (n + 1)).getD (0, 0)

def exponentText (n : Int) : Text :=
  let digits := Text.ofNat n.natAbs
  (if n < 0 then '-' else '+') :: List.replicate (2 - digits.length) '0' ++ digits

/-- Numbers from 0.0001 up to below 10 ^ 16 are written with a point, others with an exponent. -/
def renderDecimal (digits : Text) (point : Int) : Text :=
  if point ≤ -4 ∨ 16 < point then
    digits.take 1 ++ (if digits.length ≤ 1 then [] else '.' :: digits.drop 1) ++
      'e' :: exponentText (point - 1)
  else if point ≤ 0 then "0." ++ List.replicate (-point).toNat '0' ++ digits
  else
    let whole := digits.take point.toNat
    let fraction := digits.drop point.toNat
    whole ++ List.replicate (point.toNat - digits.length) '0' ++ '.' ::
      (if fraction = [] then ['0'] else fraction)

def render (x : Binary64) : Text :=
  let sign : Text := if x.isNegative then "-" else ""
  if x.isNan then "nan"
  else if x.isInfinite then sign ++ "inf"
  else if x.magnitude = 0 then sign ++ "0.0"
  else
    let (digits, exponent) := shortest x.magnitude
    let text := Text.ofNat digits
    sign ++ renderDecimal (text.trimEnd (· == '0')) (text.length + exponent)

end Binary64

end Shebang
