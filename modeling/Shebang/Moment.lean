import Shebang.Text.Numeral

/-!
Dates, times of day and date-times, as written in RFC 3339. Fractions of a second keep six digits.
-/

namespace Shebang

structure Date where
  year : Nat
  month : Nat
  day : Nat
  deriving DecidableEq, Repr

structure Time where
  hour : Nat
  minute : Nat
  second : Nat
  microsecond : Nat
  deriving DecidableEq, Repr

/-- A date-time may carry its distance from UTC in minutes. -/
inductive Moment where
  | date (date : Date)
  | time (time : Time)
  | dateTime (date : Date) (time : Time) (offset : Option Int)
  deriving DecidableEq, Repr

def isLeapYear (y : Nat) : Bool := (y % 4 == 0 && y % 100 != 0) || y % 400 == 0

def daysInMonth (year month : Nat) : Nat :=
  if month = 2 then (if isLeapYear year then 29 else 28)
  else if month ∈ [4, 6, 9, 11] then 30 else 31

def Date.Valid (d : Date) : Prop :=
  1 ≤ d.year ∧ 1 ≤ d.month ∧ d.month ≤ 12 ∧ 1 ≤ d.day ∧ d.day ≤ daysInMonth d.year d.month

instance (d : Date) : Decidable d.Valid := inferInstanceAs (Decidable (_ ∧ _ ∧ _ ∧ _ ∧ _))

def Time.Valid (t : Time) : Prop := t.hour < 24 ∧ t.minute < 60 ∧ t.second < 60

instance (t : Time) : Decidable t.Valid := inferInstanceAs (Decidable (_ ∧ _ ∧ _))

namespace Moment

def fixedDigits (width : Nat) (t : Text) : Option (Nat × Text) :=
  let digits := t.take width
  if digits.length = width ∧ digits.all Char.isDigit then
    some (Text.numeralValue digits, t.drop width)
  else none

def expect (c : Char) : Text → Option Text
  | [] => none
  | x :: rest => if x = c then some rest else none

def readDate (t : Text) : Option (Date × Text) := do
  let (year, t) ← fixedDigits 4 t
  let t ← expect '-' t
  let (month, t) ← fixedDigits 2 t
  let t ← expect '-' t
  let (day, t) ← fixedDigits 2 t
  let d : Date := ⟨year, month, day⟩
  if d.Valid then some (d, t) else none

/-- Digits after the sixth are dropped, missing ones are zeros. -/
def readFraction : Text → Option (Nat × Text)
  | '.' :: t =>
    let digits := t.takeWhile Char.isDigit
    if digits = [] then none
    else
      let six := (digits ++ List.replicate 6 '0').take 6
      some (Text.numeralValue six, t.dropWhile Char.isDigit)
  | t => some (0, t)

def readTime (t : Text) : Option (Time × Text) := do
  let (hour, t) ← fixedDigits 2 t
  let t ← expect ':' t
  let (minute, t) ← fixedDigits 2 t
  let t ← expect ':' t
  let (second, t) ← fixedDigits 2 t
  let (microsecond, t) ← readFraction t
  let clock : Time := ⟨hour, minute, second, microsecond⟩
  if clock.Valid then some (clock, t) else none

/-- The rest of a date-time: nothing, `Z`, or a signed distance in hours and minutes. -/
def readOffset : Text → Option (Option Int)
  | [] => some none
  | ['Z'] | ['z'] => some (some 0)
  | sign :: t => do
    let (hour, t) ← fixedDigits 2 t
    let t ← expect ':' t
    let (minute, t) ← fixedDigits 2 t
    if t = [] ∧ hour < 24 ∧ minute < 60 then
      let distance : Int := hour * 60 + minute
      if sign = '+' then some (some distance)
      else if sign = '-' then some (some (-distance))
      else none
    else none

def read (t : Text) : Option Moment :=
  match readDate t with
  | some (d, []) => some (.date d)
  | some (d, sep :: t) => do
    if sep = 'T' ∨ sep = 't' ∨ sep = ' ' then
      let (clock, t) ← readTime t
      let offset ← readOffset t
      some (.dateTime d clock offset)
    else none
  | none =>
    match readTime t with
    | some (clock, []) => some (.time clock)
    | _ => none

def zeroPadded (width n : Nat) : Text :=
  let digits := Text.ofNat n
  List.replicate (width - digits.length) '0' ++ digits

def displayDate (d : Date) : Text :=
  zeroPadded 4 d.year ++ "-" ++ zeroPadded 2 d.month ++ "-" ++ zeroPadded 2 d.day

/-- The fraction is shown with six digits, or not at all when it is zero. -/
def displayTime (t : Time) : Text :=
  zeroPadded 2 t.hour ++ ":" ++ zeroPadded 2 t.minute ++ ":" ++ zeroPadded 2 t.second ++
    if t.microsecond = 0 then [] else '.' :: zeroPadded 6 t.microsecond

def displayOffset (minutes : Int) : Text :=
  (if minutes < 0 then '-' else '+') :: zeroPadded 2 (minutes.natAbs / 60) ++ ":" ++
    zeroPadded 2 (minutes.natAbs % 60)

def display : Moment → Text
  | .date d => displayDate d
  | .time t => displayTime t
  | .dateTime d t offset =>
    displayDate d ++ "T" ++ displayTime t ++
      match offset with
      | none => []
      | some minutes => displayOffset minutes

end Moment

end Shebang
