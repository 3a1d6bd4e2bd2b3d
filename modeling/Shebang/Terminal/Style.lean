import Shebang.Text

/-!
Control sequences that style text on a terminal, and their removal.
-/

namespace Shebang.Terminal

def escape : Char := '\x1b'

def code (n : Nat) : Text := escape :: '[' :: Text.ofNat n ++ ['m']

inductive Color where
  | black
  | red
  | green
  | yellow
  | blue
  | magenta
  | cyan
  | white
  | brightBlack
  | brightRed
  | brightGreen
  | brightYellow
  | brightBlue
  | brightMagenta
  | brightCyan
  | brightWhite
  deriving DecidableEq, Repr

def Color.code : Color → Nat
  | .black => 30
  | .red => 31
  | .green => 32
  | .yellow => 33
  | .blue => 34
  | .magenta => 35
  | .cyan => 36
  | .white => 37
  | .brightBlack => 90
  | .brightRed => 91
  | .brightGreen => 92
  | .brightYellow => 93
  | .brightBlue => 94
  | .brightMagenta => 95
  | .brightCyan => 96
  | .brightWhite => 97

/-- A style; `none` leaves a property as it is, `some false` switches it off. -/
structure Style where
  color : Option Color := none
  bold : Option Bool := none
  dim : Option Bool := none
  underline : Option Bool := none
  deriving DecidableEq, Repr

def switch (on off : Nat) : Option Bool → Text
  | none => []
  | some true => code on
  | some false => code off

def Style.opening (s : Style) : Text :=
  (match s.color with
    | none => []
    | some c => code c.code) ++
  switch 1 22 s.bold ++ switch 2 22 s.dim ++ switch 4 24 s.underline

def Style.apply (s : Style) (t : Text) : Text := s.opening ++ t ++ code 0

def isParameter (c : Char) : Bool := '0' ≤ c && c ≤ '?'

def isIntermediate (c : Char) : Bool := ' ' ≤ c && c ≤ '/'

def isFinal (c : Char) : Bool := '@' ≤ c && c ≤ '~'

/-- The length of the control sequence at the front: `ESC [`, parameters, intermediates and a final
character. -/
def sequenceLength? : Text → Option Nat
  | '\x1b' :: '[' :: t =>
    let parameters := t.takeWhile isParameter
    let afterParameters := t.drop parameters.length
    let intermediates := afterParameters.takeWhile isIntermediate
    match afterParameters.drop intermediates.length with
    | c :: _ =>
      if isFinal c then some (2 + parameters.length + intermediates.length + 1) else none
    | [] => none
  | _ => none

/-- Drops `skip` characters, then removes every control sequence. -/
def stripFrom : Nat → Text → Text
  | _, [] => []
  | skip + 1, _ :: t => stripFrom skip t
  | 0, c :: t =>
    match sequenceLength? (c :: t) with
    | some n => stripFrom (n - 1) t
    | none => c :: stripFrom 0 t

def strip (t : Text) : Text := stripFrom 0 t

end Shebang.Terminal
