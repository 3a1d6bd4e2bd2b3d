import Shebang.Log.Level
import Shebang.Terminal.Style

/-!
Log lines in colors. A style inside the text does not end the style of the line, what stands between
two resets stays plain, and no style reaches over a line end. Lines for debugging tell where in the
program they were written.
-/

namespace Shebang.Log

open Terminal (code)

structure Paint where
  on : Nat
  off : Nat
  deriving DecidableEq, Repr

def paintsOf (level : Int) : List Paint :=
  if 50 ≤ level then [⟨91, 39⟩]
  else if 40 ≤ level then [⟨31, 39⟩]
  else if 30 ≤ level then [⟨33, 39⟩]
  else if 20 ≤ level then [⟨32, 39⟩]
  else if 10 ≤ level then [⟨90, 39⟩]
  else if 5 ≤ level then [⟨34, 39⟩]
  else [⟨2, 22⟩, ⟨31, 39⟩]

/-- Drops `skip` characters, then puts `new` in the place of every `old`. -/
def replaceFrom (old new : Text) : Nat → Text → Text
  | _, [] => []
  | skip + 1, _ :: t => replaceFrom old new skip t
  | 0, c :: t =>
    if old.isPrefixOf (c :: t) then new ++ replaceFrom old new (old.length - 1) t
    else c :: replaceFrom old new 0 t

/-- Switches each style on again where the text switches it off. -/
def reopen (paints : List Paint) (t : Text) : Text :=
  if t.contains Terminal.escape then
    paints.foldl (fun t p => replaceFrom (code p.off) (code p.off ++ code p.on) 0 t) t
  else t

def reset : Text := code 0

/-- Whether a text begins with a line that holds a reset. -/
def resetAhead : Text → Bool
  | [] => false
  | c :: t => reset.isPrefixOf (c :: t) || (c != '\n' && resetAhead t)

/-- Drops `skip` characters, then puts `close` before the first and `reopening` behind the second of
every two resets on a line. `plain` tells whether the first of two has been passed. -/
def keepPlain (close reopening : Text) (plain : Bool) : Nat → Text → Text
  | _, [] => []
  | skip + 1, _ :: t => keepPlain close reopening plain skip t
  | 0, c :: t =>
    if reset.isPrefixOf (c :: t) then
      if plain then reset ++ reopening ++ keepPlain close reopening false (reset.length - 1) t
      else if resetAhead t then
        close ++ reset ++ keepPlain close reopening true (reset.length - 1) t
      else reset ++ keepPlain close reopening false (reset.length - 1) t
    else c :: keepPlain close reopening plain 0 t

/-- Puts `close` before every line end and `reopening` behind it. -/
def encaseLines (close reopening : Text) : Text → Text
  | '\r' :: '\n' :: t => close ++ "\r\n" ++ reopening ++ encaseLines close reopening t
  | '\n' :: t => close ++ "\n" ++ reopening ++ encaseLines close reopening t
  | c :: t => c :: encaseLines close reopening t
  | [] => []

def paint (paints : List Paint) (t : Text) : Text :=
  let opening := paints.flatMap fun p => code p.on
  let closing := paints.flatMap fun p => code p.off
  let inner := keepPlain closing opening false 0 (reopen paints t)
  opening ++ encaseLines closing opening inner ++ closing

def format (level : Int) (message : Text) : Text :=
  paint (paintsOf level) ("[" ++ levelName level ++ "] " ++ message)

structure Place where
  file : Text
  line : Nat
  function : Text
  deriving DecidableEq, Repr

def Place.display (p : Place) : Text :=
  "[" ++ p.file ++ ":" ++ Text.ofNat p.line ++ "] [" ++ p.function ++ "] "

def Setup.shown (s : Setup) (p : Place) (message : Text) : Text :=
  if s.debugFormat then p.display ++ message else message

def Setup.line (s : Setup) (p : Place) (d : Diagnostic) : Text :=
  format (severityLevel d.severity) (s.shown p d.message)

end Shebang.Log
