import Mathlib.Data.PFun
import Shebang.Injection

/-!
Recognition under watch. Its steps read one character at a time, by offsets that may be any numbers,
and what they do with offsets is recorded. A character outside the text and bounds that enclose no
range are faults. A loop runs for as long as its condition holds, so a computation is partial: it
may have no end.
-/

namespace Shebang

inductive Act where
  | read (index : Int)
  | span (start stop : Int)
  /-- The first line is delimited: its content ends at `stop` and its line feed is at `newline`. -/
  | line (stop newline : Int)
  | move (pos : Int)
  /-- The loop over flags goes on with another pass: where it stood before the last one, and where
  it stands now. -/
  | again (before after : Int)
  deriving DecidableEq, Repr

inductive OutOfBounds where
  | noCharacter (index : Int)
  | invalidSpan (bounds : InvalidSpan)
  deriving DecidableEq, Repr

/-- A computation with its acts, the first one first. It may fail, and it may have no end. -/
abbrev Watched (α : Type) := ExceptT OutOfBounds (StateT (List Act) Part) α

namespace Watched

variable {σ α : Type}

/-- What a pass of a loop comes to: a result or a fault ends the loop, and a state starts the next
pass, which is recorded. -/
def passed (again : σ → Act) : Except OutOfBounds (σ ⊕ α) × List Act →
    (Except OutOfBounds α × List Act) ⊕ (σ × List Act)
  | (.ok (.inl next), acts) => .inr (next, acts ++ [again next])
  | (.ok (.inr a), acts) => .inl (.ok a, acts)
  | (.error fault, acts) => .inl (.error fault, acts)

/-- One pass after the other, until there is a result. Without one there is no end. -/
def loop (again : σ → σ → Act) (pass : σ → Watched (σ ⊕ α)) (s : σ) : Watched α :=
  ExceptT.mk fun acts =>
    PFun.fix (fun start => ((pass start.1).run.run start.2).map (passed (again start.1))) (s, acts)

def act (a : Act) : Watched Unit := modify (· ++ [a])

/-- A negative offset counts from the end of the text. -/
def characterAt (text : Text) : Int → Option Char
  | .ofNat n => text[n]?
  | .negSucc n => text.reverse[n]?

def read (text : Text) (index : Int) : Watched Char := do
  act (.read index)
  match characterAt text index with
  | some x => return x
  | none => throw (.noCharacter index)

def span (start stop : Int) : Watched Span := do
  act (.span start stop)
  match Span.ofBounds start stop with
  | .ok s => return s
  | .error bounds => throw (.invalidSpan bounds)

/-- A place in a window of a text. -/
structure Place where
  text : Text
  pos : Int
  stop : Int
  deriving DecidableEq, Repr

namespace Place

/-- One pass of the loop over a run. It is to go on if the window does and the next character is of
the class. -/
def skipPass (p : Char → Bool) (s : Place) : Watched (Place ⊕ Place) := do
  if s.pos < s.stop then
    let x ← read s.text s.pos
    if p x then return .inl { s with pos := s.pos + 1 } else return .inr s
  else return .inr s

def skip (p : Char → Bool) : Place → Watched Place :=
  loop (fun _ next => .move next.pos) (skipPass p)

def takeRun (p : Char → Bool) (s : Place) : Watched (Option (Span × Place)) := do
  let last ← s.skip p
  if s.pos < last.pos then
    let found ← span s.pos last.pos
    return some (found, last)
  else return none

def rest (s : Place) : Watched (Option (Span × Place)) := do
  if s.stop ≤ s.pos then return none
  else
    let found ← span s.pos s.stop
    act (.move s.stop)
    return some (found, { s with pos := s.stop })

end Place

def steps : Steps Watched Place where
  enter text stop newline := do
    act (.line stop newline)
    return ⟨text, 2, stop⟩
  text := Place.text
  whitespace := Place.takeRun isInlineSpace
  token := Place.takeRun isTokenChar
  rest := Place.rest
  span := span
  stands text index c := do
    let x ← read text index
    return decide (x = c)

def scanner : Scanner Watched Place where
  toSteps := steps
  readFlags launcher :=
    loop (fun last next => .again last.place.pos next.place.pos) (steps.flagPass launcher)

/-- Behind recognition no step is left to take: the injection passes on the span of the body. -/
def recognizeInjection (text : Text) : Watched (Script × Option Injection) := do
  let script ← scanner.recognize text
  return (script, findInjection script)

end Watched

end Shebang
