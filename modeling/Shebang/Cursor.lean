import Shebang.Span

/-!
A cursor moves forward through a window `[pos, stop)` of a text. Every step takes the longest run of
its kind and leaves the cursor alone when there is none; a copy of a cursor moves on its own.
-/

namespace Shebang

structure Cursor where
  text : Text
  pos : Nat
  stop : Nat
  deriving DecidableEq, Repr

def isInlineSpace (c : Char) : Bool := c == ' ' || c == '\t'

def isTokenChar (c : Char) : Bool := !(c == ' ' || c == '\t' || c == '\r' || c == '\n')

namespace Cursor

def remaining (c : Cursor) : Text := (c.text.take c.stop).drop c.pos

def left (c : Cursor) : Nat := c.stop - c.pos

def advance (c : Cursor) (n : Nat) : Cursor := { c with pos := c.pos + n }

/-- The next `n` characters as a span, and the cursor behind them; no span is empty. -/
def takeSpan (c : Cursor) (n : Nat) : Option (Span × Cursor) :=
  if n = 0 then none else some (⟨c.pos, c.pos + n⟩, c.advance n)

def takeRun (p : Char → Bool) (c : Cursor) : Option (Span × Cursor) :=
  c.takeSpan (c.remaining.takeWhile p).length

def whitespace (c : Cursor) : Option (Span × Cursor) := c.takeRun isInlineSpace

def token (c : Cursor) : Option (Span × Cursor) := c.takeRun isTokenChar

def rest (c : Cursor) : Option (Span × Cursor) := c.takeSpan c.left

theorem takeSpan_eq_some {c d : Cursor} {n : Nat} {s : Span}
    (h : c.takeSpan n = some (s, d)) : n ≠ 0 ∧ s = ⟨c.pos, c.pos + n⟩ ∧ d = c.advance n := by
  unfold takeSpan at h
  split at h
  · cases h
  · rename_i hn
    cases h
    exact ⟨hn, rfl, rfl⟩

theorem length_remaining_le (c : Cursor) : c.remaining.length ≤ c.left := by
  simp only [remaining, left, List.length_drop, List.length_take]
  omega

/-- A run moves the cursor on, and not past the end of the window. -/
theorem left_of_takeRun {p : Char → Bool} {c d : Cursor} {s : Span}
    (h : c.takeRun p = some (s, d)) : d.left < c.left := by
  obtain ⟨hn, -, rfl⟩ := takeSpan_eq_some h
  have hr := c.length_remaining_le
  have hw := (List.takeWhile_sublist p (l := c.remaining)).length_le
  simp only [left, advance] at *
  omega

inductive Step where
  | whitespace
  | token
  | rest
  | fork
  | back
  deriving DecidableEq, Repr

/-- The cursor in use and those put aside by `fork`, the latest first. -/
structure Trail where
  current : Cursor
  saved : List Cursor
  deriving DecidableEq, Repr

namespace Trail

def follow (t : Trail) : Option (Span × Cursor) → Option Span × Trail
  | none => (none, t)
  | some (s, c) => (some s, { t with current := c })

/-- `fork` puts the cursor aside and goes on with a copy; `back` returns to the one put aside. -/
def step (t : Trail) : Step → Option Span × Trail
  | .whitespace => t.follow t.current.whitespace
  | .token => t.follow t.current.token
  | .rest => t.follow t.current.rest
  | .fork => (none, ⟨t.current, t.current :: t.saved⟩)
  | .back =>
    match t.saved with
    | [] => (none, t)
    | c :: saved => (none, ⟨c, saved⟩)

def run (t : Trail) : List Step → List (Option Span × Trail)
  | [] => []
  | s :: steps => t.step s :: (t.step s).2.run steps

end Trail

end Cursor

end Shebang
