import Shebang.Text

/-!
Half-open ranges of offsets into a text.
-/

namespace Shebang

structure Span where
  start : Nat
  stop : Nat
  deriving DecidableEq, Repr

/-- Bounds that enclose no range: a negative start, or an end before the start. -/
structure InvalidSpan where
  start : Int
  stop : Int
  deriving DecidableEq, Repr

def InvalidSpan.message (e : InvalidSpan) : Text :=
  "Invalid span [" ++ Text.ofInt e.start ++ ", " ++ Text.ofInt e.stop ++ ")"

namespace Span

def Valid (s : Span) : Prop := s.start ≤ s.stop

instance (s : Span) : Decidable s.Valid := inferInstanceAs (Decidable (_ ≤ _))

def ofBounds (start stop : Int) : Except InvalidSpan Span :=
  if start < 0 ∨ stop < start then .error ⟨start, stop⟩ else .ok ⟨start.toNat, stop.toNat⟩

theorem ofBounds_valid {start stop : Int} {s : Span} (h : ofBounds start stop = .ok s) :
    s.Valid := by
  unfold ofBounds at h
  split at h
  · cases h
  · cases h
    simp only [Valid]
    omega

theorem ofBounds_of_valid {s : Span} (h : s.Valid) : ofBounds s.start s.stop = .ok s := by
  simp only [Valid] at h
  simp [ofBounds, h]

def length (s : Span) : Nat := s.stop - s.start

/-- The length when it fits a signed machine word of 64 bits. -/
def wordLength? (s : Span) : Option Nat := if s.length < Nat.pow 2 63 then some s.length else none

def isEmpty (s : Span) : Bool := s.start == s.stop

/-- The characters of `source` in the span; offsets past the end count as the end. -/
def text (s : Span) (source : Text) : Text := (source.take s.stop).drop s.start

def display (s : Span) : Text :=
  "[" ++ Text.ofNat s.start ++ ", " ++ Text.ofNat s.stop ++ ")"

def before (s t : Span) : Bool := s.start < t.start || (s.start == t.start && s.stop < t.stop)

def sort (spans : List Span) : List Span := spans.mergeSort fun s t => !t.before s

end Span

end Shebang
