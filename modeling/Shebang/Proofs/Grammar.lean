import Mathlib.Computability.Language
import Mathlib.Data.List.TakeWhile
import Shebang.Proofs.Cursor
import Shebang.Proofs.Piece

/-!
The grammar of a shebang line, said without a cursor. A line is its parts, and the text of a line
that is well formed splits into these parts in one way only.
-/

/-- Sets of words. Inside this library a language is one that programs are written in. -/
abbrev Words (α : Type) : Type := Language α

namespace Shebang

open Computability

def Blanks (t : Text) : Prop := ∀ x ∈ t, isInlineSpace x = true

def Gap (t : Text) : Prop := t ≠ [] ∧ Blanks t

def Solid (t : Text) : Prop := ∀ x ∈ t, isTokenChar x = true

def Token (t : Text) : Prop := t ≠ [] ∧ Solid t

/-- What stands before the last segment of a path: nothing, or a text that ends in a slash. -/
def Directory (t : Text) : Prop := Solid t ∧ (t = [] ∨ t.getLast? = some '/')

def Flag (t : Text) : Prop := Token t ∧ t.head? = some '-'

def Operand (t : Text) : Prop := Token t ∧ t.head? ≠ some '-'

section Decidability

variable (t : Text)

instance (p : Char → Bool) : Decidable (Text.Stops p t) :=
  Option.decidableForallMem (p := fun x => p x = false) t.head?

instance : Decidable (Blanks t) := List.decidableBAll (fun x => isInlineSpace x = true) t

instance : Decidable (Gap t) := inferInstanceAs (Decidable (_ ∧ _))

instance : Decidable (Solid t) := List.decidableBAll (fun x => isTokenChar x = true) t

instance : Decidable (Token t) := inferInstanceAs (Decidable (_ ∧ _))

instance : Decidable (Directory t) := inferInstanceAs (Decidable (_ ∧ (_ ∨ _)))

instance : Decidable (Flag t) := inferInstanceAs (Decidable (_ ∧ _))

instance : Decidable (Operand t) := inferInstanceAs (Decidable (_ ∧ _))

end Decidability

namespace Line

inductive Call where
  | viaLauncher (directory gap : Text) (flags : List (Text × Text)) (interpreter : Text)
  | direct (directory name : Text)
  deriving DecidableEq, Repr

inductive Tail where
  | blanks (gap : Text)
  | arguments (gap text trail : Text)
  deriving DecidableEq, Repr

def flagPieces (flags : List (Text × Text)) : List Piece :=
  flags.flatMap fun f => [⟨.launcherFlag, f.1⟩, ⟨.whitespace, f.2⟩]

theorem flagPieces_cons (f : Text × Text) (flags : List (Text × Text)) :
    flagPieces (f :: flags) =
      [⟨.launcherFlag, f.1⟩] ++ [⟨.whitespace, f.2⟩] ++ flagPieces flags := rfl

theorem flagPieces_kind {flags : List (Text × Text)} {p : Piece} (h : p ∈ flagPieces flags) :
    p.kind = .launcherFlag ∨ p.kind = .whitespace := by
  obtain ⟨f, -, hp⟩ := List.mem_flatMap.mp h
  rcases List.mem_cons.mp hp with rfl | hp
  · exact Or.inl rfl
  · rw [List.mem_singleton.mp hp]
    exact Or.inr rfl

namespace Call

def pieces : Call → List Piece
  | viaLauncher directory gap flags interpreter =>
    ⟨.launcherPath, directory ++ "env"⟩ :: ⟨.whitespace, gap⟩ ::
      flagPieces flags ++ [⟨.launcherInterpreter, interpreter⟩]
  | direct directory name => [⟨.interpreterPath, directory⟩, ⟨.interpreterName, name⟩]

theorem pieces_viaLauncher (directory gap : Text) (flags : List (Text × Text))
    (interpreter : Text) : (viaLauncher directory gap flags interpreter).pieces =
      [⟨.launcherPath, directory ++ "env"⟩] ++ [⟨.whitespace, gap⟩] ++ flagPieces flags ++
        [⟨.launcherInterpreter, interpreter⟩] := rfl

theorem pieces_direct (directory name : Text) : (direct directory name).pieces =
    [⟨.interpreterPath, directory⟩] ++ [⟨.interpreterName, name⟩] := rfl

theorem kind_mem {c : Call} {p : Piece} (h : p ∈ c.pieces) :
    p.kind ∈ [NodeKind.launcherPath, .launcherFlag, .launcherInterpreter, .interpreterPath,
      .interpreterName, .whitespace] := by
  cases c with
  | viaLauncher directory gap flags interpreter =>
    simp only [pieces, List.cons_append, List.mem_cons, List.mem_append, List.not_mem_nil,
      or_false] at h
    rcases h with rfl | rfl | h | rfl
    · simp
    · simp
    · rcases flagPieces_kind h with hk | hk <;> simp [hk]
    · simp
  | direct directory name =>
    simp only [pieces, List.mem_cons, List.not_mem_nil, or_false] at h
    rcases h with rfl | rfl <;> simp

def form : Call → Form
  | viaLauncher .. => .viaLauncher
  | direct .. => .direct

def directory : Call → Text
  | viaLauncher directory .. => directory
  | direct directory _ => directory

def flags : Call → List Text
  | viaLauncher _ _ flags _ => flags.map Prod.fst
  | direct .. => []

def interpreter : Call → Text
  | viaLauncher _ _ _ interpreter => interpreter
  | direct _ name => name

def WellFormed : Call → Prop
  | viaLauncher directory gap flags interpreter =>
    Directory directory ∧ Gap gap ∧ (∀ f ∈ flags, Flag f.1 ∧ Gap f.2) ∧ Operand interpreter
  | direct directory name =>
    Directory directory ∧ Solid name ∧ '/' ∉ name ∧ directory ++ name ≠ []

instance (c : Call) : Decidable c.WellFormed :=
  match c with
  | viaLauncher .. => inferInstanceAs (Decidable (_ ∧ _ ∧ (∀ f ∈ _, _ ∧ _) ∧ _))
  | direct .. => inferInstanceAs (Decidable (_ ∧ _ ∧ _ ∧ _))

end Call

namespace Tail

def pieces : Tail → List Piece
  | blanks gap => [⟨.whitespace, gap⟩]
  | arguments gap text trail => [⟨.whitespace, gap⟩, ⟨.arguments, text⟩, ⟨.whitespace, trail⟩]

theorem pieces_arguments (gap text trail : Text) : (arguments gap text trail).pieces =
    [⟨.whitespace, gap⟩] ++ ([⟨.arguments, text⟩] ++ [⟨.whitespace, trail⟩]) := rfl

theorem kind_mem {tail : Tail} {p : Piece} (h : p ∈ tail.pieces) :
    p.kind ∈ [NodeKind.whitespace, .arguments] := by
  cases tail with
  | blanks gap =>
    simp [List.mem_singleton.mp h]
  | arguments gap text trail =>
    simp only [pieces, List.mem_cons, List.not_mem_nil, or_false] at h
    rcases h with rfl | rfl | rfl <;> simp

def arguments? : Tail → Option Text
  | blanks _ => none
  | arguments _ text _ => some text

/-- Arguments begin and end with something else than a blank. Without a gap before them the word in
front would go on, unless they begin with a carriage return. -/
def WellFormed : Tail → Prop
  | blanks gap => Blanks gap
  | arguments gap text trail =>
    Blanks gap ∧ Blanks trail ∧ text ≠ [] ∧ '\n' ∉ text ∧
      Text.Stops isInlineSpace text ∧ Text.Stops isInlineSpace text.reverse ∧
      (gap = [] → text.head? = some '\r')

instance (tail : Tail) : Decidable tail.WellFormed :=
  match tail with
  | blanks gap => inferInstanceAs (Decidable (Blanks gap))
  | arguments .. => inferInstanceAs (Decidable (_ ∧ _ ∧ _ ∧ _ ∧ _ ∧ _ ∧ (_ → _)))

def text (tail : Tail) : Text := Piece.join tail.pieces

@[simp] theorem text_blanks (gap : Text) : (blanks gap).text = gap := List.append_nil gap

@[simp] theorem text_arguments (gap text trail : Text) :
    (arguments gap text trail).text = gap ++ (text ++ trail) := by
  simp [Tail.text, pieces]

end Tail

/-! The same as regular expressions. -/

def one (p : Char → Bool) : Words Char := {t | ∃ x, p x = true ∧ t = [x]}

/-- `[ \t]+` -/
def gaps : Words Char := one isInlineSpace * (one isInlineSpace)∗

/-- `[^ \t\r\n]*` -/
def solids : Words Char := (one isTokenChar)∗

/-- `-[^ \t\r\n]*[ \t]+` -/
def flagged : Words Char := {['-']} * solids * gaps

/-- `[^- \t\r\n][^ \t\r\n]*` -/
def operands : Words Char := one (fun x => x != '-' && isTokenChar x) * solids

/-- What makes the path of a launcher the beginning of a launcher line:
`[ \t]+(-[^ \t\r\n]*[ \t]+)*[^- \t\r\n][^ \t\r\n]*` -/
def launched : Words Char := gaps * flagged∗ * operands

/-- `[ \t]*([^ \t\r\n]*/)?env[ \t]+(-[^ \t\r\n]*[ \t]+)*[^- \t\r\n][^ \t\r\n]*` -/
def launcherPrefix : Words Char :=
  (one isInlineSpace)∗ * (1 + solids * {['/']}) * {("env" : Text)} * launched

def Matches (L : Words Char) (t : Text) : Prop := ∃ u ∈ L, u <+: t

end Line

structure Line where
  lead : Text
  call : Line.Call
  tail : Line.Tail
  newline : Text
  deriving DecidableEq, Repr

namespace Line

def content (l : Line) : Text := l.lead ++ Piece.join l.call.pieces ++ l.tail.text

def pieces (l : Line) : List Piece :=
  ⟨.marker, "#!"⟩ :: ⟨.whitespace, l.lead⟩ :: l.call.pieces ++ l.tail.pieces ++
    [⟨.newline, l.newline⟩]

theorem pieces_eq (l : Line) : l.pieces =
    [⟨.marker, "#!"⟩] ++ [⟨.whitespace, l.lead⟩] ++ l.call.pieces ++ l.tail.pieces ++
      [⟨.newline, l.newline⟩] := by
  simp [pieces]

def render (l : Line) : Text := Piece.join l.pieces

theorem render_eq (l : Line) : l.render = "#!" ++ l.content ++ l.newline := by
  simp [render, pieces, content, Tail.text]

/-- A newline is a line feed or a carriage return and a line feed; a carriage return before a line
feed is no part of the content. -/
def Terminated (content newline : Text) : Prop :=
  newline = "\n" ∧ content.getLast? ≠ some '\r' ∨ newline = "\r\n"

structure WellFormed (l : Line) : Prop where
  lead : Blanks l.lead
  call : l.call.WellFormed
  tail : l.tail.WellFormed
  /-- A line that runs the launcher itself has no launcher reading. -/
  unlaunched : ∀ directory, l.call = .direct directory "env" →
    ¬ Matches launched l.tail.text
  newline : Terminated l.content l.newline

theorem newline_ne_nil {l : Line} (h : l.WellFormed) : l.newline ≠ [] := by
  rcases h.newline with ⟨hn, -⟩ | hn
  · simp [hn]
  · simp [hn]

def shebang (l : Line) : ShebangLine where
  form := l.call.form
  span := ⟨0, l.render.length⟩
  nodes := Piece.layOut 0 l.pieces
  pathPrefix := l.call.directory
  launcherFlags := l.call.flags
  interpreterToken := l.call.interpreter
  interpreter := .ofToken l.call.interpreter
  arguments := l.tail.arguments?

end Line

end Shebang
