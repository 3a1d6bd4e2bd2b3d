import Shebang.Cursor
import Shebang.Diagnostic
import Shebang.Script
import Shebang.Text.Quoted

/-!
Recognition of the shebang line. The line is read after the marker `#!` and before its newline, in
one of two forms:

    launcher: path ending in "env", blanks, flags each followed by blanks, interpreter
    direct:   path prefix and interpreter name, at least one of them

The launcher form is tried first, on a copy of the cursor, so a line on which it fails is read as if
it had never been tried. A text without a complete shebang line is all body.
-/

namespace Shebang

inductive LauncherFailure where
  | notLauncher
  | noBlank (launcher : Text)
  | noInterpreter (launcher : Text)
  | flagEndsLine (flag : Text)
  deriving DecidableEq, Repr

/-- What the loop over flags has gathered, and where it stands. -/
structure Flags (κ : Type) where
  nodes : List Node
  texts : List Text
  place : κ
  deriving DecidableEq, Repr

/-- What either form finds: its nodes and fields, and the place behind it. -/
structure Invocation (κ : Type) where
  form : Form
  nodes : List Node
  pathPrefix : Text
  launcherFlags : List Text
  interpreterToken : Text
  place : κ
  deriving DecidableEq, Repr

/-- How the reading of a first line ends. A failure of the launcher form is kept. -/
inductive Reading where
  | noMarker
  | unterminated
  | noToken (launcher : LauncherFailure)
  | line (launcher : Option LauncherFailure) (shebang : ShebangLine)
  deriving DecidableEq, Repr

def Reading.shebang? : Reading → Option ShebangLine
  | .line _ s => some s
  | _ => none

def bodyStart : Option ShebangLine → Nat
  | none => 0
  | some line => line.span.stop

/-- The steps that recognition takes at places in a line. One that finds nothing stays where it is;
what a step does besides is up to `m`. -/
structure Steps (m : Type → Type) (κ : Type) where
  /-- The place behind the marker, in a line with its content up to `stop` and its line feed at
  `newline`. -/
  enter (text : Text) (stop newline : Int) : m κ
  text : κ → Text
  whitespace : κ → m (Option (Span × κ))
  token : κ → m (Option (Span × κ))
  rest : κ → m (Option (Span × κ))
  span (start stop : Int) : m Span
  /-- Whether this is the character at an offset. -/
  stands (text : Text) (index : Int) (c : Char) : m Bool

variable {m : Type → Type} [Monad m] {κ : Type}

namespace Steps

variable (s : Steps m κ)

def node (kind : NodeKind) (start stop : Int) : m Node := do
  return ⟨kind, ← s.span start stop⟩

def nodeIf (present : Bool) (kind : NodeKind) (start stop : Int) : m (List Node) := do
  if present then return [← s.node kind start stop] else return []

/-- One pass of the loop over flags. Behind a flag and its blanks it is to go on, and otherwise the
loop is over: there is an interpreter, or there is none. -/
def flagPass (launcher : Text) (flags : Flags κ) :
    m (Flags κ ⊕ Except LauncherFailure (Flags κ × Text)) := do
  match ← s.token flags.place with
  | none => return .inr (.error (.noInterpreter launcher))
  | some (word, afterWord) =>
    let text := word.text (s.text flags.place)
    if text.head? = some '-' then
      match ← s.whitespace afterWord with
      | none => return .inr (.error (.flagEndsLine text))
      | some (gap, afterGap) => return .inl {
          nodes := flags.nodes ++ [⟨.launcherFlag, word⟩, ⟨.whitespace, gap⟩]
          texts := flags.texts ++ [text]
          place := afterGap }
    else
      let nodes := flags.nodes ++ [⟨.launcherInterpreter, word⟩]
      return .inr (.ok (⟨nodes, flags.texts, afterWord⟩, text))

/-- A run of blanks that may be missing, and the place behind it. -/
def skipBlanks (place : κ) : m (List Node × κ) := do
  match ← s.whitespace place with
  | none => return ([], place)
  | some (gap, next) => return ([⟨.whitespace, gap⟩], next)

def direct (place : κ) : m (Option (Invocation κ)) := do
  match ← s.token place with
  | none => return none
  | some (path, afterPath) =>
    let token := path.text (s.text place)
    let cut : Int := token.throughLastSlash.length
    let pathNodes ← s.nodeIf (0 < cut) .interpreterPath path.start (path.start + cut)
    let nameNodes ←
      s.nodeIf (cut < token.length) .interpreterName (path.start + cut) path.stop
    return some {
      form := .direct
      nodes := pathNodes ++ nameNodes
      pathPrefix := token.throughLastSlash
      launcherFlags := []
      interpreterToken := token.lastSegment
      place := afterPath }

/-- Blanks, arguments and blanks behind an invocation, and the text of the arguments. -/
def readTail (place : κ) : m (List Node × Option Text) := do
  let (blanks, place) ← s.skipBlanks place
  match ← s.rest place with
  | none => return (blanks, none)
  | some (rest, _) =>
    let arguments := (rest.text (s.text place)).trimEnd isInlineSpace
    let last ← s.node .arguments rest.start (rest.start + arguments.length)
    let trail ← s.nodeIf (last.span.stop < rest.stop) .whitespace last.span.stop rest.stop
    return (blanks ++ last :: trail, some arguments)

/-- The end of the content of a line: a carriage return before the newline is no part of it. -/
def contentEnd (text : Text) (newline : Int) : m Int := do
  if 2 < newline then
    if ← s.stands text (newline - 1) '\r' then return newline - 1 else return newline
  else return newline

/-- The marker and the blanks of a line with its newline at `newline`, behind the end of its
content. -/
def opening (text : Text) (newline : Int) : m (Int × List Node × κ) := do
  let stop ← s.contentEnd text newline
  let marker ← s.node .marker 0 2
  let (lead, place) ← s.skipBlanks (← s.enter text stop newline)
  return (stop, marker :: lead, place)

def assemble (contentEnd newline : Int) (front : List Node) (found : Invocation κ) :
    m ShebangLine := do
  let (tail, arguments) ← s.readTail found.place
  let ending ← s.node .newline contentEnd (newline + 1)
  return {
    form := found.form
    span := ← s.span 0 (newline + 1)
    nodes := front ++ found.nodes ++ tail ++ [ending]
    pathPrefix := found.pathPrefix
    launcherFlags := found.launcherFlags
    interpreterToken := found.interpreterToken
    interpreter := .ofToken found.interpreterToken
    arguments }

end Steps

/-- Steps with a loop over flags. -/
structure Scanner (m : Type → Type) (κ : Type) extends Steps m κ where
  readFlags (launcher : Text) (flags : Flags κ) : m (Except LauncherFailure (Flags κ × Text))

namespace Scanner

variable (s : Scanner m κ)

def viaLauncher (place : κ) : m (Except LauncherFailure (Invocation κ)) := do
  match ← s.token place with
  | none => return .error .notLauncher
  | some (path, afterPath) =>
    let token := path.text (s.text place)
    if token.lastSegment = "env" then
      match ← s.whitespace afterPath with
      | none => return .error (.noBlank token)
      | some (gap, afterGap) =>
        let front := [⟨.launcherPath, path⟩, ⟨.whitespace, gap⟩]
        match ← s.readFlags token ⟨front, [], afterGap⟩ with
        | .error failure => return .error failure
        | .ok (flags, interpreter) => return .ok {
            form := .viaLauncher
            nodes := flags.nodes
            pathPrefix := token.throughLastSlash
            launcherFlags := flags.texts
            interpreterToken := interpreter
            place := flags.place }
    else return .error .notLauncher

/-- Behind the opening of a line, by the two forms one after the other. -/
def readContent (stop newline : Int) (front : List Node) (place : κ) : m Reading := do
  match ← s.viaLauncher place with
  | .ok found => return .line none (← s.assemble stop newline front found)
  | .error failure =>
    match ← s.direct place with
    | none => return .noToken failure
    | some found => return .line (some failure) (← s.assemble stop newline front found)

def readLine (text : Text) (newline : Int) : m Reading := do
  let (stop, front, place) ← s.opening text newline
  s.readContent stop newline front place

def readText (text : Text) : m Reading := do
  if text.take 2 = "#!" then
    match text.findIdx? (· == '\n') with
    | none => return .unterminated
    | some newline => s.readLine text newline
  else return .noMarker

def recognize (text : Text) : m Script := do
  let shebang := (← s.readText text).shebang?
  return { text, shebang, body := ← s.span (bodyStart shebang) text.length, tag := tagOf shebang }

end Scanner

namespace Cursor

/-- On cursors a step is taken and nothing else is done. -/
def steps : Steps Id Cursor where
  enter text stop _ := ⟨text, 2, stop.toNat⟩
  text := Cursor.text
  whitespace := Cursor.whitespace
  token := Cursor.token
  rest := Cursor.rest
  span start stop := ⟨start.toNat, stop.toNat⟩
  stands text index c := decide (text[index.toNat]? = some c)

@[simp] theorem steps_text (c : Cursor) : steps.text c = c.text := rfl

@[simp] theorem steps_whitespace (c : Cursor) : steps.whitespace c = c.whitespace := rfl

@[simp] theorem steps_token (c : Cursor) : steps.token c = c.token := rfl

@[simp] theorem steps_rest (c : Cursor) : steps.rest c = c.rest := rfl

@[simp] theorem plain_bind {α β : Type} (x : Id α) (f : α → Id β) : x >>= f = f x := rfl

@[simp] theorem plain_pure {α : Type} (a : α) : (pure a : Id α) = a := rfl

section Flags

variable {launcher : Text} {flags next : Flags Cursor} {word gap : Span} {c d : Cursor}

theorem flagPass_noWord (hw : flags.place.token = none) :
    steps.flagPass launcher flags = .inr (.error (.noInterpreter launcher)) := by
  simp only [Steps.flagPass, steps_token, plain_bind, hw, plain_pure]

theorem flagPass_operand (hw : flags.place.token = some (word, c))
    (ht : (word.text flags.place.text).head? ≠ some '-') :
    steps.flagPass launcher flags = .inr (.ok
      (⟨flags.nodes ++ [⟨.launcherInterpreter, word⟩], flags.texts, c⟩,
        word.text flags.place.text)) := by
  simp only [Steps.flagPass, steps_token, steps_text, plain_bind, hw]
  exact if_neg ht

theorem flagPass_noGap (hw : flags.place.token = some (word, c))
    (ht : (word.text flags.place.text).head? = some '-') (hg : c.whitespace = none) :
    steps.flagPass launcher flags =
      .inr (.error (.flagEndsLine (word.text flags.place.text))) := by
  simp only [Steps.flagPass, steps_token, steps_text, steps_whitespace, plain_bind, hw, if_pos ht,
    hg, plain_pure]

theorem flagPass_flag (hw : flags.place.token = some (word, c))
    (ht : (word.text flags.place.text).head? = some '-') (hg : c.whitespace = some (gap, d)) :
    steps.flagPass launcher flags = .inl
      ⟨flags.nodes ++ [⟨.launcherFlag, word⟩, ⟨.whitespace, gap⟩],
        flags.texts ++ [word.text flags.place.text], d⟩ := by
  simp only [Steps.flagPass, steps_token, steps_text, steps_whitespace, plain_bind, hw, if_pos ht,
    hg, plain_pure]

/-- All that a pass can do. -/
theorem flagPass_cases (launcher : Text) (flags : Flags Cursor) :
    (flags.place.token = none ∧
      steps.flagPass launcher flags = .inr (.error (.noInterpreter launcher))) ∨
    ∃ word c, flags.place.token = some (word, c) ∧
      (((word.text flags.place.text).head? ≠ some '-' ∧ steps.flagPass launcher flags = .inr (.ok
        (⟨flags.nodes ++ [⟨.launcherInterpreter, word⟩], flags.texts, c⟩,
          word.text flags.place.text))) ∨
      (word.text flags.place.text).head? = some '-' ∧
        ((c.whitespace = none ∧ steps.flagPass launcher flags =
          .inr (.error (.flagEndsLine (word.text flags.place.text)))) ∨
        ∃ gap d, c.whitespace = some (gap, d) ∧ steps.flagPass launcher flags = .inl
          ⟨flags.nodes ++ [⟨.launcherFlag, word⟩, ⟨.whitespace, gap⟩],
            flags.texts ++ [word.text flags.place.text], d⟩)) := by
  cases hw : flags.place.token with
  | none => exact Or.inl ⟨rfl, flagPass_noWord hw⟩
  | some found =>
    obtain ⟨word, c⟩ := found
    refine Or.inr ⟨word, c, rfl, ?_⟩
    by_cases ht : (word.text flags.place.text).head? = some '-'
    · refine Or.inr ⟨ht, ?_⟩
      cases hg : c.whitespace with
      | none => exact Or.inl ⟨rfl, flagPass_noGap hw ht hg⟩
      | some found => exact Or.inr ⟨_, _, rfl, flagPass_flag hw ht hg⟩
    · exact Or.inl ⟨ht, flagPass_operand hw ht⟩

/-- A pass that another one follows has read a flag and its blanks. -/
theorem flagPass_eq_inl (h : steps.flagPass launcher flags = .inl next) :
    ∃ word c gap d, flags.place.token = some (word, c) ∧
      (word.text flags.place.text).head? = some '-' ∧ c.whitespace = some (gap, d) ∧
      next = ⟨flags.nodes ++ [⟨.launcherFlag, word⟩, ⟨.whitespace, gap⟩],
        flags.texts ++ [word.text flags.place.text], d⟩ := by
  rcases flagPass_cases launcher flags with
    ⟨-, hpass⟩ | ⟨word, c, hw, ⟨-, hpass⟩ | ⟨ht, ⟨-, hpass⟩ | ⟨gap, d, hg, hpass⟩⟩⟩
  · cases h.symm.trans hpass
  · cases h.symm.trans hpass
  · cases h.symm.trans hpass
  · cases h.symm.trans hpass
    exact ⟨word, c, gap, d, hw, ht, hg, rfl⟩

theorem left_of_flagPass (h : steps.flagPass launcher flags = .inl next) :
    next.place.left < flags.place.left := by
  obtain ⟨word, c, gap, d, hw, -, hg, rfl⟩ := flagPass_eq_inl h
  exact Nat.lt_trans (left_of_takeRun hg) (left_of_takeRun hw)

end Flags

def readFlags (launcher : Text) (flags : Flags Cursor) :
    Except LauncherFailure (Flags Cursor × Text) :=
  match _h : steps.flagPass launcher flags with
  | .inl next => readFlags launcher next
  | .inr ending => ending
termination_by flags.place.left
decreasing_by exact left_of_flagPass _h

def scanner : Scanner Id Cursor where
  toSteps := steps
  readFlags := readFlags

@[simp] theorem scanner_steps : scanner.toSteps = steps := rfl

@[simp] theorem scanner_readFlags : scanner.readFlags = readFlags := rfl

end Cursor

def Reading.ofText (text : Text) : Reading := Id.run (Cursor.scanner.readText text)

def LauncherFailure.diagnostics : LauncherFailure → List Diagnostic
  | .notLauncher => []
  | .noBlank launcher =>
    [⟨.trace, "launcher " ++ launcher.quoted ++ " is not followed by whitespace"⟩]
  | .noInterpreter launcher =>
    [⟨.trace, "launcher " ++ launcher.quoted ++ " names no interpreter"⟩]
  | .flagEndsLine flag => [⟨.trace, "launcher flag " ++ flag.quoted ++ " ends the line"⟩]

def ShebangLine.diagnostic (s : ShebangLine) : Diagnostic where
  severity := .trace
  message := "shebang: form=" ++ s.form.name ++ " interpreter=" ++ s.interpreterToken.quoted ++
    " (" ++ s.interpreter.name ++ ") flags=" ++ Text.quotedTuple s.launcherFlags ++ " args=" ++
    (match s.arguments with
      | none => ("None" : Text)
      | some a => a.quoted)

def Reading.diagnostics : Reading → List Diagnostic
  | .noMarker => []
  | .unterminated =>
    [⟨.trace, "shebang line is not newline-terminated; treating file as body"⟩]
  | .noToken failure => failure.diagnostics ++
    [⟨.trace, "shebang marker without an interpreter token; treating file as body"⟩]
  | .line none s => [s.diagnostic]
  | .line (some failure) s => failure.diagnostics ++ [s.diagnostic]

def recognize (text : Text) : Script := Id.run (Cursor.scanner.recognize text)

def recognizeTraced (text : Text) : Traced Script :=
  ⟨recognize text, (Reading.ofText text).diagnostics⟩

end Shebang
