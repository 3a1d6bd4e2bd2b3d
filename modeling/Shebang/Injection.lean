import Shebang.Recognize

/-!
The body of a script as a text of another grammar. A formatter sees the body alone; the shebang line
is copied, and so is a body without a known interpreter.
-/

namespace Shebang

structure Injection where
  language : Tag
  content : Span
  deriving DecidableEq, Repr

def findInjection (s : Script) : Option Injection :=
  match tagOf s.shebang with
  | .none => none
  | tag => some ⟨tag, s.body⟩

def findInjectionTraced (s : Script) : Traced (Option Injection) :=
  ⟨findInjection s,
    match findInjection s with
    | none =>
      let why : Text := if s.hasShebang then "unsupported" else "absent"
      [⟨.debug, "no injection: shebang=" ++ why⟩]
    | some i =>
      [⟨.debug, "injection: language=" ++ i.language.name ++ " content=" ++ i.content.display⟩]⟩

/-- The text with its body formatted. The formatter runs in any monad, so it may fail or keep state;
diagnostics go to `note` as they arise. -/
def applyInjection {m : Type → Type} [Monad m] (note : Diagnostic → m Unit)
    (format : Text → Tag → m Text) (text : Text) : m Text := do
  let script := recognizeTraced text
  script.log.forM note
  let injection := findInjectionTraced script.value
  injection.log.forM note
  match injection.value with
  | none => pure text
  | some i => do
    let formatted ← format (i.content.text text) i.language
    note ⟨.debug, "formatted " ++ i.language.name ++ " body: " ++ Text.ofNat i.content.length ++
      " -> " ++ Text.ofNat formatted.length ++ " chars"⟩
    pure (script.value.headerText ++ formatted)

end Shebang
