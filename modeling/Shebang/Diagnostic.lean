import Shebang.Text

/-!
Diagnostics and the computations that leave them behind. The value of a computation never depends on
the diagnostics left before it.
-/

namespace Shebang

inductive Severity where
  | trace
  | debug
  | info
  | error
  deriving DecidableEq, Repr

structure Diagnostic where
  severity : Severity
  message : Text
  deriving DecidableEq, Repr

/-- A value together with what was recorded while it was computed, the first entry first. -/
structure Recorded (ω α : Type) where
  value : α
  log : List ω
  deriving DecidableEq, Repr

namespace Recorded

variable {ω α β : Type}

def record (entries : List ω) : Recorded ω Unit := ⟨(), entries⟩

instance : Monad (Recorded ω) where
  pure a := ⟨a, []⟩
  bind x f := ⟨(f x.value).value, x.log ++ (f x.value).log⟩

@[simp] theorem value_pure (a : α) : (pure a : Recorded ω α).value = a := rfl

@[simp] theorem log_pure (a : α) : (pure a : Recorded ω α).log = [] := rfl

@[simp] theorem value_bind (x : Recorded ω α) (f : α → Recorded ω β) :
    (x >>= f).value = (f x.value).value := rfl

@[simp] theorem log_bind (x : Recorded ω α) (f : α → Recorded ω β) :
    (x >>= f).log = x.log ++ (f x.value).log := rfl

end Recorded

abbrev Traced (α : Type) := Recorded Diagnostic α

def Traced.note (severity : Severity) (message : Text) : Traced Unit :=
  Recorded.record [⟨severity, message⟩]

/-- A computation that may fail; the diagnostics left before a failure are kept. -/
abbrev Attempt (ε α : Type) := ExceptT ε Traced α

namespace Attempt

def outcome {ε α : Type} (x : Attempt ε α) : Except ε α := (ExceptT.run x).value

def log {ε α : Type} (x : Attempt ε α) : List Diagnostic := (ExceptT.run x).log

def note {ε : Type} (severity : Severity) (message : Text) : Attempt ε Unit :=
  ExceptT.lift (Traced.note severity message)

end Attempt

end Shebang
