import Shebang.Choice
import Shebang.Log.Level

/-!
Settings of a run that come from options and from the environment.
-/

namespace Shebang

inductive OutputFormat where
  | default
  | json
  | ndjson
  | markdown
  deriving DecidableEq, Repr

namespace OutputFormat

def name : OutputFormat → Text
  | .default => "default"
  | .json => "json"
  | .ndjson => "ndjson"
  | .markdown => "markdown"

def choices : Choices OutputFormat := ⟨"OutputFormat", [.default, .json, .ndjson, .markdown], name⟩

def isMachine : OutputFormat → Bool
  | .json => true
  | .ndjson => true
  | _ => false

end OutputFormat

inductive ColorMode where
  | auto
  | always
  | never
  deriving DecidableEq, Repr

namespace ColorMode

def name : ColorMode → Text
  | .auto => "auto"
  | .always => "always"
  | .never => "never"

def choices : Choices ColorMode := ⟨"ColorMode", [.auto, .always, .never], name⟩

end ColorMode

/-- The variables that a run looks at; `none` for one that is not set. -/
structure Environment where
  forceColor : Option Text
  noColor : Option Text
  logLevel : Option Text
  deriving DecidableEq, Repr

namespace Environment

/-- Color is forced by any value but the empty one and zero. -/
def forcesColor (e : Environment) : Bool :=
  match e.forceColor with
  | none => false
  | some value => value != [] && value != ['0']

/-- Whether output is colored. Machine formats never are; then the mode counts, then the
environment, and at last whether the output is a terminal. -/
def colorEnabled (e : Environment) (mode : Option ColorMode) (format : Option OutputFormat)
    (terminal : Bool) : Bool :=
  if format.any OutputFormat.isMachine then false
  else match mode with
    | some .always => true
    | some .never => false
    | _ => e.forcesColor || (e.noColor.isNone && terminal)

end Environment

structure VerbosityConflict where
  deriving DecidableEq, Repr

def VerbosityConflict.message (_ : VerbosityConflict) : Text :=
  "The '--verbose' and '--quiet' options are mutually exclusive."

/-- The verbosity of a run from the counts of both options: positive, zero, or negative when
quiet. -/
def verbosityLevel (verbose quiet : Int) : Except VerbosityConflict Int :=
  if 0 < verbose ∧ 0 < quiet then .error ⟨⟩
  else if 0 < verbose then .ok verbose
  else .ok (-quiet)

end Shebang
