import Shebang.Text

/-!
Reading of the arguments of a command: options and positional arguments, in any order or with the
options first. Options are written `--name`, `--name=value`, `--name value`, `-n`, `-nvalue` or
`-n value`; short options without values may be joined. After `--` all arguments are positional.
-/

namespace Shebang.CommandLine

/-- An option of a command. It takes a value if it has a name for one. -/
structure OptionSpec (κ : Type) where
  key : κ
  short : Option Char
  long : Text
  valueName : Option Text
  help : Text

namespace OptionSpec

variable {κ : Type}

def takesValue (o : OptionSpec κ) : Bool := o.valueName.isSome

def longName (o : OptionSpec κ) : Text := "--" ++ o.long

def shortName (o : OptionSpec κ) : Option Text := o.short.map fun c => ['-', c]

def names (o : OptionSpec κ) : List Text := o.shortName.toList ++ [o.longName]

end OptionSpec

inductive ArgumentError where
  | unknownOption (name : Text)
  | missingValue (name : Text)
  | unexpectedValue (name : Text)
  deriving DecidableEq, Repr

/-- The options in the order in which they were given, each with its value, which is empty for an
option that takes none; and the positional arguments. -/
structure Arguments (κ : Type) where
  options : List (κ × Text)
  positionals : List Text
  deriving DecidableEq, Repr

namespace Arguments

variable {κ : Type}

def withOptions (found : List (κ × Text)) (a : Arguments κ) : Arguments κ :=
  { a with options := found ++ a.options }

def withPositional (t : Text) (a : Arguments κ) : Arguments κ :=
  { a with positionals := t :: a.positionals }

end Arguments

/-- What an argument with options yields: the options it completes, and the option that waits for
its value, under the name it was written with. -/
structure OptionWord (κ : Type) where
  complete : List (κ × Text)
  waiting : Option (κ × Text)
  deriving DecidableEq, Repr

variable {κ : Type}

def readShort (specs : List (OptionSpec κ)) : Text → Except ArgumentError (OptionWord κ)
  | [] => .ok ⟨[], none⟩
  | c :: rest =>
    match specs.find? fun o => o.short == some c with
    | none => .error (.unknownOption ['-', c])
    | some o =>
      if o.takesValue then
        if rest = [] then .ok ⟨[], some (o.key, ['-', c])⟩ else .ok ⟨[(o.key, rest)], none⟩
      else do
        let word ← readShort specs rest
        pure { word with complete := (o.key, []) :: word.complete }

def readLong (specs : List (OptionSpec κ)) (name : Text) (value : Option Text) :
    Except ArgumentError (OptionWord κ) :=
  match specs.find? fun o => o.longName == name with
  | none => .error (.unknownOption name)
  | some o =>
    match o.takesValue, value with
    | true, some v => .ok ⟨[(o.key, v)], none⟩
    | true, none => .ok ⟨[], some (o.key, name)⟩
    | false, some _ => .error (.unexpectedValue name)
    | false, none => .ok ⟨[(o.key, [])], none⟩

def cutAtEquals (t : Text) : Text × Option Text :=
  let name := t.takeWhile (· != '=')
  match t.drop name.length with
  | [] => (name, none)
  | _ :: value => (name, some value)

def readOption (specs : List (OptionSpec κ)) (argument : Text) :
    Except ArgumentError (OptionWord κ) :=
  match argument with
  | '-' :: '-' :: _ => readLong specs (cutAtEquals argument).1 (cutAtEquals argument).2
  | _ => readShort specs (argument.drop 1)

/-- A hyphen by itself is a positional argument. -/
def isOption (argument : Text) : Bool := argument.head? == some '-' && argument != ['-']

/-- Reads arguments from left to right and stops at the first fault. If options may not be mixed
with positional arguments, the first positional argument ends them. -/
def readArguments (specs : List (OptionSpec κ)) (mixed : Bool) :
    List Text → Except ArgumentError (Arguments κ)
  | [] => .ok ⟨[], []⟩
  | argument :: rest =>
    if argument = ['-', '-'] then .ok ⟨[], rest⟩
    else if isOption argument then
      match readOption specs argument with
      | .error e => .error e
      | .ok ⟨complete, none⟩ => (·.withOptions complete) <$> readArguments specs mixed rest
      | .ok ⟨complete, some (key, name)⟩ =>
        match rest with
        | [] => .error (.missingValue name)
        | value :: rest =>
          (·.withOptions (complete ++ [(key, value)])) <$> readArguments specs mixed rest
    else if mixed then (·.withPositional argument) <$> readArguments specs mixed rest
    else .ok ⟨[], argument :: rest⟩

namespace Arguments

variable [DecidableEq κ]

def keys (a : Arguments κ) : List κ := (a.options.map Prod.fst).eraseDups

def count (a : Arguments κ) (key : κ) : Nat := (a.options.map Prod.fst).count key

def has (a : Arguments κ) (key : κ) : Bool := a.keys.contains key

def values (a : Arguments κ) (key : κ) : List Text :=
  (a.options.filter fun o => o.1 == key).map Prod.snd

end Arguments

end Shebang.CommandLine
