import Shebang.Choice
import Shebang.Config.Error
import Shebang.Registry
import Shebang.Value

/-!
Drafts of a configuration and how they are put on top of each other. A draft remembers which keys
of a language were given, and a draft on top replaces those keys alone. Languages keep their
places; new ones follow the old ones.
-/

namespace Shebang

structure SetKeys where
  extensions : Bool
  description : Bool
  deriving DecidableEq, Repr

namespace SetKeys

def none : SetKeys := ⟨false, false⟩

def all : SetKeys := ⟨true, true⟩

def union (a b : SetKeys) : SetKeys :=
  ⟨a.extensions || b.extensions, a.description || b.description⟩

def ofFields (fields : Table) : SetKeys :=
  ⟨fields.contains "extensions", fields.contains "description"⟩

end SetKeys

/-- A language without an entry in `setKeys` counts as given with all keys. -/
structure Draft where
  languages : OrderedMap Language
  setKeys : OrderedMap SetKeys
  configFiles : List Path
  deriving DecidableEq, Repr

/-- What is left of a draft when all layers are in place. -/
structure Config where
  languages : List Language
  configFiles : List Path
  deriving DecidableEq, Repr

def Registry.ofConfig (c : Config) : Registry := ofList c.languages

namespace Draft

def empty : Draft := ⟨[], [], []⟩

def freeze (d : Draft) : Config := ⟨d.languages.values, d.configFiles⟩

def ofLanguages (ls : List Language) : Draft :=
  ⟨ls.foldl (fun m l => m.put l.name l) [], [], []⟩

def stringOf? : Value → Option Text
  | .string s => some s
  | _ => none

/-- The extensions of an entry, without leading dots; none when they are not given. -/
def readExtensions (name : Text) (fields : Table) : Except ConfigProblem (List Text) :=
  match fields.find? "extensions" with
  | none => .ok []
  | some (.list items) =>
    match items.mapM stringOf? with
    | some extensions => .ok (extensions.map Text.dropDots)
    | none => .error (.extensionsNotStrings name)
  | some _ => .error (.extensionsNotStrings name)

def readDescription (name : Text) (fields : Table) : Except ConfigProblem Text :=
  match fields.find? "description" with
  | none => .ok []
  | some (.string s) => .ok s
  | some _ => .error (.descriptionNotString name)

def readEntry (name : Text) : Value → Except ConfigProblem (Language × SetKeys)
  | .table fields => do
    let extensions ← readExtensions name fields
    let description ← readDescription name fields
    pure (⟨name, extensions, description⟩, .ofFields fields)
  | _ => .error (.languageNotTable name)

def addEntry (d : Draft) (entry : Text × Value) : Except ConfigProblem Draft := do
  let (language, keys) ← readEntry entry.1 entry.2
  pure { d with
    languages := d.languages.put entry.1 language
    setKeys := d.setKeys.put entry.1 keys }

def languageEntries (data : Table) : Except ConfigProblem Table :=
  match data.find? "languages" with
  | none => .ok []
  | some (.table entries) => .ok entries
  | some _ => .error .languagesNotTable

/-- The draft of a table. The first entry at fault is the one that is told. -/
def ofTable (data : Table) (file : Option Path) : Except ConfigError Draft :=
  let draft := do
    let entries ← languageEntries data
    entries.foldlM addEntry ⟨[], [], file.toList⟩
  draft.mapError (⟨file, ·⟩)

end Draft

/-- How extensions that two layers give are combined: the upper ones replace the lower ones, or
follow them without repeats. -/
inductive Collation where
  | revise
  | merge
  deriving DecidableEq, Repr

namespace Collation

def name : Collation → Text
  | .revise => "revise"
  | .merge => "merge"

def choices : Choices Collation := ⟨"CollationMode", [.revise, .merge], name⟩

/-- The language `base` with the keys in `keys` taken from `graft`. -/
def collate (mode : Collation) (base graft : Language) (keys : SetKeys) : Language where
  name := base.name
  extensions :=
    if keys.extensions then
      match mode with
      | .revise => graft.extensions
      | .merge => (base.extensions ++ graft.extensions).eraseDups
    else base.extensions
  description := if keys.description then graft.description else base.description

end Collation

namespace Draft

def graft (mode : Collation) (d : Draft) (name : Text) (language : Language) (keys : SetKeys) :
    Draft :=
  { d with
    languages := d.languages.put name (
      match d.languages.find? name with
      | none => language
      | some base => mode.collate base language keys)
    setKeys := d.setKeys.put name (((d.setKeys.find? name).getD .none).union keys) }

def keysOf (d : Draft) (name : Text) : SetKeys := (d.setKeys.find? name).getD .all

/-- The draft `upper` on top of `lower`. -/
def mergeWith (lower upper : Draft) (mode : Collation) : Draft :=
  let merged := upper.languages.foldl (fun d e => d.graft mode e.1 e.2 (upper.keysOf e.1)) lower
  { merged with configFiles := lower.configFiles ++ upper.configFiles }

def defaultTable : Table :=
  [("languages", .table (Language.builtins.map fun l =>
    (l.name, .table [
      ("extensions", .list (l.extensions.map .string)),
      ("description", .string l.description)])))]

def defaults : Draft :=
  ⟨Language.builtins.map fun l => (l.name, l), Language.builtins.map fun l => (l.name, .all), []⟩

theorem ofTable_defaultTable : ofTable defaultTable none = .ok defaults := rfl

end Draft

/-- The registry for a detection without a configuration file: the built-in languages, with a table
on top if one is given. -/
def Registry.ofTable? (data : Option Table) : Except ConfigError Registry :=
  match data with
  | none => .ok builtin
  | some t => do
    let overlay ← Draft.ofTable t none
    pure (ofConfig (Draft.defaults.mergeWith overlay .revise).freeze)

end Shebang
