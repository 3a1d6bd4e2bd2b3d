import Shebang.Config.Draft
import Shebang.Diagnostic
import Shebang.FileSystem

/-!
Configuration files: where they are found, how they are read, and the layers they make. The built-in
languages lie lowest, then `pyproject.toml`, then `shebangscan.toml`, then the files that are named.
The reader of TOML is given; whatever fault it reports that is not a fault of the document passes
through.
-/

namespace Shebang

def projectFileName : Text := "pyproject.toml"

def toolFileName : Text := "shebangscan.toml"

inductive LoadError where
  | config (cause : ConfigError)
  /-- A key that stands twice, as the reader of TOML tells it. -/
  | keyTaken (key : Text)
  /-- Any other fault that the reader does not count as one of the document. -/
  | rejected (message : Text)
  | notOpened (cause : OpenError)
  /-- The working directory is to be searched and is gone. -/
  | nowhere (why : Refusal)
  deriving DecidableEq, Repr

def LoadError.message : LoadError → Text
  | .config cause => cause.message
  | .keyTaken key => "Key \"" ++ key ++ "\" already exists."
  | .rejected message => message
  | .notOpened cause => cause.message
  | .nowhere why => "[Errno " ++ Text.ofNat why.number ++ "] " ++ why.reason

namespace Config

def fail {α : Type} (path : Path) (problem : ConfigProblem) : Attempt LoadError α :=
  throw (.config ⟨some path, problem⟩)

/-- Line ends as they count in a document: a carriage return, alone or before a line feed, is a
line feed. -/
def unifyLineEnds : Text → Text
  | '\r' :: '\n' :: t => '\n' :: unifyLineEnds t
  | '\r' :: t => '\n' :: unifyLineEnds t
  | c :: t => c :: unifyLineEnds t
  | [] => []

def loadTable (fs : FileSystem) (toml : Toml.Parser) (path : Path) : Attempt LoadError Table :=
  match fs.read path with
  | .error .embeddedNul => throw (.notOpened .embeddedNul)
  | .error (.refused why name) => do
    Attempt.note .error ("Error loading TOML from " ++ path.display ++ ": " ++
      (OpenError.refused why name).message)
    fail path (.unreadable why)
  | .ok bytes =>
    match Utf8.decode bytes with
    | .error e => do
      Attempt.note .error ("Error decoding TOML from " ++ path.display ++ ": " ++ e.message)
      fail path .notUtf8
    | .ok text =>
      match toml (unifyLineEnds text) with
      | .error (.keyTaken key) => throw (.keyTaken key)
      | .error (.other message) => throw (.rejected message)
      | .error (.invalid reason) => do
        Attempt.note .error ("Error parsing TOML from " ++ path.display ++ ": " ++ reason)
        fail path (.invalidToml reason)
      | .ok data => pure data

def toolTable? (data : Table) : Option Table :=
  match data.find? "tool" with
  | some (.table tools) =>
    match OrderedMap.find? "shebangscan" tools with
    | some (.table own) => some own
    | _ => none
  | _ => none

/-- The part of a document that counts: a section of a project file, or all of any other file. -/
def extractTable (path : Path) (data : Table) : Traced (Option Table) :=
  if path.name = projectFileName then
    match toolTable? data with
    | some own => pure (some own)
    | none => do
      Traced.note .debug ("No [tool.shebangscan] section in " ++ path.display)
      pure none
  else pure (some data)

/-- The configuration files of a directory, lowest layer first. -/
def discover (fs : FileSystem) (directory : Path) : Attempt OpenError (List Path) := do
  let found ← [projectFileName, toolFileName].filterM fun name =>
    liftExcept (fs.isFile (directory.join name))
  let paths := found.map directory.join
  Attempt.note .debug
    ("Discovered config files in " ++ directory.display ++ ": " ++ Path.displayList paths)
  pure paths
where
  liftExcept {α : Type} (x : Except OpenError α) : Attempt OpenError α := ExceptT.mk (pure x)

/-- The layer of a file; a project file without a section for this tool has none. -/
def loadLayer (fs : FileSystem) (toml : Toml.Parser) (path : Path) :
    Attempt LoadError (Option Draft) := do
  Attempt.note .debug ("Creating MutableConfig from TOML config: " ++ path.display)
  let data ← loadTable fs toml path
  match ← ExceptT.lift (extractTable path data) with
  | none => pure none
  | some own =>
    match Draft.ofTable own (some path) with
    | .error e => throw (.config e)
    | .ok d => pure (some d)

structure Sources where
  directory : Option (Except Refusal Path)
  extras : List Path
  collation : Collation

def addFile (fs : FileSystem) (toml : Toml.Parser) (mode : Collation) (d : Draft) (path : Path) :
    Attempt LoadError Draft := do
  match ← loadLayer fs toml path with
  | none => pure d
  | some layer => pure (d.mergeWith layer mode)

/-- Loads a named file on top of a draft; it has to exist. -/
def addExtra (fs : FileSystem) (toml : Toml.Parser) (mode : Collation) (d : Draft) (path : Path) :
    Attempt LoadError Draft := do
  match fs.isFile path with
  | .error e => throw (.notOpened e)
  | .ok false => fail path .notFound
  | .ok true => addFile fs toml mode d path

def loadMerged (fs : FileSystem) (toml : Toml.Parser) (sources : Sources) :
    Attempt LoadError Draft := do
  let found ← match sources.directory with
    | none => pure []
    | some (.error why) => throw (.nowhere why)
    | some (.ok directory) => ExceptT.adapt LoadError.notOpened (discover fs directory)
  let d ← found.foldlM (addFile fs toml sources.collation) Draft.defaults
  let d ← sources.extras.foldlM (addExtra fs toml sources.collation) d
  Attempt.note .debug
    ("Merged config (" ++ sources.collation.name ++ "): languages=" ++
      Text.quotedList d.languages.keys ++ " files=" ++ Path.displayList d.configFiles)
  pure d

/-- The configuration for a run. A fault of a source is reported as it is passed on. -/
def resolve (fs : FileSystem) (toml : Toml.Parser) (sources : Sources) :
    Attempt LoadError Config :=
  tryCatch (Draft.freeze <$> loadMerged fs toml sources) fun
    | .config e => do
      Attempt.note .error ("Configuration error: " ++ e.message)
      throw (.config e)
    | e => throw e

end Config

end Shebang
