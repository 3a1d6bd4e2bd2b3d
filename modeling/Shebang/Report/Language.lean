import Shebang.Config.Draft
import Shebang.Report.Scan

/-!
Reports on the languages of files, and on the languages of a configuration.
-/

namespace Shebang

structure DetectedFile where
  label : Text
  language : Language
  deriving DecidableEq, Repr

namespace Report

def detectedJson (f : DetectedFile) : Json :=
  .object [("path", .string f.label), ("language", .string f.language.name)]

def detectedRow (f : DetectedFile) : List Text :=
  [Markdown.codeSpan (Markdown.escapeCell f.label), Markdown.codeSpan f.language.name]

/-- The report on detected files. A quiet run leaves out the plain lines and nothing else. -/
def detected (c : Console) (format : OutputFormat) (verbosity : Int) (files : List DetectedFile) :
    List Text :=
  match format with
  | .json =>
    [(Json.object [metaField, ("results", .array (files.map detectedJson))]).render documentLayout]
  | .ndjson => files.map fun f => (detectedJson f).render .oneLine
  | .markdown =>
    ["# Detected Languages\n", Markdown.table ["Path", "Language"] (files.map detectedRow)]
  | .default =>
    if verbosity < 0 then []
    else files.map fun f => f.label ++ ": " ++ c.styled bold f.language.name

def languageJson (l : Language) : Json :=
  .object [
    ("name", .string l.name),
    ("extensions", .strings l.extensions),
    ("description", .string l.description)]

def dotted (extension : Text) : Text := '.' :: extension

def languageRow (l : Language) : List Text := [
  Markdown.codeSpan l.name,
  Text.joinWith ", " (l.extensions.map fun e => Markdown.codeSpan (dotted e)),
  Markdown.escapeCell l.description]

def heading : Terminal.Style := { bold := some true, underline := some true }

/-- The numbered line of a language; its description is only for verbose runs. -/
def languageLine (c : Console) (verbose : Bool) (width number : Nat) (l : Language) : Text :=
  Text.padLeft 2 (Text.ofNat number) ++ ". " ++ Text.padRight width l.name ++ "  " ++
    Text.joinWith ", " (l.extensions.map dotted) ++
    (if verbose ∧ l.description ≠ [] then "  " ++ c.styled dimmed l.description else [])

def languageLines (c : Console) (verbose : Bool) (languages : List Language) : List Text :=
  let width := (languages.map fun l => l.name.length).foldl max 0
  languages.mapIdx fun i l => languageLine c verbose width (i + 1) l

def configured (c : Console) (format : OutputFormat) (verbosity : Int) (config : Config)
    (languages : List Language) : List Text :=
  match format with
  | .json => [(Json.array (languages.map languageJson)).render documentLayout]
  | .ndjson => languages.map fun l => (languageJson l).render .oneLine
  | .markdown =>
    ["# Languages\n",
      Markdown.table ["Language", "Extensions", "Description"] (languages.map languageRow)]
  | .default =>
    let origin : List Text :=
      if 0 < verbosity then
        c.styled heading "Configured languages:\n" ::
          config.configFiles.map fun p => c.styled dimmed ("  (from " ++ p.display ++ ")")
      else []
    origin ++ languageLines c (0 < verbosity) languages

def versionOf (c : Console) (format : OutputFormat) (verbosity : Int) : List Text :=
  match format with
  | .json => [(Json.object [("version", .string version)]).render .oneLine]
  | .ndjson => [(Json.object [("version", .string version)]).render .oneLine]
  | .markdown =>
    ["# ShebangScan Version\n", Markdown.strong ("ShebangScan version: " ++ version)]
  | .default =>
    if 0 < verbosity then
      [c.styled heading "ShebangScan version:\n", "    " ++ c.styled bold version]
    else [c.styled bold version]

end Report

end Shebang
