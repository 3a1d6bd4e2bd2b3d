import Shebang.Markdown
import Shebang.Script.Json
import Shebang.Settings
import Shebang.Terminal.Console
import Shebang.Version

/-!
Reports on recognized scripts: one line for each, JSON in one document or line by line, or Markdown.
-/

namespace Shebang

structure ScanItem where
  label : Text
  script : Script
  deriving DecidableEq, Repr

namespace Report

def dimmed : Terminal.Style := { dim := some true }

def bold : Terminal.Style := { bold := some true }

def tagStyle : Tag → Terminal.Style
  | .none => { color := some .yellow }
  | _ => { color := some .green, bold := some true }

def summaryLine (c : Console) (item : ScanItem) : Text :=
  item.label ++ ": " ++ c.styled (tagStyle item.script.tag) item.script.tag.name ++ "  " ++
    c.styled dimmed ("(" ++ Script.describe item.script.shebang ++ ")")

def nodeLine (s : Script) (n : Node) : Text :=
  "    " ++ Text.padRight 16 n.kind.name ++ " " ++ Text.padRight 12 n.span.display ++ " " ++
    (s.textOf n).quoted

def itemLines (c : Console) (showNodes : Bool) (item : ScanItem) : List Text :=
  summaryLine c item :: if showNodes then item.script.nodes.map (nodeLine item.script) else []

def summaryHeaders : List Text :=
  ["Path", "Form", "Interpreter", "Launcher Flags", "Arguments", "Tag"]

def summaryRow (item : ScanItem) : List Text :=
  let fields : List Text :=
    match item.script.shebang with
    | none => ["", "", "", ""]
    | some s => [
        s.form.name,
        Markdown.codeSpan (Markdown.escapeCell s.interpreterToken),
        Markdown.escapeCell (Text.joinWith " " s.launcherFlags),
        Markdown.escapeCell (s.arguments.getD [])]
  Markdown.codeSpan (Markdown.escapeCell item.label) :: fields ++
    [Markdown.strong item.script.tag.name]

def nodeHeaders : List Text := ["Node", "Span", "Text"]

def nodeRow (s : Script) (n : Node) : List Text := [
  Markdown.codeSpan n.kind.name,
  n.span.display,
  Markdown.codeSpan (Markdown.escapeCell (s.textOf n).quoted)]

def nodeTable (item : ScanItem) : List Text := [
  "## " ++ Markdown.codeSpan item.label ++ "\n",
  Markdown.table nodeHeaders (item.script.nodes.map (nodeRow item.script))]

def metaField : Text × Json :=
  ("meta", .object [("tool", .string toolName), ("version", .string version)])

def itemJson (showNodes : Bool) (item : ScanItem) : Json :=
  item.script.toJson (some item.label) showNodes

def documentLayout : Json.Layout := .indented 2

/-- The texts of a report, each of which is printed with a line feed. -/
def scan (c : Console) (format : OutputFormat) (showNodes : Bool) (items : List ScanItem) :
    List Text :=
  match format with
  | .json =>
    [(Json.object [metaField, ("results", .array (items.map (itemJson showNodes)))]).render
      documentLayout]
  | .ndjson => items.map fun item => (itemJson showNodes item).render .oneLine
  | .markdown =>
    "# ShebangScan Results\n" :: Markdown.table summaryHeaders (items.map summaryRow) ::
      (if showNodes then items.flatMap nodeTable else [])
  | .default => items.flatMap (itemLines c showNodes)

end Report

end Shebang
