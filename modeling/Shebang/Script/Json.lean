import Shebang.Json
import Shebang.Script

/-!
Scripts as JSON.
-/

namespace Shebang

def Span.toJson (s : Span) : Json :=
  .object [("start", .ofNat s.start), ("end", .ofNat s.stop)]

def ShebangLine.toJson (s : ShebangLine) : Json :=
  .object [
    ("form", .string s.form.name),
    ("span", s.span.toJson),
    ("path_prefix", .string s.pathPrefix),
    ("launcher_flags", .strings s.launcherFlags),
    ("interpreter", .string s.interpreterToken),
    ("interpreter_name", .string s.interpreter.name),
    ("arguments", match s.arguments with
      | none => .null
      | some a => .string a)]

namespace Script

def nodeJson (s : Script) (n : Node) : Json :=
  .object [
    ("kind", .string n.kind.name),
    ("span", n.span.toJson),
    ("text", .string (s.textOf n))]

def toJson (s : Script) (path : Option Text) (includeNodes : Bool) : Json :=
  let label : List (Text × Json) :=
    match path with
    | none => []
    | some p => [("path", .string p)]
  let parts : List (Text × Json) := [
    ("shebang", match s.shebang with
      | none => .null
      | some line => line.toJson),
    ("injection_tag", .string s.tag.name),
    ("body", s.body.toJson)]
  let nodes : List (Text × Json) :=
    if includeNodes then [("nodes", .array (s.nodes.map s.nodeJson))] else []
  .object (label ++ parts ++ nodes)

end Script

end Shebang
