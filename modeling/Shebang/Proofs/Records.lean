import Shebang.Proofs.JsonReader
import Shebang.Proofs.Partition
import Shebang.Proofs.Stripping
import Shebang.Report.Scan

/-!
What another program learns from a report on scripts that it reads as JSON. The records that it
decodes tell the label, the tag, the bounds of the body and the text of every node, and from the
texts of the nodes it has the script again.
-/

namespace Shebang

namespace Json

variable {l : Layout} {j : Json}

def text? : Json → Option Text
  | .string t => some t
  | _ => none

def span? (j : Json) : Option Span :=
  match j.field? "start", j.field? "end" with
  | some (.number (.ofNat start)), some (.number (.ofNat stop)) => some ⟨start, stop⟩
  | _, _ => none

def textAt? (names : List Text) (j : Json) : Option Text := (j.at? names).bind text?

def spanAt? (names : List Text) (j : Json) : Option Span := (j.at? names).bind span?

end Json

def tagNamed : Option Text → Text
  | some t => if t = "bash" ∨ t = "zsh" then t else "none"
  | none => "none"

/-- The nodes of a record: each is the text in its span, and those below the shebang line make up
the text. -/
structure NodesOf (text : Text) (nodes : List Json) : Prop where
  span : ∀ node ∈ nodes, ∃ s, node.spanAt? ["span"] = some s ∧
    node.textAt? ["text"] = some (s.text text)
  text : (nodes.filter fun node => node.textAt? ["kind"] ≠ some ("shebang_line" : Text)).flatMap
    (fun node => (node.textAt? ["text"]).getD []) = text

/-- A record tells the truth about a text under a label. -/
structure RecordOf (label text : Text) (record : Json) : Prop where
  path : record.textAt? ["path"] = some label
  tag : record.textAt? ["injection_tag"] =
    some (tagNamed (record.textAt? ["shebang", "interpreter"]))
  body : ∃ start, record.spanAt? ["body"] = some ⟨start, text.length⟩ ∧
    (record.at? ["shebang"] = some .null ↔ start = 0) ∧
    (start ≠ 0 → record.spanAt? ["shebang", "span"] = some ⟨0, start⟩)
  nodes : ∃ nodes, record.at? ["nodes"] = some (.array nodes) ∧ NodesOf text nodes

section Records

variable {label text : Text}

theorem nodeJson_kind (s : Script) (n : Node) :
    (s.nodeJson n).textAt? ["kind"] = some n.kind.name := rfl

theorem nodeJson_span (s : Script) (n : Node) : (s.nodeJson n).spanAt? ["span"] = some n.span := rfl

theorem nodeJson_text (s : Script) (n : Node) :
    (s.nodeJson n).textAt? ["text"] = some (s.textOf n) := rfl

theorem name_shebangLine (k : NodeKind) : k.name = ("shebang_line" : Text) ↔ k = .shebangLine := by
  cases k <;> decide

theorem nodesOf_recognized (text : Text) :
    NodesOf text ((recognize text).nodes.map (recognize text).nodeJson) where
  span := by
    intro node hnode
    obtain ⟨n, -, rfl⟩ := List.mem_map.mp hnode
    exact ⟨n.span, nodeJson_span _ n, nodeJson_text _ n⟩
  text := by
    have hleaf : ∀ n : Node, (((recognize text).nodeJson n).textAt? ["kind"] ≠
        some ("shebang_line" : Text)) ↔ n.kind ≠ .shebangLine := by
      intro n
      rw [nodeJson_kind, ne_eq, Option.some_inj, name_shebangLine]
    rw [List.filter_map, List.flatMap_map]
    simp only [Function.comp_def, hleaf, nodeJson_text, Option.getD_some]
    exact leaves_text text

theorem tag_name (token : Text) : (Interpreter.ofToken token).tag.name = tagNamed (some token) := by
  by_cases hb : token = "bash"
  · rw [hb]
    rfl
  · by_cases hz : token = "zsh"
    · rw [hz]
      rfl
    · rw [Interpreter.ofToken, if_neg hb, if_neg hz, tagNamed, if_neg (not_or.mpr ⟨hb, hz⟩)]
      rfl

theorem recordOf_recognized (label text : Text) :
    RecordOf label text (Report.itemJson true ⟨label, recognize text⟩) where
  path := rfl
  tag := by
    rcases recognize_cases text with ⟨l, body, hl, rfl, hr⟩ | ⟨-, hr⟩
    · rw [hr]
      exact congrArg some (tag_name _)
    · rw [hr]
      rfl
  body := by
    rcases recognize_cases text with ⟨l, body, hl, rfl, hr⟩ | ⟨-, hr⟩
    · rw [hr]
      have hpos : l.render.length ≠ 0 := Nat.ne_of_gt (Nat.zero_lt_succ _)
      exact ⟨l.render.length, rfl, iff_of_false (fun h => nomatch h) hpos, fun _ => rfl⟩
    · rw [hr]
      exact ⟨0, rfl, iff_of_true rfl rfl, fun h => absurd rfl h⟩
  nodes := ⟨_, rfl, nodesOf_recognized text⟩

end Records

def scanOutput (c : Console) (format : OutputFormat) (items : List (Text × Text)) : Text :=
  Emission.outputOf ((Report.scan c format true
    (items.map fun item => ⟨item.1, recognize item.2⟩)).map c.printLine)

def recordOf (item : Text × Text) : Json := Report.itemJson true ⟨item.1, recognize item.2⟩

theorem scanOutput_ndjson (c : Console) (items : List (Text × Text)) : scanOutput c .ndjson items =
    (items.map fun item => (recordOf item).render .oneLine).flatMap (· ++ ['\n']) := by
  have hplain : ∀ t ∈ items.map fun item => (recordOf item).render .oneLine,
      Terminal.escape ∉ t := by
    intro t ht
    obtain ⟨item, -, rfl⟩ := List.mem_map.mp ht
    exact Json.escape_render .oneLine _
  rw [← c.output_plain hplain]
  simp only [scanOutput, Report.scan, List.map_map]
  rfl

def documentOf (records : List Json) : Json :=
  .object [Report.metaField, ("results", .array records)]

theorem scanOutput_json (c : Console) (items : List (Text × Text)) :
    scanOutput c .json items =
      (documentOf (items.map recordOf)).render Report.documentLayout ++ ['\n'] := by
  have hplain : ∀ t ∈ [(documentOf (items.map recordOf)).render Report.documentLayout],
      Terminal.escape ∉ t :=
    List.forall_mem_singleton.mpr (Json.escape_render _ _)
  have h := c.output_plain hplain
  rw [List.flatMap_singleton] at h
  rw [← h]
  simp only [scanOutput, Report.scan, List.map_map]
  rfl

/-- Reports for other programs are framed and lossless: a record for each line and a line for each
item, and in the document the same records. -/
theorem scanOutput_lossless (c : Console) (items : List (Text × Text)) :
    ∃ (lines : List Text) (records : List Json),
      scanOutput c .ndjson items = lines.flatMap (· ++ ['\n']) ∧ (∀ line ∈ lines, '\n' ∉ line) ∧
      lines.map Json.ofText? = records.map some ∧
      List.Forall₂ (fun item record => RecordOf item.1 item.2 record) items records ∧
      ∃ document, Json.ofText? (scanOutput c .json items) = some document ∧
        document.at? ["results"] = some (.array records) := by
  refine ⟨items.map fun item => (recordOf item).render .oneLine, items.map recordOf,
    scanOutput_ndjson c items, ?_, ?_, ?_, documentOf (items.map recordOf), ?_, rfl⟩
  · intro line hline
    obtain ⟨item, -, rfl⟩ := List.mem_map.mp hline
    exact Json.newline_render _
  · rw [List.map_map, List.map_map]
    refine List.map_congr_left fun item _ => ?_
    have h := Json.ofText?_render .oneLine (recordOf item) [] nofun
    rwa [List.append_nil] at h
  · rw [List.forall₂_map_right_iff]
    exact List.forall₂_same.mpr fun item _ => recordOf_recognized item.1 item.2
  · rw [scanOutput_json]
    exact Json.ofText?_render _ _ _ (List.forall_mem_singleton.mpr rfl)

end Shebang
