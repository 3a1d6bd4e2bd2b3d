import Shebang.Config.Source
import Shebang.Proofs.Layers
import Shebang.Toml.Document

/-!
The layers of a run. They lie in the order in which their sources are named, and a configuration
that is loaded is made of them and the built-in languages.
-/

namespace Shebang.Config

open Attempt (bind_eq_ok mapError_eq_ok)

variable {fs : FileSystem} {toml : Toml.Parser} {path : Path} {mode : Collation}
  {d d' layer : Draft}

def ToolTable (data own : Table) : Prop :=
  ∃ tools, data.find? "tool" = some (.table tools) ∧
    OrderedMap.find? "shebangscan" tools = some (.table own)

theorem toolTable?_eq_some {data own : Table} :
    toolTable? data = some own ↔ ToolTable data own := by
  constructor
  · intro h
    rw [toolTable?] at h
    split at h
    next tools ht =>
      split at h
      next found hs => exact ⟨tools, ht, Option.some.inj h ▸ hs⟩
      next => cases h
    next => cases h
  · rintro ⟨tools, ht, hs⟩
    rw [toolTable?, ht]
    simp only [hs]

/-- What a file contributes: a layer, or none if it is a project file without a section for this
tool. -/
inductive Contribution (fs : FileSystem) (toml : Toml.Parser) (path : Path) :
    Option Draft → Prop where
  | whole {data : Table} {layer : Draft} : path.name ≠ projectFileName →
      (loadTable fs toml path).outcome = .ok data →
      Draft.ofTable data (some path) = .ok layer → Contribution fs toml path (some layer)
  | part {data own : Table} {layer : Draft} : path.name = projectFileName →
      (loadTable fs toml path).outcome = .ok data → ToolTable data own →
      Draft.ofTable own (some path) = .ok layer → Contribution fs toml path (some layer)
  | nothing {data : Table} : path.name = projectFileName →
      (loadTable fs toml path).outcome = .ok data → (∀ own, ¬ToolTable data own) →
      Contribution fs toml path none

/-- The layers of a list of files, each with its file. -/
inductive Stack (fs : FileSystem) (toml : Toml.Parser) :
    List Path → List (Path × Draft) → Prop where
  | empty : Stack fs toml [] []
  | layer {path layer files stack} : Contribution fs toml path (some layer) →
      Stack fs toml files stack → Stack fs toml (path :: files) ((path, layer) :: stack)
  | skip {path files stack} : Contribution fs toml path none → Stack fs toml files stack →
      Stack fs toml (path :: files) stack

theorem Stack.append {files files' : List Path} {stack stack' : List (Path × Draft)}
    (h : Stack fs toml files stack) (h' : Stack fs toml files' stack') :
    Stack fs toml (files ++ files') (stack ++ stack') := by
  induction h with
  | empty => exact h'
  | layer hc _ ih => exact .layer hc ih
  | skip hc _ ih => exact .skip hc ih

theorem Contribution.tidy (h : Contribution fs toml path (some layer)) :
    layer.Tidy ∧ layer.configFiles = [path] := by
  cases h with
  | whole _ _ hl => exact Draft.ofTable_tidy hl
  | part _ _ _ hl => exact Draft.ofTable_tidy hl

theorem Stack.tidy {files : List Path} {stack : List (Path × Draft)}
    (h : Stack fs toml files stack) : ∀ layer ∈ stack.map Prod.snd, layer.Tidy := by
  induction h with
  | empty => exact fun layer hm => nomatch hm
  | layer hc _ ih => exact List.forall_mem_cons.mpr ⟨hc.tidy.1, ih⟩
  | skip _ _ ih => exact ih

theorem Stack.configFiles {files : List Path} {stack : List (Path × Draft)}
    (h : Stack fs toml files stack) :
    (stack.map Prod.snd).flatMap (·.configFiles) = stack.map Prod.fst := by
  induction h with
  | empty => rfl
  | layer hc _ ih =>
    rw [List.map_cons, List.flatMap_cons, ih, hc.tidy.2]
    rfl
  | skip _ _ ih => exact ih

theorem extractTable_value (path : Path) (data : Table) :
    (extractTable path data).value =
      if path.name = projectFileName then toolTable? data else some data := by
  rw [extractTable]
  by_cases hp : path.name = projectFileName
  · rw [if_pos hp, if_pos hp]
    cases toolTable? data <;> rfl
  · rw [if_neg hp, if_neg hp]
    rfl

theorem loadLayer_contribution {found : Option Draft}
    (h : (loadLayer fs toml path).outcome = .ok found) : Contribution fs toml path found := by
  simp only [loadLayer, Attempt.outcome_bind, Attempt.outcome_note, Attempt.ok_bind,
    Attempt.outcome_lift, extractTable_value] at h
  obtain ⟨data, hd, h⟩ := bind_eq_ok.mp h
  cases ht : (if path.name = projectFileName then toolTable? data else some data) with
  | none =>
    rw [ht] at h
    obtain rfl := Except.ok.inj h
    have hp : path.name = projectFileName := by
      by_contra hp
      rw [if_neg hp] at ht
      cases ht
    rw [if_pos hp] at ht
    refine .nothing hp hd fun own hown => ?_
    rw [toolTable?_eq_some.mpr hown] at ht
    cases ht
  | some own =>
    rw [ht] at h
    cases hl : Draft.ofTable own (some path) with
    | error e => simp [hl] at h
    | ok layer =>
      simp only [hl, Attempt.outcome_pure] at h
      obtain rfl := Except.ok.inj h
      by_cases hp : path.name = projectFileName
      · rw [if_pos hp] at ht
        exact .part hp hd (toolTable?_eq_some.mp ht) hl
      · rw [if_neg hp] at ht
        exact .whole hp hd (Option.some.inj ht ▸ hl)

theorem addFile_contribution (h : (addFile fs toml mode d path).outcome = .ok d') :
    (Contribution fs toml path none ∧ d' = d) ∨
      ∃ layer, Contribution fs toml path (some layer) ∧ d' = d.mergeWith layer mode := by
  rw [addFile, Attempt.outcome_bind] at h
  obtain ⟨found, hf, h⟩ := bind_eq_ok.mp h
  have hc := loadLayer_contribution hf
  cases found with
  | none => exact .inl ⟨hc, (Except.ok.inj h).symm⟩
  | some layer => exact .inr ⟨layer, hc, (Except.ok.inj h).symm⟩

theorem addExtra_addFile (h : (addExtra fs toml mode d path).outcome = .ok d') :
    (addFile fs toml mode d path).outcome = .ok d' := by
  rw [addExtra] at h
  cases hf : fs.isFile path with
  | error e => simp [hf] at h
  | ok found =>
    cases found with
    | false => simp [hf, fail] at h
    | true => simpa only [hf] using h

theorem foldlM_stack {add : Draft → Path → Attempt LoadError Draft}
    (hadd : ∀ d path d', (add d path).outcome = .ok d' →
      (addFile fs toml mode d path).outcome = .ok d')
    {files : List Path} (h : (files.foldlM add d).outcome = .ok d') :
    ∃ stack, Stack fs toml files stack ∧
      d' = (stack.map Prod.snd).foldl (·.mergeWith · mode) d := by
  rw [Attempt.outcome_foldlM] at h
  induction files generalizing d with
  | nil => exact ⟨[], .empty, (Except.ok.inj h).symm⟩
  | cons path files ih =>
    obtain ⟨next, hnext, hrest⟩ := bind_eq_ok.mp h
    obtain ⟨stack, hs, rfl⟩ := ih hrest
    rcases addFile_contribution (hadd d path next hnext) with ⟨hc, rfl⟩ | ⟨layer, hc, rfl⟩
    · exact ⟨stack, .skip hc hs, rfl⟩
    · exact ⟨(path, layer) :: stack, .layer hc hs, rfl⟩

def Sources.candidates (sources : Sources) : List Path :=
  match sources.directory with
  | none => []
  | some (.error _) => []
  | some (.ok directory) => [directory.join projectFileName, directory.join toolFileName]

/-- The files that are read: those that are found, then those that are named. -/
def Sources.files (fs : FileSystem) (sources : Sources) : List Path :=
  sources.candidates.filter (fun path => fs.isFile path = .ok true) ++ sources.extras

theorem discover_found {directory : Path} {found : List Path}
    (h : (discover fs directory).outcome = .ok found) :
    found = [directory.join projectFileName, directory.join toolFileName].filter
      (fun path => fs.isFile path = .ok true) := by
  have hlift : ∀ x : Except OpenError Bool,
      (discover.liftExcept x : Attempt OpenError Bool).outcome = x := fun _ => rfl
  simp only [discover, List.filterM, List.filterAuxM, Attempt.outcome_bind, Attempt.outcome_note,
    Attempt.outcome_pure, hlift] at h
  cases hp : fs.isFile (directory.join projectFileName) with
  | error e => simp [hp] at h
  | ok project =>
    cases ht : fs.isFile (directory.join toolFileName) with
    | error e => simp [hp, ht] at h
    | ok tool =>
      simp only [hp, ht, Attempt.ok_bind] at h
      cases project <;> cases tool <;> simpa [hp, ht] using h.symm

theorem loadMerged_outcome (fs : FileSystem) (toml : Toml.Parser) (sources : Sources) :
    (loadMerged fs toml sources).outcome =
      (match sources.directory with
        | none => .ok []
        | some (.error why) => .error (.nowhere why)
        | some (.ok directory) => (discover fs directory).outcome.mapError .notOpened) >>=
        fun found =>
      (found.foldlM (addFile fs toml sources.collation) Draft.defaults).outcome >>= fun lower =>
      (sources.extras.foldlM (addExtra fs toml sources.collation) lower).outcome := by
  have hok : ∀ x : Except LoadError Draft, (x >>= fun d => .ok d) = x := by
    rintro (e | d) <;> rfl
  rw [loadMerged]
  rcases sources.directory with _ | why | directory <;>
    simp only [Attempt.outcome_bind, Attempt.outcome_note, Attempt.outcome_pure,
      Attempt.outcome_throw, Attempt.outcome_adapt, Attempt.ok_bind, hok]

theorem loadMerged_files {sources : Sources} (h : (loadMerged fs toml sources).outcome = .ok d) :
    ∃ found lower, sources.files fs = found ++ sources.extras ∧
      (found.foldlM (addFile fs toml sources.collation) Draft.defaults).outcome = .ok lower ∧
      (sources.extras.foldlM (addExtra fs toml sources.collation) lower).outcome = .ok d := by
  rw [loadMerged_outcome] at h
  obtain ⟨found, hfound, h⟩ := bind_eq_ok.mp h
  obtain ⟨lower, hlower, hupper⟩ := bind_eq_ok.mp h
  refine ⟨found, lower, ?_, hlower, hupper⟩
  rw [Sources.files, Sources.candidates]
  cases hd : sources.directory with
  | none =>
    rw [hd] at hfound
    obtain rfl := Except.ok.inj hfound
    rfl
  | some searched =>
    rw [hd] at hfound
    cases searched with
    | error why => cases hfound
    | ok directory => rw [discover_found (mapError_eq_ok.mp hfound)]

/-- A configuration that is loaded is made of the built-in languages and the layers of its
sources. -/
theorem loadMerged_layered {sources : Sources} (h : (loadMerged fs toml sources).outcome = .ok d) :
    ∃ stack, Stack fs toml (sources.files fs) stack ∧
      Draft.Layered sources.collation (Draft.defaults :: stack.map Prod.snd) d ∧
      d.configFiles = stack.map Prod.fst := by
  obtain ⟨found, lower, hfiles, hlower, hupper⟩ := loadMerged_files h
  obtain ⟨below, hbelow, rfl⟩ := foldlM_stack (fun _ _ _ h => h) hlower
  obtain ⟨above, habove, rfl⟩ := foldlM_stack (fun _ _ _ h => addExtra_addFile h) hupper
  have hstack : Stack fs toml (sources.files fs) (below ++ above) := hfiles ▸ hbelow.append habove
  have hbase : Draft.Layered sources.collation [Draft.defaults] Draft.defaults :=
    Draft.defaults_tidy.layered
  have hlayered := hbase.foldl hstack.tidy
  rw [List.map_append, List.foldl_append, ← List.map_append, List.singleton_append] at hlayered
  refine ⟨below ++ above, hstack, hlayered, ?_⟩
  rw [hlayered.configFiles, List.flatMap_cons, hstack.configFiles]
  rfl

def threeFiles : FileSystem where
  lookup path :=
    if path = projectFileName then
      .regular (Utf8.encode "[tool.shebangscan.languages.zsh]\nextensions = ['z']\n")
    else if path = toolFileName then
      .regular (Utf8.encode "[languages.fish]\ndescription = 'Fish'\n")
    else if path = "extra.toml" then
      .regular (Utf8.encode "[languages.fish]\nextensions = ['.fish']\n")
    else .refused .noEntry

def threeSources : Sources := ⟨some (.ok (.ofText ".")), [.ofText "extra.toml"], .merge⟩

def threeLayers : Draft where
  languages := [
    ("bash", ⟨"bash", ["bash", "sh"], "Bash scripts (*.bash, *.sh)"⟩),
    ("zsh", ⟨"zsh", ["zsh", "sh", "z"], "Zsh scripts (*.zsh, *.sh)"⟩),
    ("fish", ⟨"fish", ["fish"], "Fish"⟩)]
  setKeys := [("bash", .all), ("zsh", .all), ("fish", .all)]
  configFiles := [.ofText "pyproject.toml", .ofText "shebangscan.toml", .ofText "extra.toml"]

theorem loadMerged_threeLayers :
    (loadMerged threeFiles Toml.parse threeSources).outcome.toOption = some threeLayers ∧
    ∃ stack, Stack threeFiles Toml.parse (threeSources.files threeFiles) stack ∧
      Draft.Layered threeSources.collation (Draft.defaults :: stack.map Prod.snd) threeLayers ∧
      threeLayers.configFiles = stack.map Prod.fst := by
  have h : (loadMerged threeFiles Toml.parse threeSources).outcome.toOption = some threeLayers := by
    decide +kernel
  refine ⟨h, loadMerged_layered ?_⟩
  cases ho : (loadMerged threeFiles Toml.parse threeSources).outcome with
  | error e =>
    rw [ho] at h
    cases h
  | ok d =>
    rw [ho] at h
    exact congrArg Except.ok (Option.some.inj h)

end Shebang.Config
