import Shebang.CommandLine.Run
import Shebang.Proofs.Files
import Shebang.Proofs.Loading

/-!
Faults of configuration sources. Whatever a file holds, loading it ends in a value or is told as an
error of the configuration, but for faults that nobody deals with: the reader of TOML refuses a
document in a way of its own, the system does not say whether there is a file, or the directory to
be searched is gone. Files are loaded one after another, so the first file at fault decides.
-/

namespace Shebang

namespace Config

open Attempt (bind_eq_ok)

variable {α β : Type} {fs : FileSystem} {toml : Toml.Parser} {path : Path} {mode : Collation}
  {d : Draft}

inductive Told : Except LoadError α → Prop where
  | value (a : α) : Told (.ok a)
  | error (e : ConfigError) : Told (.error (.config e))

/-- The reader of TOML refuses the file with an error that is none of the grammar. -/
def Rejected (fs : FileSystem) (toml : Toml.Parser) (path : Path) : Prop :=
  ∃ bytes text e, fs.read path = .ok bytes ∧ Utf8.decode bytes = .ok text ∧
    toml (unifyLineEnds text) = .error e ∧ ∀ reason, e ≠ .invalid reason

section Told

theorem told_error {e : LoadError} :
    Told (.error e : Except LoadError α) ↔ ∃ cause, e = .config cause := by
  constructor
  · rintro ⟨⟩
    exact ⟨_, rfl⟩
  · rintro ⟨cause, rfl⟩
    exact .error cause

theorem told_bind {x : Except LoadError α} {f : α → Except LoadError β} (hf : ∀ a, Told (f a)) :
    Told (x >>= f) ↔ Told x := by
  cases x with
  | ok a => exact iff_of_true (hf a) (.value a)
  | error e => rw [Attempt.error_bind, told_error, told_error]

/-- Of files that are added one after another, the first that does not load has to be told. -/
theorem told_foldlM {add : Draft → Path → Except LoadError Draft} {loads told : Path → Prop}
    (hloads : ∀ d p, (∃ d', add d p = .ok d') ↔ loads p) (htold : ∀ d p, Told (add d p) ↔ told p)
    (files : List Path) (d : Draft) : Told (files.foldlM add d) ↔
      ∀ before p after, files = before ++ p :: after → (∀ q ∈ before, loads q) → told p := by
  induction files generalizing d with
  | nil =>
    refine iff_of_true (.value d) fun before p after h => ?_
    simp at h
  | cons path files ih =>
    have hpath := htold d path
    have hload := hloads d path
    -- The fault is at the head, or the head loads and belongs to what stands before it.
    rw [List.foldlM_cons]
    cases hp : add d path with
    | error e =>
      rw [hp] at hpath hload
      have hunloaded : ¬ loads path := fun hl => by
        obtain ⟨d', hd'⟩ := hload.mpr hl
        cases hd'
      rw [Attempt.error_bind, told_error, ← told_error (α := Draft), hpath]
      constructor
      · rintro ht (_ | ⟨q, before⟩) p after h hb
        · obtain ⟨rfl, -⟩ := List.cons.inj h
          exact ht
        · obtain ⟨rfl, -⟩ := List.cons.inj h
          exact absurd (hb _ List.mem_cons_self) hunloaded
      · intro h
        exact h [] path files rfl (List.forall_mem_nil _)
    | ok next =>
      rw [hp] at hpath hload
      rw [Attempt.ok_bind, ih next]
      constructor
      · rintro hrest (_ | ⟨q, before⟩) p after h hb
        · obtain ⟨rfl, -⟩ := List.cons.inj h
          exact hpath.mp (.value next)
        · obtain ⟨rfl, hfiles⟩ := List.cons.inj h
          exact hrest before p after hfiles fun q hq => hb q (List.mem_cons_of_mem _ hq)
      · intro h before p after hfiles hb
        refine h (path :: before) p after (by rw [hfiles]; rfl) ?_
        exact List.forall_mem_cons.mpr ⟨hload.mp ⟨next, rfl⟩, hb⟩

end Told

section Load

theorem loadTable_outcome (fs : FileSystem) (toml : Toml.Parser) (path : Path) :
    (loadTable fs toml path).outcome =
      match fs.read path with
      | .error .embeddedNul => .error (.notOpened .embeddedNul)
      | .error (.refused why _) => .error (.config ⟨some path, .unreadable why⟩)
      | .ok bytes =>
        match Utf8.decode bytes with
        | .error _ => .error (.config ⟨some path, .notUtf8⟩)
        | .ok text =>
          match toml (unifyLineEnds text) with
          | .error (.keyTaken key) => .error (.keyTaken key)
          | .error (.other message) => .error (.rejected message)
          | .error (.invalid reason) => .error (.config ⟨some path, .invalidToml reason⟩)
          | .ok data => .ok data := by
  rw [loadTable]
  cases fs.read path with
  | error e => cases e <;> rfl
  | ok bytes =>
    cases hd : Utf8.decode bytes with
    | error e =>
      simp only [hd]
      rfl
    | ok text =>
      simp only [hd]
      cases hp : toml (unifyLineEnds text) with
      | error e => cases e <;> rfl
      | ok data => rfl

theorem loadTable_told : ((∃ data, (loadTable fs toml path).outcome = .ok data) ∨
      ∃ problem, (loadTable fs toml path).outcome = .error (.config ⟨some path, problem⟩)) ↔
    '\x00' ∉ path.display ∧ ¬ Rejected fs toml path := by
  have hnul : '\x00' ∉ path.display ↔ fs.read path ≠ .error .embeddedNul := not_congr read_nul.symm
  rw [loadTable_outcome, hnul, Rejected]
  cases fs.read path with
  | error e => cases e <;> simp
  | ok bytes =>
    cases hd : Utf8.decode bytes with
    | error e => simp [hd]
    | ok text =>
      cases hp : toml (unifyLineEnds text) with
      | error e => cases e <;> simp [hd, hp]
      | ok data => simp [hd, hp]

theorem loadTable_path {cause : ConfigError}
    (h : (loadTable fs toml path).outcome = .error (.config cause)) :
    ∃ problem, cause = ⟨some path, problem⟩ := by
  rw [loadTable_outcome] at h
  split at h
  · cases h
  · cases h
    exact ⟨_, rfl⟩
  · split at h
    · cases h
      exact ⟨_, rfl⟩
    · split at h
      · cases h
      · cases h
      · cases h
        exact ⟨_, rfl⟩
      · cases h

theorem told_loadTable :
    Told (loadTable fs toml path).outcome ↔ '\x00' ∉ path.display ∧ ¬ Rejected fs toml path := by
  rw [← loadTable_told]
  constructor
  · intro h
    cases ho : (loadTable fs toml path).outcome with
    | ok data => exact Or.inl ⟨data, rfl⟩
    | error e =>
      rw [ho, told_error] at h
      obtain ⟨cause, rfl⟩ := h
      obtain ⟨problem, rfl⟩ := loadTable_path ho
      exact Or.inr ⟨problem, rfl⟩
  · rintro (⟨data, ho⟩ | ⟨problem, ho⟩)
    · rw [ho]
      exact .value data
    · rw [ho]
      exact .error _

theorem told_loadLayer :
    Told (loadLayer fs toml path).outcome ↔ '\x00' ∉ path.display ∧ ¬ Rejected fs toml path := by
  rw [← told_loadTable]
  simp only [loadLayer, Attempt.outcome_bind, Attempt.outcome_note, Attempt.ok_bind,
    Attempt.outcome_lift, extractTable_value]
  refine told_bind fun data => ?_
  cases (if path.name = projectFileName then toolTable? data else some data) with
  | none => exact .value _
  | some own =>
    cases hl : Draft.ofTable own (some path) with
    | error e =>
      simp only [hl]
      exact .error e
    | ok layer =>
      simp only [hl]
      exact .value _

theorem told_addFile :
    Told (addFile fs toml mode d path).outcome ↔
      '\x00' ∉ path.display ∧ ¬ Rejected fs toml path := by
  rw [← told_loadLayer, addFile, Attempt.outcome_bind]
  refine told_bind fun found => ?_
  cases found with
  | none => exact .value _
  | some layer => exact .value _

theorem addExtra_of_isFile (h : fs.isFile path = .ok true) :
    addExtra fs toml mode d path = addFile fs toml mode d path := by
  rw [addExtra, h]

theorem Rejected.isFile (h : Rejected fs toml path) : fs.isFile path = .ok true := by
  obtain ⟨bytes, -, -, hr, -⟩ := h
  exact isFile_of_read hr

theorem told_addExtra :
    Told (addExtra fs toml mode d path).outcome ↔
      ¬ Unanswered fs path ∧ ¬ Rejected fs toml path := by
  cases hf : fs.isFile path with
  | error e =>
    have hanswer : Unanswered fs path := isFile_eq_error.mp ⟨e, hf⟩
    rw [addExtra, hf, Attempt.outcome_throw, told_error]
    refine iff_of_false ?_ fun h => h.1 hanswer
    rintro ⟨cause, h⟩
    cases h
  | ok found =>
    have hanswer : ¬ Unanswered fs path := by
      rw [← isFile_eq_error, hf]
      rintro ⟨e, h⟩
      cases h
    cases found with
    | false =>
      have hread : ¬ Rejected fs toml path := by
        intro h
        rw [h.isFile] at hf
        cases hf
      rw [addExtra, hf]
      exact iff_of_true (.error _) ⟨hanswer, hread⟩
    | true =>
      rw [addExtra_of_isFile hf, told_addFile]
      exact and_congr_left' (iff_of_true (display_of_isFile hf) hanswer)

theorem isFile_of_loadTable {data : Table} (h : (loadTable fs toml path).outcome = .ok data) :
    fs.isFile path = .ok true := by
  rw [loadTable_outcome] at h
  cases hr : fs.read path with
  | ok bytes => exact isFile_of_read hr
  | error e => cases e <;> simp [hr] at h

theorem Contribution.isFile {found : Option Draft} (h : Contribution fs toml path found) :
    fs.isFile path = .ok true := by
  cases h with
  | whole _ hd _ => exact isFile_of_loadTable hd
  | part _ hd _ _ => exact isFile_of_loadTable hd
  | nothing _ hd _ => exact isFile_of_loadTable hd

theorem loadLayer_of_contribution {found : Option Draft} (h : Contribution fs toml path found) :
    (loadLayer fs toml path).outcome = .ok found := by
  simp only [loadLayer, Attempt.outcome_bind, Attempt.outcome_note, Attempt.ok_bind,
    Attempt.outcome_lift, extractTable_value]
  cases h with
  | whole hp hd hl => simp [hd, hp, hl]
  | part hp hd ht hl => simp [hd, hp, toolTable?_eq_some.mpr ht, hl]
  | nothing hp hd ht =>
    have hnone : toolTable? _ = none := Option.eq_none_iff_forall_ne_some.mpr fun own hown =>
      ht own (toolTable?_eq_some.mp hown)
    simp [hd, hp, hnone]

theorem addExtra_of_contribution {found : Option Draft} (h : Contribution fs toml path found)
    (mode : Collation) (d : Draft) :
    (addExtra fs toml mode d path).outcome = .ok (found.elim d (d.mergeWith · mode)) := by
  rw [addExtra_of_isFile h.isFile, addFile, Attempt.outcome_bind, loadLayer_of_contribution h]
  cases found with
  | none => rfl
  | some layer => rfl

theorem addExtra_loads : (∃ d', (addExtra fs toml mode d path).outcome = .ok d') ↔
    ∃ found, Contribution fs toml path found := by
  constructor
  · rintro ⟨d', h⟩
    rcases addFile_contribution (addExtra_addFile h) with ⟨hc, -⟩ | ⟨layer, hc, -⟩
    · exact ⟨none, hc⟩
    · exact ⟨some layer, hc⟩
  · rintro ⟨found, hc⟩
    exact ⟨_, addExtra_of_contribution hc mode d⟩

end Load

section Run

variable {sources : Sources}

/-- The directory that is searched is there, the system answers for the files that are looked for in
it, and it answers for the first file that does not load, which is none that the reader of TOML
refuses in a way of its own. -/
structure Handled (fs : FileSystem) (toml : Toml.Parser) (sources : Sources) : Prop where
  directory : ∀ why, sources.directory ≠ some (.error why)
  candidates : ∀ path ∈ sources.candidates, ¬ Unanswered fs path
  first : ∀ before path after, sources.files fs = before ++ path :: after →
    (∀ q ∈ before, ∃ found, Contribution fs toml q found) →
    ¬ Unanswered fs path ∧ ¬ Rejected fs toml path

theorem discover_told {directory : Path} :
    Told ((discover fs directory).outcome.mapError LoadError.notOpened) ↔
      ¬ Unanswered fs (directory.join projectFileName) ∧
        ¬ Unanswered fs (directory.join toolFileName) := by
  have hlift : ∀ x : Except OpenError Bool,
      (discover.liftExcept x : Attempt OpenError Bool).outcome = x := fun _ => rfl
  simp only [discover, List.filterM, List.filterAuxM, Attempt.outcome_bind, Attempt.outcome_note,
    Attempt.outcome_pure, hlift, ← isFile_eq_error]
  cases fs.isFile (directory.join projectFileName) with
  | error e => simp [told_error]
  | ok project =>
    cases fs.isFile (directory.join toolFileName) with
    | error e => simp [told_error]
    | ok tool =>
      simp only [reduceCtorEq, exists_false, not_false_eq_true, and_true, iff_true]
      exact .value _

def searched (fs : FileSystem) (sources : Sources) : Except LoadError (List Path) :=
  match sources.directory with
  | none => .ok []
  | some (.error why) => .error (.nowhere why)
  | some (.ok directory) => (discover fs directory).outcome.mapError .notOpened

theorem told_searched : Told (searched fs sources) ↔
    (∀ why, sources.directory ≠ some (.error why)) ∧
      ∀ path ∈ sources.candidates, ¬ Unanswered fs path := by
  rw [searched, Sources.candidates]
  rcases sources.directory with _ | why | directory
  · exact iff_of_true (.value _) (by simp)
  · simp [told_error]
  · rw [discover_told]
    simp

theorem searched_cases (fs : FileSystem) (sources : Sources) :
    (∃ found, searched fs sources = .ok found ∧ sources.files fs = found ++ sources.extras ∧
      ∀ path ∈ found, fs.isFile path = .ok true) ∨
    ∃ e, searched fs sources = .error e ∧ ∀ cause, e ≠ .config cause := by
  rw [searched, Sources.files, Sources.candidates]
  rcases sources.directory with _ | why | directory
  · exact Or.inl ⟨[], rfl, rfl, List.forall_mem_nil _⟩
  · exact Or.inr ⟨_, rfl, fun _ h => by cases h⟩
  · cases hd : (discover fs directory).outcome with
    | error cause =>
      exact Or.inr ⟨.notOpened cause, congrArg (·.mapError LoadError.notOpened) hd,
        fun _ h => by cases h⟩
    | ok found =>
      refine Or.inl ⟨found, congrArg (·.mapError LoadError.notOpened) hd,
        by rw [discover_found hd], fun path hp => ?_⟩
      rw [discover_found hd, List.mem_filter] at hp
      exact of_decide_eq_true hp.2

theorem foldlM_found {found : List Path} (h : ∀ path ∈ found, fs.isFile path = .ok true)
    (d : Draft) : found.foldlM (fun d path => (addFile fs toml mode d path).outcome) d =
      found.foldlM (fun d path => (addExtra fs toml mode d path).outcome) d := by
  induction found generalizing d with
  | nil => rfl
  | cons path found ih =>
    obtain ⟨hpath, hfound⟩ := List.forall_mem_cons.mp h
    rw [List.foldlM_cons, List.foldlM_cons, addExtra_of_isFile hpath]
    exact bind_congr fun next => ih hfound next

theorem loadMerged_unsearched {e : LoadError} (hs : searched fs sources = .error e) :
    (loadMerged fs toml sources).outcome = .error e := by
  rw [loadMerged_outcome]
  change searched fs sources >>= _ = _
  rw [hs]
  rfl

theorem loadMerged_searched {found : List Path} (hs : searched fs sources = .ok found)
    (hfound : ∀ path ∈ found, fs.isFile path = .ok true) :
    (loadMerged fs toml sources).outcome = (found ++ sources.extras).foldlM
      (fun d path => (addExtra fs toml sources.collation d path).outcome) Draft.defaults := by
  have hrun : (loadMerged fs toml sources).outcome = searched fs sources >>= fun found =>
      found.foldlM (fun d path => (addFile fs toml sources.collation d path).outcome)
        Draft.defaults >>=
      sources.extras.foldlM fun d path => (addExtra fs toml sources.collation d path).outcome := by
    rw [loadMerged_outcome]
    simp only [Attempt.outcome_foldlM]
    rfl
  rw [hrun, hs, Attempt.ok_bind, foldlM_found hfound, ← List.foldlM_append]

theorem told_loadMerged : Told (loadMerged fs toml sources).outcome ↔ Handled fs toml sources := by
  rcases searched_cases fs sources with ⟨found, hs, hfiles, hfound⟩ | ⟨e, hs, he⟩
  · have hsearched : (∀ why, sources.directory ≠ some (.error why)) ∧
        ∀ path ∈ sources.candidates, ¬ Unanswered fs path := by
      rw [← told_searched, hs]
      exact .value found
    have hloads : ∀ d path, (∃ d', (addExtra fs toml sources.collation d path).outcome = .ok d') ↔
        ∃ layer, Contribution fs toml path layer := fun _ _ => addExtra_loads
    have htold : ∀ d path, Told (addExtra fs toml sources.collation d path).outcome ↔
        ¬ Unanswered fs path ∧ ¬ Rejected fs toml path := fun _ _ => told_addExtra
    rw [loadMerged_searched hs hfound, ← hfiles, told_foldlM hloads htold]
    constructor
    · intro h
      exact ⟨hsearched.1, hsearched.2, h⟩
    · intro h
      exact h.first
  · have huntold : ¬ ∃ cause, e = .config cause := fun ⟨cause, hc⟩ => he cause hc
    have hunhandled : ¬ Handled fs toml sources := by
      intro h
      have ht := told_searched.mpr ⟨h.directory, h.candidates⟩
      rw [hs, told_error] at ht
      exact huntold ht
    rw [loadMerged_unsearched hs, told_error]
    exact iff_of_false huntold hunhandled

theorem resolve_outcome (fs : FileSystem) (toml : Toml.Parser) (sources : Sources) :
    (resolve fs toml sources).outcome = (loadMerged fs toml sources).outcome.map Draft.freeze := by
  rw [resolve, Attempt.outcome_tryCatch, Attempt.outcome_map]
  cases (loadMerged fs toml sources).outcome with
  | ok d => rfl
  | error e => cases e <;> rfl

end Run

end Config

namespace CommandLine

open Config (Told Handled told_loadMerged told_error)

def requested (w : World) (values : OptionValues) : Config.Sources where
  directory := if values.noConfig then none else some w.workingDirectory
  extras := values.configFiles.map Path.ofText
  collation := if values.mergeConfig then .merge else .revise

variable {w : World} {s : Session} {values : OptionValues}

theorem attempt_value {ε α : Type} (s : Session) (x : Attempt ε α) :
    (ExceptT.run (s.attempt x)).value = .ok x.outcome := rfl

theorem attempt_log {ε α : Type} (s : Session) (x : Attempt ε α) :
    (ExceptT.run (s.attempt x)).log = x.log.flatMap s.logLines := by
  change (x.log.flatMap s.logLines ++ []) ++ [] = x.log.flatMap s.logLines
  simp

theorem loadConfig_value (w : World) (s : Session) (values : OptionValues) :
    (ExceptT.run (loadConfig w s values)).value =
      match (Config.resolve w.files w.toml (requested w values)).outcome with
      | .ok config => .ok config
      | .error (.config _) => .error (.exit 78)
      | .error e => .error (.fault (.load e)) := by
  rw [loadConfig, ExceptT.run_bind, Recorded.value_bind, attempt_value, ← requested]
  cases (Config.resolve w.files w.toml (requested w values)).outcome with
  | ok config => rfl
  | error e => cases e <;> rfl

theorem loadConfig_log {cause : ConfigError}
    (h : (Config.resolve w.files w.toml (requested w values)).outcome = .error (.config cause)) :
    (ExceptT.run (loadConfig w s values)).log =
      (Config.resolve w.files w.toml (requested w values)).log.flatMap s.logLines ++
        [s.console.plainFailure cause.message] := by
  rw [loadConfig, ExceptT.run_bind, Recorded.log_bind, attempt_value, attempt_log, ← requested, h]
  rfl

/-- The run goes on with the configuration that was loaded, or ends with the code of a configuration
error and the text of the one that was told. -/
def Configured (w : World) (s : Session) (values : OptionValues) : Prop :=
  (∃ d, (Config.loadMerged w.files w.toml (requested w values)).outcome = .ok d ∧
    (ExceptT.run (loadConfig w s values)).value = .ok d.freeze) ∨
  ∃ cause written, (Config.loadMerged w.files w.toml (requested w values)).outcome =
      .error (.config cause) ∧
    (ExceptT.run (loadConfig w s values)).value = .error (.exit 78) ∧
    (ExceptT.run (loadConfig w s values)).log =
      written ++ [s.console.plainFailure cause.message]

theorem configured_iff :
    Configured w s values ↔
      Told (Config.loadMerged w.files w.toml (requested w values)).outcome := by
  have hresolve := Config.resolve_outcome w.files w.toml (requested w values)
  have hvalue := loadConfig_value w s values
  constructor
  · rintro (⟨d, hd, -⟩ | ⟨cause, -, hc, -, -⟩)
    · rw [hd]
      exact .value d
    · rw [hc]
      exact .error cause
  · intro h
    cases hm : (Config.loadMerged w.files w.toml (requested w values)).outcome with
    | ok d =>
      rw [hm] at hresolve
      rw [hresolve] at hvalue
      exact Or.inl ⟨d, hm, hvalue⟩
    | error e =>
      rw [hm, told_error] at h
      obtain ⟨cause, rfl⟩ := h
      rw [hm] at hresolve
      rw [hresolve] at hvalue
      exact Or.inr ⟨cause, _, hm, hvalue, loadConfig_log hresolve⟩

/-- Faulty sources are told as such: a table, a draft and the configuration of a run each come about
or end in a configuration error, exactly if the system answers for the paths and the reader of TOML
refuses no document in a way of its own. -/
theorem sources_told_iff (w : World) (s : Session) (values : OptionValues) :
    (∀ path, ((∃ data, (Config.loadTable w.files w.toml path).outcome = .ok data) ∨
        ∃ problem, (Config.loadTable w.files w.toml path).outcome =
          .error (.config ⟨some path, problem⟩)) ↔
      '\x00' ∉ path.display ∧ ¬ Config.Rejected w.files w.toml path) ∧
    (∀ sources,
      Told (Config.loadMerged w.files w.toml sources).outcome ↔ Handled w.files w.toml sources) ∧
    (Configured w s values ↔ Handled w.files w.toml (requested w values)) := by
  refine ⟨fun path => Config.loadTable_told, fun sources => told_loadMerged, ?_⟩
  rw [configured_iff, told_loadMerged]

def repeating : FileSystem := ⟨fun _ => .regular (Utf8.encode "[a]\nb=1\n[a.b]\n")⟩

def unplaced (_ : Diagnostic) : Log.Place := ⟨[], 0, []⟩

def World.ofFiles (files : FileSystem) : World where
  files := files
  toml := Toml.parse
  places := unplaced
  workingDirectory := .ok (.ofText "/w")
  stdin := []
  environment := ⟨none, none, none⟩
  terminal := false

def Session.ofColor (color : Bool) : Session := ⟨0, ⟨color⟩, .ofLevel Log.critical, unplaced⟩

def repeatingWorld : World := .ofFiles repeating

/-- The document is no TOML, and neither its table nor a run of the program ends in a configuration
error. -/
theorem sources_repeating :
    (Config.loadTable repeating Toml.parse (.ofText "a.toml")).outcome = .error (.keyTaken "b") ∧
    (run repeatingWorld ["languages"]).ending = .fault (.load (.keyTaken "b")) ∧
    (run repeatingWorld ["languages"]).ending.code = 1 := by
  have htable :
      (Config.loadTable repeating Toml.parse (.ofText "a.toml")).outcome.map (fun _ => ()) =
      .error (.keyTaken "b") := by decide +kernel
  have hrun : (run repeatingWorld ["languages"]).ending = .fault (.load (.keyTaken "b")) := by
    decide +kernel
  refine ⟨?_, hrun, by rw [hrun]; rfl⟩
  cases ho : (Config.loadTable repeating Toml.parse (.ofText "a.toml")).outcome with
  | ok data =>
    rw [ho] at htable
    cases htable
  | error e =>
    rw [ho] at htable
    exact congrArg Except.error (Except.error.inj htable)

end CommandLine

end Shebang
