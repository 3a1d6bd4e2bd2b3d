import Shebang.Api
import Shebang.Proofs.Surfacing

/-!
Detection with a table on top of the built-in languages. It does not matter whether the table is
given as it is or comes from the one file that is named: both make the same registry, and a table
that is refused is refused for the same reason.
-/

namespace Shebang

open Config (loadTable ToolTable Sources)

variable {fs : FileSystem} {toml : Toml.Parser} {file : Path} {data : Table}

/-- The part of a document that counts: the whole of it, or the section of a project file. -/
def Holds (fs : FileSystem) (toml : Toml.Parser) (file : Path) (data : Table) : Prop :=
  ∃ document, (loadTable fs toml file).outcome = .ok document ∧
    (file.name ≠ projectFileName ∧ document = data ∨
      file.name = projectFileName ∧ ToolTable document data)

def onlyFile (file : Path) : Sources := ⟨none, [file], .revise⟩

namespace Draft

def withFiles (files : List Path) (d : Draft) : Draft := { d with configFiles := files }

def ofData (data : Table) : Except ConfigProblem Draft :=
  languageEntries data >>= fun entries => entries.foldlM addEntry empty

theorem ofTable_none (data : Table) : ofTable data none = (ofData data).mapError (⟨none, ·⟩) := rfl

theorem addEntry_withFiles (files : List Path) (d : Draft) (entry : Text × Value) :
    addEntry (d.withFiles files) entry = (addEntry d entry).map (withFiles files) := by
  rw [addEntry, addEntry]
  cases readEntry entry.1 entry.2 with
  | error e => rfl
  | ok read => rfl

theorem foldlM_addEntry_withFiles (files : List Path) (d : Draft) (entries : Table) :
    entries.foldlM addEntry (d.withFiles files) =
      (entries.foldlM addEntry d).map (withFiles files) := by
  induction entries generalizing d with
  | nil => rfl
  | cons entry rest ih =>
    rw [List.foldlM_cons, List.foldlM_cons, addEntry_withFiles]
    cases addEntry d entry with
    | error e => rfl
    | ok next => exact ih next

theorem ofTable_some (data : Table) (file : Path) :
    ofTable data (some file) =
      ((ofData data).map (withFiles [file])).mapError (⟨some file, ·⟩) := by
  have hfile : ofTable data (some file) = (languageEntries data >>= fun entries =>
      entries.foldlM addEntry (empty.withFiles [file])).mapError (⟨some file, ·⟩) := rfl
  rw [hfile, ofData]
  cases languageEntries data with
  | error e => rfl
  | ok entries => rw [Attempt.ok_bind, Attempt.ok_bind, foldlM_addEntry_withFiles]

end Draft

def overDefaults (d : Draft) : Config := (Draft.defaults.mergeWith d .revise).freeze

theorem ofConfig_withFiles (d : Draft) (files : List Path) :
    Registry.ofConfig (overDefaults (d.withFiles files)) = Registry.ofConfig (overDefaults d) := by
  have hlanguages : (Draft.defaults.mergeWith (d.withFiles files) .revise).languages =
      (Draft.defaults.mergeWith d .revise).languages := by
    rw [Draft.mergeWith_languages, Draft.mergeWith_languages]
    rfl
  rw [overDefaults, overDefaults, Registry.ofConfig, Registry.ofConfig, Draft.freeze, Draft.freeze,
    hlanguages]

theorem Holds.isFile (h : Holds fs toml file data) : fs.isFile file = .ok true := by
  obtain ⟨document, hd, -⟩ := h
  exact Config.isFile_of_loadTable hd

theorem Holds.loadLayer (h : Holds fs toml file data) :
    (Config.loadLayer fs toml file).outcome =
      ((Draft.ofTable data (some file)).map some).mapError .config := by
  obtain ⟨document, hd, hpart⟩ := h
  have hextract : (if file.name = projectFileName then Config.toolTable? document
      else some document) = some data := by
    rcases hpart with ⟨hname, rfl⟩ | ⟨hname, htool⟩
    · exact if_neg hname
    · rw [if_pos hname]
      exact Config.toolTable?_eq_some.mpr htool
  simp only [Config.loadLayer, Attempt.outcome_bind, Attempt.outcome_note, Attempt.ok_bind,
    Attempt.outcome_lift, Config.extractTable_value, hd, hextract]
  cases Draft.ofTable data (some file) with
  | error e => rfl
  | ok d => rfl

theorem Holds.resolve (h : Holds fs toml file data) :
    (Config.resolve fs toml (onlyFile file)).outcome =
      ((Draft.ofData data).map fun d => overDefaults (d.withFiles [file])).mapError
        fun problem => .config ⟨some file, problem⟩ := by
  have hadd : (Config.addExtra fs toml .revise Draft.defaults file).outcome =
      ((Draft.ofTable data (some file)).map (Draft.defaults.mergeWith · .revise)).mapError
        .config := by
    rw [Config.addExtra_of_isFile h.isFile, Config.addFile, Attempt.outcome_bind, h.loadLayer]
    cases Draft.ofTable data (some file) with
    | error e => rfl
    | ok d => rfl
  rw [Config.resolve_outcome, Config.loadMerged_outcome]
  simp only [onlyFile, Attempt.ok_bind, List.foldlM_nil, List.foldlM_cons, Attempt.outcome_pure,
    Attempt.outcome_bind, hadd, Draft.ofTable_some]
  cases Draft.ofData data with
  | error e => rfl
  | ok d => rfl

/-- What a table comes to that is given as it is, and that the file `file` holds: one outcome on
every path, or one refusal, told of the file where there is one. -/
inductive Agree (fs : FileSystem) (toml : Toml.Parser) (file : Path) (data : Table) : Prop where
  | accepted (config : Config) :
      (Config.resolve fs toml (onlyFile file)).outcome = .ok config →
      (∀ path, detectByTable fs (some data) path = detectByConfig fs config path) →
      Agree fs toml file data
  | refused (given located : ConfigError) :
      (Config.resolve fs toml (onlyFile file)).outcome = .error (.config located) →
      (∀ path, detectByTable fs (some data) path = .error (.config given)) →
      given.path = none → located.path = some file → given.problem = located.problem →
      located.message = file.display ++ ": " ++ given.message → Agree fs toml file data

theorem Holds.agree (h : Holds fs toml file data) : Agree fs toml file data := by
  have hresolve := h.resolve
  cases hd : Draft.ofData data with
  | error problem =>
    rw [hd] at hresolve
    refine .refused ⟨none, problem⟩ ⟨some file, problem⟩ hresolve ?_ rfl rfl rfl rfl
    intro path
    rw [detectByTable, Registry.ofTable?, Draft.ofTable_none, hd]
    rfl
  | ok d =>
    rw [hd] at hresolve
    refine .accepted _ hresolve ?_
    intro path
    rw [detectByConfig, ofConfig_withFiles, detectByTable, Registry.ofTable?, Draft.ofTable_none,
      hd]
    rfl

theorem builtin_of_nothing : Registry.ofTable? (some []) = .ok Registry.builtin := by decide +kernel

theorem builtin_of_defaults : Registry.ofConfig Draft.defaults.freeze = Registry.builtin := by
  decide +kernel

/-- A table leads to the same outcome whether it is given or stands in the one file that is named;
and no table, an empty one and the frozen defaults are the same on every path. -/
theorem detect_table_file (h : Holds fs toml file data) :
    Agree fs toml file data ∧
    ∀ path, detectByTable fs (some []) path = detectByTable fs none path ∧
      detectByConfig fs Draft.defaults.freeze path = detectByTable fs none path := by
  refine ⟨h.agree, ?_⟩
  intro path
  constructor
  · rw [detectByTable, builtin_of_nothing]
    rfl
  · rw [detectByConfig, builtin_of_defaults]
    rfl

def projectFile : FileSystem where
  lookup path :=
    if path = projectFileName then
      .regular (Utf8.encode "[tool.shebangscan.languages.zsh]\nextensions = ['.z', 'sh']\n")
    else .refused .noEntry

def zshTable : Table :=
  [("languages", .table [("zsh", .table [("extensions", .list [.string ".z", .string "sh"])])])]

def toolTexts? : Except LoadError Table → Option (List Text)
  | .ok [(tool, .table [(own, .table [(languages, .table [(name, .table [(key,
      .list [.string first, .string second])])])])])] =>
    some [tool, own, languages, name, key, first, second]
  | _ => none

theorem projectFile_holds : Holds projectFile Toml.parse (.ofText projectFileName) zshTable := by
  have htexts : toolTexts? (loadTable projectFile Toml.parse (.ofText projectFileName)).outcome =
      some (["tool", "shebangscan", "languages", "zsh", "extensions", ".z", "sh"] :
        List Text) := by
    decide +kernel
  generalize ho : (loadTable projectFile Toml.parse (.ofText projectFileName)).outcome = outcome
    at htexts
  unfold toolTexts? at htexts
  split at htexts
  · simp only [Option.some.injEq, List.cons.injEq] at htexts
    obtain ⟨rfl, rfl, rfl, rfl, rfl, rfl, rfl, -⟩ := htexts
    exact ⟨_, ho, .inr ⟨rfl, _, rfl, rfl⟩⟩
  · cases htexts

theorem detect_zshTable :
    Holds projectFile Toml.parse (.ofText projectFileName) zshTable ∧
    Agree projectFile Toml.parse (.ofText projectFileName) zshTable ∧
    detectByTable projectFile (some []) (.ofText "a.z") =
      detectByTable projectFile none (.ofText "a.z") ∧
    detectByTable projectFile (some zshTable) (.ofText "a.z") =
      .ok ⟨"zsh", ["z", "sh"], "Zsh scripts (*.zsh, *.sh)"⟩ := by
  obtain ⟨hagree, hnothing⟩ := detect_table_file projectFile_holds
  exact ⟨projectFile_holds, hagree, (hnothing _).1, by decide +kernel⟩

end Shebang
