import Shebang.Proofs.Cursor
import Shebang.Proofs.Draft
import Shebang.Proofs.Files

/-!
Which tables describe languages, and what they describe. A table is accepted exactly if every entry
under `languages` is in shape, and its draft has one language for each entry, in their order. Of a
table that is refused the first entry at fault is told, and keys that mean nothing are passed over.
-/

namespace Shebang

def Value.texts (ts : List Text) : Value := .list (ts.map .string)

def OrderedMap.only {α : Type} (m : OrderedMap α) (ks : List Text) : OrderedMap α :=
  m.filter fun e => ks.contains e.1

theorem OrderedMap.find?_only {α : Type} (m : OrderedMap α) {ks : List Text} {key : Text}
    (h : key ∈ ks) : (m.only ks).find? key = m.find? key := by
  induction m with
  | nil => rfl
  | cons e rest ih =>
    obtain ⟨k, v⟩ := e
    by_cases hk : k = key
    · subst hk
      simp [only, find?, h]
    · rw [find?, if_neg hk, ← ih, only, List.filter_cons]
      split
      · rw [find?, if_neg hk]
        rfl
      · rfl

namespace Draft

open Attempt (bind_eq_ok)

structure Undotted (t u : Text) : Prop where
  dots : ∃ n, t = List.replicate n '.' ++ u
  rest : u.head? ≠ some '.'

/-- Extensions that are absent or a list of texts, and a description that is absent or a text. -/
structure Fits (fields : Table) (extensions : Option (List Text)) (description : Option Text) :
    Prop where
  extensions : fields.find? "extensions" = extensions.map Value.texts
  description : fields.find? "description" = description.map Value.string

inductive Describes : Text × Value → Language × SetKeys → Prop where
  | fields {name : Text} {fields : Table} {extensions : Option (List Text)}
      {description : Option Text} {bare : List Text} (h : Fits fields extensions description)
      (hbare : List.Forall₂ Undotted (extensions.getD []) bare) :
      Describes (name, .table fields)
        (⟨name, bare, description.getD []⟩, ⟨extensions.isSome, description.isSome⟩)

def InShape (v : Value) : Prop :=
  ∃ fields extensions description, v = .table fields ∧ Fits fields extensions description

def WellShaped (data : Table) : Prop :=
  ∃ entries : Option Table, data.find? "languages" = entries.map Value.table ∧
    ∀ e ∈ entries.getD [], InShape e.2

/-- Where an entry is at fault, by the keys that lead there, and what should stand there. The
extensions are looked at before the description. -/
inductive EntryFault : Text × Value → List Text → Text → Prop where
  | table {name : Text} {v : Value} (h : ∀ fields, v ≠ .table fields) :
      EntryFault (name, v) ["languages", name] "a table"
  | extensions {name : Text} {fields : Table}
      (h : ∀ given, fields.find? "extensions" ≠ Option.map Value.texts given) :
      EntryFault (name, .table fields) ["languages", name, "extensions"] "a list of strings"
  | description {name : Text} {fields : Table} {extensions : Option (List Text)}
      (he : fields.find? "extensions" = extensions.map Value.texts)
      (hd : ∀ given, fields.find? "description" ≠ Option.map Value.string given) :
      EntryFault (name, .table fields) ["languages", name, "description"] "a string"

/-- Where a table is at fault first. -/
inductive Fault (data : Table) : List Text → Text → Prop where
  | languages (h : ∀ entries, data.find? "languages" ≠ Option.map Value.table entries) :
      Fault data ["languages"] "a table"
  | entry {before after : Table} {e : Text × Value} {keys : List Text} {kind : Text}
      (h : data.find? "languages" = some (.table (before ++ e :: after)))
      (hbefore : ∀ e' ∈ before, InShape e'.2) (hfault : EntryFault e keys kind) :
      Fault data keys kind

def complaint (keys : List Text) (kind : Text) : Text :=
  "'" ++ Text.joinWith "." keys ++ "' must be " ++ kind

section Fields

variable {name t u : Text} {ts us : List Text} {fields : Table} {extensions : Option (List Text)}
  {description : Option Text} {e : Text × Value} {row : Language × SetKeys} {keys : List Text}
  {kind : Text}

theorem undotted_iff : Undotted t u ↔ t.dropDots = u := by
  constructor
  · rintro ⟨⟨n, rfl⟩, hu⟩
    refine dropWhile_run (fun x hx => ?_) fun x hx => ?_
    · exact beq_iff_eq.mpr (List.eq_of_mem_replicate hx)
    · exact beq_eq_false_iff_ne.mpr fun h => hu (h ▸ hx)
  · rintro rfl
    refine ⟨⟨(t.takeWhile (· == '.')).length, ?_⟩, fun h => ?_⟩
    · have hdots : ∀ x ∈ t.takeWhile (· == '.'), x = '.' := fun x hx =>
        beq_iff_eq.mp (List.mem_takeWhile_imp (p := (· == '.')) hx)
      rw [← List.eq_replicate_of_mem hdots, Text.dropDots, List.takeWhile_append_dropWhile]
    · exact absurd (Text.stops_dropWhile t _ h) (by decide)

theorem forall_undotted_iff : List.Forall₂ Undotted ts us ↔ ts.map Text.dropDots = us := by
  rw [← List.forall₂_eq_eq_eq, List.forall₂_map_left_iff]
  simp only [funext₂ fun t u => propext (undotted_iff (t := t) (u := u))]

theorem mapM_stringOf? {items : List Value} :
    items.mapM stringOf? = some ts ↔ items = ts.map .string := by
  have hstring : ∀ v t, stringOf? v = some t ↔ v = .string t := by
    intro v t
    cases v <;> simp [stringOf?]
  rw [mapM_eq_some_iff, ← List.forall₂_eq_eq_eq, List.forall₂_map_right_iff]
  simp only [hstring]

theorem readExtensions_cases (name : Text) (fields : Table) :
    (∃ given, fields.find? "extensions" = Option.map Value.texts given ∧
      readExtensions name fields = .ok ((given.getD []).map Text.dropDots)) ∨
    (∀ given, fields.find? "extensions" ≠ Option.map Value.texts given) ∧
      readExtensions name fields = .error (.extensionsNotStrings name) := by
  rw [readExtensions]
  cases fields.find? "extensions" with
  | none => exact .inl ⟨none, rfl, rfl⟩
  | some v =>
    cases v with
    | list items =>
      cases hm : items.mapM stringOf? with
      | some ts =>
        rw [mapM_stringOf?] at hm
        subst hm
        exact .inl ⟨some ts, rfl, by simp only [mapM_stringOf?.mpr rfl]; rfl⟩
      | none =>
        refine .inr ⟨fun given h => ?_, by simp only [hm]⟩
        cases given with
        | none => cases h
        | some ts =>
          obtain rfl : items = ts.map .string := Value.list.inj (Option.some.inj h)
          rw [mapM_stringOf?.mpr rfl] at hm
          cases hm
    | _ =>
      refine .inr ⟨fun given h => ?_, rfl⟩
      cases given <;> cases h

theorem readDescription_cases (name : Text) (fields : Table) :
    (∃ given, fields.find? "description" = Option.map Value.string given ∧
      readDescription name fields = .ok (given.getD [])) ∨
    (∀ given, fields.find? "description" ≠ Option.map Value.string given) ∧
      readDescription name fields = .error (.descriptionNotString name) := by
  rw [readDescription]
  cases fields.find? "description" with
  | none => exact .inl ⟨none, rfl, rfl⟩
  | some v =>
    cases v with
    | string t => exact .inl ⟨some t, rfl, rfl⟩
    | _ =>
      refine .inr ⟨fun given h => ?_, rfl⟩
      cases given <;> cases h

theorem Fits.ofFields (h : Fits fields extensions description) :
    SetKeys.ofFields fields = ⟨extensions.isSome, description.isSome⟩ := by
  rw [SetKeys.ofFields, OrderedMap.contains, OrderedMap.contains, h.extensions, h.description,
    Option.isSome_map, Option.isSome_map]

theorem complaint_entry (name kind : Text) :
    complaint ["languages", name] kind = "'languages." ++ name ++ ("' must be " ++ kind) := by
  have hopen : ("'languages." : Text) = "'" ++ "languages" ++ "." := rfl
  rw [complaint, joinWith_cons _ _ (List.cons_ne_nil _ _), joinWith_singleton, hopen]
  simp only [List.append_assoc]

theorem complaint_field (name key kind : Text) : complaint ["languages", name, key] kind =
    "'languages." ++ name ++ ("." ++ key ++ "' must be " ++ kind) := by
  have hopen : ("'languages." : Text) = "'" ++ "languages" ++ "." := rfl
  rw [complaint, joinWith_cons _ _ (List.cons_ne_nil _ _),
    joinWith_cons _ _ (List.cons_ne_nil _ _), joinWith_singleton, hopen]
  simp only [List.append_assoc]

theorem message_entry (name : Text) : (ConfigProblem.languageNotTable name).message =
    complaint ["languages", name] "a table" := by
  have htail : ("' must be a table" : Text) = "' must be " ++ "a table" := rfl
  rw [complaint_entry, ← htail]
  rfl

theorem message_extensions (name : Text) : (ConfigProblem.extensionsNotStrings name).message =
    complaint ["languages", name, "extensions"] "a list of strings" := by
  have htail : (".extensions' must be a list of strings" : Text) =
      "." ++ "extensions" ++ "' must be " ++ "a list of strings" := rfl
  rw [complaint_field, ← htail]
  rfl

theorem message_description (name : Text) : (ConfigProblem.descriptionNotString name).message =
    complaint ["languages", name, "description"] "a string" := by
  have htail : (".description' must be a string" : Text) =
      "." ++ "description" ++ "' must be " ++ "a string" := rfl
  rw [complaint_field, ← htail]
  rfl

theorem readEntry_cases (e : Text × Value) :
    (∃ row, Describes e row ∧ readEntry e.1 e.2 = .ok row) ∨
    ∃ keys kind problem, EntryFault e keys kind ∧ readEntry e.1 e.2 = .error problem ∧
      problem.message = complaint keys kind := by
  obtain ⟨name, v⟩ := e
  cases v with
  | table fields =>
    rcases readExtensions_cases name fields with ⟨extensions, he, hread⟩ | ⟨he, hread⟩
    · rcases readDescription_cases name fields with ⟨description, hd, hread'⟩ | ⟨hd, hread'⟩
      · have hfits : Fits fields extensions description := ⟨he, hd⟩
        refine .inl ⟨_, .fields hfits (forall_undotted_iff.mpr rfl), ?_⟩
        rw [readEntry, hread, hread', hfits.ofFields]
        rfl
      · refine .inr ⟨_, _, _, .description he hd, ?_, message_description name⟩
        rw [readEntry, hread, hread']
        rfl
    · refine .inr ⟨_, _, _, .extensions he, ?_, message_extensions name⟩
      rw [readEntry, hread]
      rfl
  | _ => exact .inr ⟨_, _, _, .table nofun, rfl, message_entry name⟩

theorem Describes.name_eq (h : Describes e row) : row.1.name = e.1 := by
  cases h
  rfl

theorem Describes.inShape (h : Describes e row) : InShape e.2 := by
  cases h with
  | fields h => exact ⟨_, _, _, rfl, h⟩

theorem EntryFault.not_inShape (h : EntryFault e keys kind) : ¬ InShape e.2 := by
  rintro ⟨fields, extensions, description, hv, hfits⟩
  cases h with
  | table h => exact h fields hv
  | extensions h =>
    obtain rfl := Value.table.inj hv
    exact h _ hfits.extensions
  | description _ h =>
    obtain rfl := Value.table.inj hv
    exact h _ hfits.description

theorem readEntry_describes (h : readEntry e.1 e.2 = .ok row) : Describes e row := by
  rcases readEntry_cases e with ⟨row', hd, hr⟩ | ⟨_, _, _, _, hr, _⟩
  · exact Except.ok.inj (hr.symm.trans h) ▸ hd
  · cases hr.symm.trans h

theorem readEntry_faulty {problem : ConfigProblem} (h : readEntry e.1 e.2 = .error problem) :
    ∃ keys kind, EntryFault e keys kind ∧ problem.message = complaint keys kind := by
  rcases readEntry_cases e with ⟨_, _, hr⟩ | ⟨keys, kind, problem', hf, hr, hm⟩
  · cases hr.symm.trans h
  · exact ⟨keys, kind, hf, Except.error.inj (hr.symm.trans h) ▸ hm⟩

end Fields

section Rows

variable {data : Table} {file : Option Path} {rows : List (Language × SetKeys)} {files : List Path}
  {keys : List Text} {kind : Text}

def ofRows (rows : List (Language × SetKeys)) (files : List Path) : Draft :=
  ⟨rows.map fun row => (row.1.name, row.1), rows.map fun row => (row.1.name, row.2), files⟩

def record (d : Draft) (row : Language × SetKeys) : Draft :=
  { d with
    languages := d.languages.put row.1.name row.1
    setKeys := d.setKeys.put row.1.name row.2 }

theorem addEntry_eq (d : Draft) (e : Text × Value) :
    addEntry d e = (readEntry e.1 e.2).map d.record := by
  rw [addEntry]
  cases hr : readEntry e.1 e.2 with
  | error problem => rfl
  | ok row =>
    have hname := (readEntry_describes hr).name_eq
    simp only [Except.map, record, hname]
    rfl

theorem foldl_record (d : Draft) : rows.foldl record d =
    ⟨(ofRows rows d.configFiles).languages.foldl (fun m e => m.put e.1 e.2) d.languages,
      (ofRows rows d.configFiles).setKeys.foldl (fun m e => m.put e.1 e.2) d.setKeys,
      d.configFiles⟩ := by
  induction rows generalizing d with
  | nil => rfl
  | cons row rows ih => exact ih (d.record row)

theorem foldl_record_empty (hn : (rows.map (·.1.name)).Nodup) :
    rows.foldl record ⟨[], [], files⟩ = ofRows rows files := by
  have hkeys : (ofRows rows files).languages.keys = rows.map (·.1.name) := List.map_map
  have hkeys' : (ofRows rows files).setKeys.keys = rows.map (·.1.name) := List.map_map
  have hlanguages := OrderedMap.ofList_of_nodup (hkeys ▸ hn)
  have hset := OrderedMap.ofList_of_nodup (hkeys' ▸ hn)
  rw [OrderedMap.ofList] at hlanguages hset
  rw [foldl_record, hlanguages, hset]
  rfl

theorem names_of_rows {entries : Table} (h : List.Forall₂ Describes entries rows) :
    rows.map (·.1.name) = entries.keys := by
  rw [OrderedMap.keys, eq_comm, ← List.forall₂_eq_eq_eq, List.forall₂_map_left_iff,
    List.forall₂_map_right_iff]
  exact h.imp fun _ _ hd => hd.name_eq.symm

theorem languageEntries_cases (data : Table) :
    (∃ entries, data.find? "languages" = Option.map Value.table entries ∧
      languageEntries data = .ok (entries.getD [])) ∨
    (∀ entries, data.find? "languages" ≠ Option.map Value.table entries) ∧
      languageEntries data = .error .languagesNotTable := by
  rw [languageEntries]
  cases data.find? "languages" with
  | none => exact .inl ⟨none, rfl, rfl⟩
  | some v =>
    cases v with
    | table entries => exact .inl ⟨some entries, rfl, rfl⟩
    | _ =>
      refine .inr ⟨fun entries h => ?_, rfl⟩
      cases entries <;> cases h

theorem ofTable_cases (data : Table) (file : Option Path) :
    (∃ entries rows, data.find? "languages" = Option.map Value.table entries ∧
      List.Forall₂ Describes (entries.getD []) rows ∧
      ofTable data file = .ok (rows.foldl record ⟨[], [], file.toList⟩)) ∨
    ∃ keys kind problem, Fault data keys kind ∧ ofTable data file = .error ⟨file, problem⟩ ∧
      problem.message = complaint keys kind := by
  have hread : ofTable data file = (languageEntries data >>= fun entries =>
      entries.foldlM addEntry ⟨[], [], file.toList⟩).mapError (⟨file, ·⟩) := rfl
  rcases languageEntries_cases data with ⟨entries, hdata, hentries⟩ | ⟨hdata, hentries⟩
  · rw [hread, hentries, Attempt.ok_bind, funext₂ addEntry_eq, Attempt.foldlM_map]
    cases hrows : (entries.getD []).mapM fun e => readEntry e.1 e.2 with
    | ok rows =>
      have hdescribes := (Attempt.mapM_eq_ok_iff.mp hrows).imp fun _ _ => readEntry_describes
      exact .inl ⟨entries, rows, hdata, hdescribes, rfl⟩
    | error problem =>
      obtain ⟨before, e, after, hsplit, hbefore, he⟩ := Attempt.mapM_eq_error hrows
      obtain ⟨keys, kind, hfault, hmessage⟩ := readEntry_faulty he
      have hshape : ∀ e' ∈ before, InShape e'.2 := fun e' hm => by
        obtain ⟨row, hrow⟩ := hbefore e' hm
        exact (readEntry_describes hrow).inShape
      have hsome : data.find? "languages" = some (.table (before ++ e :: after)) := by
        cases entries with
        | none => simp at hsplit
        | some entries => rw [hdata, ← hsplit]; rfl
      exact .inr ⟨keys, kind, problem, .entry hsome hshape hfault, rfl, hmessage⟩
  · rw [hread, hentries]
    refine .inr ⟨_, _, _, .languages hdata, rfl, ?_⟩
    rw [complaint, joinWith_singleton]
    rfl

theorem Fault.not_wellShaped (h : Fault data keys kind) : ¬ WellShaped data := by
  rintro ⟨entries, hdata, hshape⟩
  cases h with
  | languages h => exact h entries hdata
  | @entry before after e _ _ h _ hfault =>
    cases entries with
    | none => cases h.symm.trans hdata
    | some entries =>
      have hentries : before ++ e :: after = entries :=
        Value.table.inj (Option.some.inj (h.symm.trans hdata))
      exact hfault.not_inShape (hshape e (hentries ▸ List.mem_append_cons_self))

end Rows

def relevantEntry : Value → Value
  | .table fields => .table (OrderedMap.only fields ["extensions", "description"])
  | v => v

def relevantEntries : Value → Value
  | .table entries => .table (entries.map fun e => (e.1, relevantEntry e.2))
  | v => v

def relevant (data : Table) : Table :=
  (data.only ["languages"]).map fun e => (e.1, relevantEntries e.2)

theorem readEntry_relevant (name : Text) (v : Value) :
    readEntry name (relevantEntry v) = readEntry name v := by
  cases v with
  | table fields =>
    have hfind : ∀ key ∈ (["extensions", "description"] : List Text),
        OrderedMap.find? key (OrderedMap.only fields ["extensions", "description"]) =
          OrderedMap.find? key fields := fun _ => OrderedMap.find?_only fields
    simp only [relevantEntry, readEntry, readExtensions, readDescription, SetKeys.ofFields,
      OrderedMap.contains, hfind "extensions" (by decide), hfind "description" (by decide)]
  | _ => rfl

theorem ofTable_relevant (data : Table) (file : Option Path) :
    ofTable (relevant data) file = ofTable data file := by
  have hfind : (relevant data).find? "languages" =
      (data.find? "languages").map relevantEntries := by
    rw [relevant, OrderedMap.find?_map, OrderedMap.find?_only _ List.mem_cons_self]
  have hadd : ∀ d (e : Text × Value), addEntry d (e.1, relevantEntry e.2) = addEntry d e := by
    intro d e
    rw [addEntry_eq, addEntry_eq, readEntry_relevant]
  rw [ofTable, ofTable, languageEntries, languageEntries, hfind]
  cases data.find? "languages" with
  | none => rfl
  | some v =>
    cases v with
    | table entries =>
      simp only [Option.map_some, relevantEntries, Attempt.ok_bind, List.foldlM_map, hadd]
    | _ => rfl

/-- A table is accepted exactly if it is in shape; then each entry gives its language, in the order
of the entries, and else the first fault is told with the file it is in. Nothing else counts. -/
theorem ofTable_shape (data : Table) (file : Option Path) :
    ((∃ d, ofTable data file = .ok d) ↔ WellShaped data) ∧
    (∀ d entries, ofTable data file = .ok d →
      data.find? "languages" = Option.map Value.table entries →
      (OrderedMap.keys (entries.getD [])).Nodup →
      ∃ rows, List.Forall₂ Describes (entries.getD []) rows ∧ d = ofRows rows file.toList) ∧
    (∀ e, ofTable data file = .error e → e.path = file ∧
      ∃ keys kind, Fault data keys kind ∧ e.problem.message = complaint keys kind) ∧
    ∀ data', relevant data' = relevant data → ofTable data' file = ofTable data file := by
  have hrelevant : ∀ data', relevant data' = relevant data →
      ofTable data' file = ofTable data file := fun data' h => by
    rw [← ofTable_relevant data', h, ofTable_relevant]
  rcases ofTable_cases data file with
    ⟨entries, rows, hdata, hrows, hok⟩ | ⟨keys, kind, problem, hfault, herror, hmessage⟩
  · have hshape : ∀ e ∈ entries.getD [], InShape e.2 :=
      ((List.forall₂_and_left _ _).mp (hrows.imp fun _ _ h => ⟨h.inShape, h⟩)).1
    refine ⟨iff_of_true ⟨_, hok⟩ ⟨entries, hdata, hshape⟩, ?_, ?_, hrelevant⟩
    · intro d entries' hd hdata' hn
      obtain rfl : entries = entries' :=
        Option.map_injective (fun _ _ => Value.table.inj) (hdata.symm.trans hdata')
      refine ⟨rows, hrows, ?_⟩
      rw [← foldl_record_empty ((names_of_rows hrows).symm ▸ hn)]
      exact Except.ok.inj (hd.symm.trans hok)
    · intro e he
      cases hok.symm.trans he
  · refine ⟨iff_of_false ?_ hfault.not_wellShaped, ?_, ?_, hrelevant⟩
    · rintro ⟨d, hd⟩
      cases herror.symm.trans hd
    · intro d entries hd
      cases herror.symm.trans hd
    · intro e he
      obtain rfl := Except.error.inj (herror.symm.trans he)
      exact ⟨rfl, keys, kind, hfault, hmessage⟩

def kshEntry : Text × Value :=
  ("ksh", .table [("extensions", .list [.string "..ksh", .string "m.ksh"]), ("color", .bool true)])

def fishEntry : Text × Value := ("fish", .table [("description", .string "Fish")])

def kshTable : Table := [("title", .string "x"), ("languages", .table [kshEntry, fishEntry])]

def kshDraft : Draft where
  languages := [("ksh", ⟨"ksh", ["ksh", "m.ksh"], []⟩), ("fish", ⟨"fish", [], "Fish"⟩)]
  setKeys := [("ksh", ⟨true, false⟩), ("fish", ⟨false, true⟩)]
  configFiles := [.ofText "a.toml"]

def faultyTable : Table :=
  [("languages", .table [fishEntry,
    ("zsh", .table [("description", .integer 3), ("extensions", .string "zsh")]),
    ("bash", .string "sh")])]

theorem ofTable_shape_ksh :
    ofTable kshTable (some (.ofText "a.toml")) = .ok kshDraft ∧
    kshTable.find? "languages" = Option.map Value.table (some [kshEntry, fishEntry]) ∧
    (OrderedMap.keys [kshEntry, fishEntry]).Nodup ∧
    (∃ rows, List.Forall₂ Describes [kshEntry, fishEntry] rows ∧
      kshDraft = ofRows rows [.ofText "a.toml"]) ∧
    ofTable faultyTable none = .error ⟨none, .extensionsNotStrings "zsh"⟩ ∧
    (∃ keys kind, Fault faultyTable keys kind ∧
      (ConfigProblem.extensionsNotStrings "zsh").message = complaint keys kind) ∧
    relevant (kshTable.erase "title") = relevant kshTable ∧
    ofTable (kshTable.erase "title") none = ofTable kshTable none := by
  have hok : ofTable kshTable (some (.ofText "a.toml")) = .ok kshDraft := rfl
  have hdata : kshTable.find? "languages" = Option.map Value.table (some [kshEntry, fishEntry]) :=
    rfl
  have hn : (OrderedMap.keys [kshEntry, fishEntry]).Nodup := by decide
  have herror : ofTable faultyTable none = .error ⟨none, .extensionsNotStrings "zsh"⟩ := rfl
  have hrelevant : relevant (kshTable.erase "title") = relevant kshTable := rfl
  obtain ⟨-, hrows, -, -⟩ := ofTable_shape kshTable (some (.ofText "a.toml"))
  exact ⟨hok, hdata, hn, hrows _ _ hok hdata hn, herror,
    ((ofTable_shape faultyTable none).2.2.1 _ herror).2, hrelevant,
    (ofTable_shape kshTable none).2.2.2 _ hrelevant⟩

end Draft

end Shebang
