import Shebang.Proofs.Batches

/-!
Inputs are independent of each other. A run on two lists of paths prints what the runs on each
print, tells the errors of both and ends with the worse of their codes; an input that fails changes
nothing for the others, and the order of the paths does not matter for the code. The exception is a
path for which the system does not answer: where languages are asked for, it ends the run with
nothing printed.
-/

namespace Shebang.CommandLine

section Commands

variable {w : World} {s : Session} {command : Command} {options : List (OptionKey × Text)}
  {values : OptionValues} {paths arguments : List Text}

def Names (w : World) (s : Session) (command : Command) (options : List (OptionKey × Text))
    (paths arguments : List Text) : Prop :=
  ∃ a rest, Reaches w arguments a s command rest ∧
    (Scope.command command).read rest = .ok ⟨options, paths⟩

/-- A command works on paths with these options, and has a configuration if it needs one. -/
structure Accepted (w : World) (command : Command) (options : List (OptionKey × Text))
    (values : OptionValues) : Prop where
  works : command = .scan ∨ command = .detect
  help : Arguments.has ⟨options, []⟩ .help = false
  read : readValues w.files (.command command) ⟨options, []⟩ = .ok values
  resolves : command = .detect →
    ∃ config, (Config.resolve w.files w.toml (requested w values)).outcome = .ok config

def Calls (w : World) (s : Session) (command : Command) (values : OptionValues)
    (paths arguments : List Text) : Prop :=
  ∃ options, Names w s command options paths arguments ∧
    Arguments.has ⟨options, []⟩ .help = false ∧
    readValues w.files (.command command) ⟨options, []⟩ = .ok values

theorem run_called (hcommand : command = .scan ∨ command = .detect)
    (h : Calls w s command values paths arguments) :
    run w arguments = .ofProgram (perform w s values command paths) := by
  obtain ⟨options, ⟨a, rest, hreaches, hread⟩, hhelp, hvalues⟩ := h
  have hasked : Arguments.has ⟨options, paths⟩ .help = false := hhelp
  have hgiven : readValues w.files (.command command) ⟨options, paths⟩ = .ok values := hvalues
  have hpaths : command.takesPaths = true := by
    rcases hcommand with rfl | rfl <;> rfl
  rw [run_reached hreaches, runCommand, readScope_values hread hasked, hgiven]
  simp only [pure_bind, hpaths]
  cases command <;> rfl

theorem run_named (h : Accepted w command options values)
    (hnames : Names w s command options paths arguments) :
    run w arguments = .ofProgram (perform w s values command paths) :=
  run_called h.works ⟨options, hnames, h.help, h.read⟩

theorem logLevel_of_names (hlog : w.environment.logLevel = none)
    (hnames : Names w s command options paths arguments) : s.log.level = Log.critical := by
  obtain ⟨a, rest, hreaches, -⟩ := hnames
  obtain ⟨opened, -, hsession⟩ := hreaches.session
  obtain ⟨-, -, hopen, -⟩ := openSession_eq hsession
  rw [hlog] at hopen
  rw [← Except.ok.inj hopen]
  rfl

theorem exists_batch (h : Accepted w command options values) (hlog : w.environment.logLevel = none)
    (s : Session) : ∃ (α : Type) (b : Batch α), b.Reports values.format ∧
      ∀ paths arguments, Fit w command paths → Names w s command options paths arguments →
        b.Settles s.console paths (run w arguments) := by
  rcases h.works with rfl | rfl
  · refine ⟨ScanItem, scanBatch w s values, scanBatch_reports,
      fun paths arguments hfit hnames => ?_⟩
    rw [run_named h hnames]
    exact scan_settles hfit
  · obtain ⟨config, hconfig⟩ := h.resolves rfl
    refine ⟨DetectedFile, detectBatch w s values (.ofConfig config), detectBatch_reports,
      fun paths arguments hfit hnames => ?_⟩
    rw [run_named h hnames]
    refine detect_settles (logLevel_of_names hlog hnames) ?_ hfit
    rw [configOf, hconfig]

end Commands

/-- What a run on two lists has of the runs on each. -/
structure Composes (format : OutputFormat) (p q both : Outcome) : Prop where
  lines : format = .default ∨ format = .ndjson → both.output = p.output ++ q.output
  records : format = .json → ∃ ps qs, recordsIn p.output = some ps ∧ recordsIn q.output = some qs ∧
    recordsIn both.output = some (ps ++ qs)
  errors : both.errors = p.errors ++ q.errors
  ending : ∃ m n, p.ending = .exit m ∧ q.ending = .exit n ∧ both.ending = .exit (max m n)

namespace Batch

variable {α : Type} {b : Batch α} {c : Console} {format : OutputFormat} {P Q : List Text}
  {p q both : Outcome}

theorem Settles.records (hr : b.Reports .json) (h : b.Settles c P p) :
    recordsIn p.output = some ((results (P.map b.settle)).map b.record) := by
  rw [h.output, hr.document rfl]
  exact recordsIn_document c _

theorem Settles.composes (hr : b.Reports format) (hp : b.Settles c P p) (hq : b.Settles c Q q)
    (hboth : b.Settles c (P ++ Q) both) : Composes format p q both where
  lines hformat := by
    rw [hboth.output, hp.output, hq.output, List.map_append, results_append, hr.append hformat,
      output_append]
  records hformat := by
    subst hformat
    refine ⟨_, _, hp.records hr, hq.records hr, ?_⟩
    rw [hboth.records hr, List.map_append, results_append, List.map_append]
  errors := by
    rw [hboth.errors, hp.errors, hq.errors, List.flatMap_append]
  ending := by
    refine ⟨_, _, hp.ending, hq.ending, ?_⟩
    rw [hboth.ending, List.map_append, failures_append, ExitCode.worst_append]

theorem Settles.perm (h : P.Perm Q) (hp : b.Settles c P p) (hq : b.Settles c Q q) :
    p.ending = q.ending := by
  have hfailures : (failures (P.map b.settle)).Perm (failures (Q.map b.settle)) :=
    (h.map b.settle).filterMap _
  rw [hp.ending, hq.ending, ExitCode.worst_perm hfailures]

theorem Settles.failed {path : Text} (hp : b.Settles c [path] p) (hcode : p.ending ≠ .exit 0) :
    results [b.settle path] = [] := by
  have hending := hp.ending
  rw [List.map_singleton] at hending
  cases hs : b.settle path with
  | error code => rfl
  | ok result =>
    rw [hs] at hending
    exact absurd hending hcode

theorem Settles.skip {before after : List Text} {path : Text} (hp : b.Settles c [path] p)
    (hcode : p.ending ≠ .exit 0) (hq : b.Settles c (before ++ after) q)
    (hboth : b.Settles c (before ++ path :: after) both) : both.output = q.output := by
  have hpath : before ++ path :: after = before ++ ([path] ++ after) := rfl
  rw [hboth.output, hq.output, hpath, List.map_append, List.map_append, List.map_append,
    results_append, results_append, results_append, List.map_singleton, hp.failed hcode,
    List.nil_append]

end Batch

section Unanswered

variable {w : World} {values : OptionValues} {registry : Registry} {paths : List Text}

/-- The first path without an answer ends the loop, whatever was found before it. -/
theorem mapM_unanswered {path : Text} (hpath : path ∈ paths)
    (h : Unanswered w.files (.ofText path)) :
    ∃ cause, paths.mapM (detectedIn w registry) = .error (.notOpened cause) := by
  cases hloop : paths.mapM (detectedIn w registry) with
  | error e =>
    obtain ⟨-, first, -, -, -, hfirst⟩ := Attempt.mapM_eq_error hloop
    obtain ⟨cause, rfl⟩ := detectedIn_error hfirst
    exact ⟨cause, rfl⟩
  | ok done =>
    obtain ⟨e, he⟩ := isFile_eq_error.mpr h
    obtain ⟨r, hr⟩ := Attempt.ok_of_mapM hloop hpath
    rw [detectedIn, he] at hr
    cases hr

theorem performed_unanswered {path : Text} {config : Config} {verbosity : Int}
    (hconfig : configOf w values = .ok config) (hcount : paths.count stdinMark ≤ 1)
    (hpath : path ∈ paths) (h : Unanswered w.files (.ofText path)) :
    ∃ cause, performed w verbosity values .detect paths = .error (.notOpened cause) := by
  obtain ⟨cause, hloop⟩ : ∃ cause, paths.mapM (detectedIn w (.ofConfig config)) =
      .error (.notOpened cause) := mapM_unanswered hpath h
  have hinputs : inputsOf paths = .ok paths := by
    rw [inputsOf, requireInputs, if_neg (List.ne_nil_of_mem hpath), if_neg (Nat.not_lt.mpr hcount)]
    rfl
  exact ⟨cause, by rw [performed, hconfig, Attempt.ok_bind, hinputs, Attempt.ok_bind, hloop]; rfl⟩

end Unanswered

/-- Runs on lists of paths compose: on two lists one after another, on the same paths in another
order, and around an input that fails. Asking for the language of a path for which the system does
not answer ends the run. -/
theorem run_composes {w : World} {s : Session} {command : Command}
    {options : List (OptionKey × Text)} {values : OptionValues}
    (h : Accepted w command options values) (hlog : w.environment.logLevel = none) :
    (∀ P Q p q pq, P ≠ [] → Q ≠ [] → Fit w command (P ++ Q) → Names w s command options P p →
      Names w s command options Q q → Names w s command options (P ++ Q) pq →
      Composes values.format (run w p) (run w q) (run w pq)) ∧
    (∀ P Q p q, P.Perm Q → Fit w command P → Names w s command options P p →
      Names w s command options Q q → (run w p).ending = (run w q).ending) ∧
    (∀ before path after p others all, before ++ after ≠ [] →
      Fit w command (before ++ path :: after) → Names w s command options [path] p →
      Names w s command options (before ++ after) others →
      Names w s command options (before ++ path :: after) all →
      (run w p).ending ≠ .exit 0 → (run w all).output = (run w others).output) ∧
    (command = .detect → ∀ P p path, P.count stdinMark ≤ 1 → path ∈ P →
      Unanswered w.files (.ofText path) → Names w s command options P p →
      (∃ cause, (run w p).ending = .fault (.load (.notOpened cause))) ∧ (run w p).output = []) := by
  obtain ⟨α, b, hreports, hsettles⟩ := exists_batch h hlog s
  refine ⟨?_, ?_, ?_, ?_⟩
  · intro P Q p q pq hP hQ hfit hp hq hpq
    have hfitP : Fit w command P := hfit.sublist hP (List.sublist_append_left P Q)
    have hfitQ : Fit w command Q := hfit.sublist hQ (List.sublist_append_right P Q)
    exact Batch.Settles.composes hreports (hsettles P p hfitP hp) (hsettles Q q hfitQ hq)
      (hsettles _ pq hfit hpq)
  · intro P Q p q hperm hfit hp hq
    exact Batch.Settles.perm hperm (hsettles P p hfit hp) (hsettles Q q (hfit.perm hperm) hq)
  · intro before path after p others all hothers hfit hpath hrest hall hcode
    have hfitPath : Fit w command [path] :=
      hfit.sublist (List.cons_ne_nil _ _) (List.singleton_sublist.mpr (by simp))
    have hfitRest : Fit w command (before ++ after) :=
      hfit.sublist hothers ((List.Sublist.refl before).append (List.sublist_cons_self path after))
    exact Batch.Settles.skip (hsettles _ p hfitPath hpath) hcode (hsettles _ others hfitRest hrest)
      (hsettles _ all hfit hall)
  · rintro rfl P p path hcount hpath hopen hp
    obtain ⟨config, hconfig⟩ := h.resolves rfl
    have hresolved : configOf w values = .ok config := by
      rw [configOf, hconfig]
    obtain ⟨cause, hperformed⟩ := performed_unanswered hresolved hcount hpath hopen
    have hshown := (perform_yields w s values .detect P).shows
    rw [hperformed] at hshown
    rw [run_named h hp]
    exact ⟨⟨cause, hshown.ending⟩, hshown.output⟩

def sparseWorld : World := .ofFiles ⟨fun t =>
  if t = "a.bash" then .regular (Utf8.encode "#!/bin/bash\n")
  else if 255 < t.length then .refused .nameTooLong
  else .refused .noEntry⟩

def sparseSession : Session := .ofColor false

theorem detect_accepted : Accepted sparseWorld .detect [] .initial where
  works := Or.inr rfl
  help := rfl
  read := rfl
  resolves _ := ⟨_, rfl⟩

theorem readArguments_positionals {κ : Type} (specs : List (OptionSpec κ)) {paths : List Text}
    (h : ∀ path ∈ paths, isOption path = false) :
    readArguments specs true paths = .ok ⟨[], paths⟩ := by
  induction paths with
  | nil => rfl
  | cons path rest ih =>
    have hpath : isOption path = false := h path List.mem_cons_self
    have hmark : path ≠ ['-', '-'] := by
      rintro rfl
      cases hpath
    rw [readArguments, if_neg hmark, if_neg (by simp [hpath]), if_pos rfl,
      ih fun p hp => h p (List.mem_cons_of_mem path hp)]
    rfl

theorem sparse_names {paths : List Text} (h : ∀ path ∈ paths, isOption path = false) :
    Names sparseWorld sparseSession .detect [] paths ("detect" :: paths) :=
  ⟨⟨[], "detect" :: paths⟩, paths, ⟨rfl, ⟨_, rfl, by decide +kernel⟩, rfl, ⟨_, rfl, rfl⟩⟩,
    readArguments_positionals _ h⟩

theorem detect_missing : Composes .default (run sparseWorld ["detect", "a.bash"])
    (run sparseWorld ["detect", "b.bash"]) (run sparseWorld ["detect", "a.bash", "b.bash"]) :=
  (run_composes detect_accepted rfl).1 ["a.bash"] ["b.bash"] _ _ _ nofun nofun
    ⟨nofun, by decide, by decide, fun _ => by decide +kernel⟩
    (sparse_names (by decide)) (sparse_names (by decide)) (sparse_names (by decide))

def overlongName : Text := List.replicate 256 'x'

/-- A name that is too long takes the language of the script out of the report. -/
theorem detect_overlong :
    (run sparseWorld ["detect", "a.bash"]).output = "a.bash: bash\n" ∧
    (run sparseWorld ["detect", "a.bash", overlongName]).output = [] ∧
    (run sparseWorld ["detect", "a.bash", overlongName]).ending =
      .fault (.load (.notOpened (.refused .nameTooLong overlongName))) := by
  decide +kernel

end Shebang.CommandLine
