import Shebang.Proofs.Commands

/-!
Color only adds. Two runs that get to the same command with the same verbosity, one in color and one
without, end alike and print the same lines. Without color each line is printed without its control
sequences, which is the line in color without them unless a sequence begins in one fragment of the
line and ends in a later one.
-/

namespace Shebang.CommandLine

open Report (LinesIn IsText IsInert)
open Terminal (Sequences)

section Options

variable {fs : FileSystem} {scope : Scope} {a a' : Arguments OptionKey} {v v' : OptionValues}

def isColorOption : OptionKey → Bool
  | .color => true
  | .noColor => true
  | _ => false

def otherOptions (a : Arguments OptionKey) : List (OptionKey × Text) :=
  a.options.filter fun o => !isColorOption o.1

theorem set_quiet {key : OptionKey} (h : OptionValues.set fs scope a v key = .ok v') :
    v'.quiet = (if key = .quiet then a.count .quiet else v.quiet) ∧
      v'.verbose = if key = .verbose then a.count .verbose else v.verbose := by
  cases key with
  | color | format | config =>
    obtain ⟨_, -, hv⟩ := Attempt.bind_eq_ok.mp h
    cases hv
    exact ⟨rfl, rfl⟩
  | _ =>
    cases h
    exact ⟨rfl, rfl⟩

theorem foldlM_set {keys : List OptionKey}
    (h : keys.foldlM (OptionValues.set fs scope a) v = .ok v') :
    v'.quiet = (if .quiet ∈ keys then a.count .quiet else v.quiet) ∧
      v'.verbose = if .verbose ∈ keys then a.count .verbose else v.verbose := by
  induction keys generalizing v with
  | nil =>
    cases h
    exact ⟨rfl, rfl⟩
  | cons key keys ih =>
    obtain ⟨next, hnext, hrest⟩ := Attempt.bind_eq_ok.mp h
    obtain ⟨hquiet, hverbose⟩ := set_quiet hnext
    obtain ⟨hquiet', hverbose'⟩ := ih hrest
    rw [hquiet', hverbose', hquiet, hverbose]
    constructor
    · by_cases hm : OptionKey.quiet ∈ keys
      · simp [hm]
      · simp [hm, eq_comm]
    · by_cases hm : OptionKey.verbose ∈ keys
      · simp [hm]
      · simp [hm, eq_comm]

theorem readValues_count (h : readValues fs scope a = .ok v) :
    v.quiet = a.count .quiet ∧ v.verbose = a.count .verbose := by
  have hcount : ∀ key, key ∉ a.keys → a.count key = 0 := by
    intro key hkey
    exact List.count_eq_zero.mpr fun hm => hkey (List.mem_eraseDups.mpr hm)
  obtain ⟨hquiet, hverbose⟩ := foldlM_set h
  rw [hquiet, hverbose]
  constructor
  · split_ifs with hm
    · rfl
    · exact (hcount _ hm).symm
  · split_ifs with hm
    · rfl
    · exact (hcount _ hm).symm

theorem count_otherOptions {key : OptionKey} (h : isColorOption key = false) :
    a.count key = ((otherOptions a).map Prod.fst).count key := by
  have hfilter : (otherOptions a).map Prod.fst =
      (a.options.map Prod.fst).filter fun key => !isColorOption key := by
    rw [List.filter_map]
    rfl
  rw [hfilter, List.count_filter (by simp [h])]
  rfl

end Options

section Twins

variable {w w' : World} {arguments arguments' rest : List Text} {a a' : Arguments OptionKey}
  {s s' : Session} {command : Command}

/-- Two runs that differ at most in what decides on color: a variable, the terminal, an option. -/
structure Twins (w w' : World) (a a' : Arguments OptionKey) : Prop where
  files : w'.files = w.files
  toml : w'.toml = w.toml
  workingDirectory : w'.workingDirectory = w.workingDirectory
  stdin : w'.stdin = w.stdin
  options : otherOptions a' = otherOptions a

theorem Twins.verbosity (h : Twins w w' a a') (hr : Reaches w arguments a s command rest)
    (hr' : Reaches w' arguments' a' s' command rest) : s'.verbosity = s.verbosity := by
  obtain ⟨v, hv, hs⟩ := hr.session
  obtain ⟨v', hv', hs'⟩ := hr'.session
  obtain ⟨-, hlevel, -⟩ := openSession_eq hs
  obtain ⟨-, hlevel', -⟩ := openSession_eq hs'
  obtain ⟨hquiet, hverbose⟩ := readValues_count hv
  obtain ⟨hquiet', hverbose'⟩ := readValues_count hv'
  have hcount : ∀ key, isColorOption key = false → a'.count key = a.count key := by
    intro key hkey
    rw [count_otherOptions hkey, h.options, ← count_otherOptions hkey]
  rw [hquiet', hverbose', hcount _ rfl, hcount _ rfl, ← hquiet, ← hverbose, hlevel] at hlevel'
  exact (Except.ok.inj hlevel').symm

theorem Twins.answered (h : Twins w w' a a') (verbosity : Int) (command : Command)
    (rest : List Text) :
    answered w' verbosity command rest = answered w verbosity command rest := by
  obtain ⟨files, toml, places, workingDirectory, stdin, environment, terminal⟩ := w
  obtain ⟨files', toml', places', workingDirectory', stdin', environment', terminal'⟩ := w'
  obtain ⟨rfl, rfl, rfl, rfl, -⟩ := h
  rfl

end Twins

section Lines

variable {w : World} {verbosity : Int} {command : Command} {values : OptionValues}

theorem performed_lines (w : World) (verbosity : Int) (values : OptionValues) (command : Command)
    (paths : List Text) :
    LinesIn values.format (linesOf (performed w verbosity values command paths)) := by
  cases command with
  | scan =>
    rw [performed]
    cases inputsOf paths with
    | error e => exact .nil
    | ok inputs =>
      rw [Attempt.ok_bind]
      cases inputs.mapM (scanned w) with
      | error e => exact .nil
      | ok done =>
        rw [Attempt.ok_bind, scanReport]
        split_ifs with h
        · exact Report.scanLines_lines _ _ _
        · exact .nil
  | detect =>
    rw [performed]
    cases configOf w values with
    | error e => exact .nil
    | ok config =>
      rw [Attempt.ok_bind]
      cases inputsOf paths with
      | error e => exact .nil
      | ok inputs =>
        rw [Attempt.ok_bind]
        cases inputs.mapM (detectedIn w (.ofConfig config)) with
        | error e => exact .nil
        | ok done => exact Report.detectedLines_lines _ _ _
  | languages =>
    rw [performed]
    cases configOf w values with
    | error e => exact .nil
    | ok config => exact Report.configuredLines_lines _ _ _ _
  | version => exact Report.versionLines_lines _ _

def formatOf (w : World) (command : Command) (arguments : List Text) : OutputFormat :=
  match (Scope.command command).read arguments with
  | .error _ => .default
  | .ok a =>
    match readValues w.files (.command command) a with
    | .error _ => .default
    | .ok values => values.format

theorem escape_help (command : Command) : Terminal.escape ∉ (Scope.command command).help := by
  cases command <;> decide +kernel

theorem answered_lines (w : World) (verbosity : Int) (command : Command) (arguments : List Text) :
    LinesIn (formatOf w command arguments) (linesOf (answered w verbosity command arguments)) := by
  rw [answered, formatOf]
  cases (Scope.command command).read arguments with
  | error e => exact .nil
  | ok a =>
    by_cases hhelp : a.has .help = true
    · simp only [hhelp, if_true]
      exact .single (escape_help command)
    · simp only [hhelp, Bool.false_eq_true, if_false]
      cases readValues w.files (.command command) a with
      | error e => cases e <;> exact .nil
      | ok values =>
        simp only []
        split_ifs with hextra
        · exact .nil
        · exact performed_lines w verbosity values command a.positionals

end Lines

/-- Color is additive up to sequences that cross a seam. -/
theorem color_additive {w w' : World} {arguments arguments' rest : List Text}
    {a a' : Arguments OptionKey} {s s' : Session} {command : Command} (h : Twins w w' a a')
    (hr : Reaches w arguments a s command rest) (hr' : Reaches w' arguments' a' s' command rest)
    (hc : s.console.color = true) (hc' : s'.console.color = false) :
    let lines := linesOf (answered w s.verbosity command rest)
    let colored := (run w arguments).output
    let plain := (run w' arguments').output
    (run w' arguments').ending = (run w arguments).ending ∧
    colored = StyledLine.output ⟨true⟩ lines ∧ plain = StyledLine.printed Sequences.control lines ∧
    ((formatOf w command rest).isMachine = true → plain = colored ∧ Terminal.escape ∉ colored) ∧
    (formatOf w command rest = .markdown → plain = Terminal.strip colored) ∧
    (plain = Terminal.strip colored ↔ ∀ l ∈ lines, Sequences.control.Separate l.fragments) ∧
    StyledLine.printed Sequences.lettered lines = Sequences.lettered.remove colored := by
  have hlines := answered_lines w s.verbosity command rest
  have hcolored := run_shows hr
  have hplain := run_shows hr'
  have hconsole : s.console = ⟨true⟩ := congrArg Console.mk hc
  have hconsole' : s'.console = ⟨false⟩ := congrArg Console.mk hc'
  rw [h.verbosity hr hr', h.answered, hconsole'] at hplain
  rw [hconsole] at hcolored
  have houtput : (run w arguments).output =
      StyledLine.output ⟨true⟩ (linesOf (answered w s.verbosity command rest)) := hcolored.output
  have houtput' : (run w' arguments').output =
      StyledLine.printed Sequences.control (linesOf (answered w s.verbosity command rest)) :=
    hplain.output.trans (StyledLine.output_plain _)
  have hstrip : (run w' arguments').output = Terminal.strip (run w arguments).output ↔
      ∀ l ∈ linesOf (answered w s.verbosity command rest),
        Sequences.control.Separate l.fragments := by
    rw [houtput, houtput', ← Sequences.remove_control]
    exact StyledLine.printed_iff
  refine ⟨hplain.ending.trans hcolored.ending.symm, houtput, houtput', ?_, ?_, hstrip, ?_⟩
  · intro hmachine
    have hinert := hlines.inert hmachine
    rw [hplain.output, hcolored.output, shown, shown, Report.output_inert hinert,
      Report.output_inert hinert]
    exact ⟨rfl, Report.escape_inert hinert⟩
  · intro hmarkdown
    refine hstrip.mpr fun l hl => (hlines.text ?_ l hl).separate
    rw [hmarkdown]
    decide
  · rw [houtput]
    exact StyledLine.printed_iff.mpr hlines.separate

def unfinishedName : Text := "\x1b["

def unfinishedWorld : World := .ofFiles ⟨fun t =>
  if t = unfinishedName then .regular (Utf8.encode "#!/bin/bash\n") else .refused .noEntry⟩

theorem unfinished_colored : Reaches unfinishedWorld ["--color", "always", "scan", unfinishedName]
    ⟨[(.color, "always")], ["scan", unfinishedName]⟩ (.ofColor true) .scan
    [unfinishedName] where
  read := by decide +kernel
  command := ⟨_, rfl, by decide +kernel⟩
  help := rfl
  session := ⟨_, rfl, rfl⟩

theorem unfinished_plain : Reaches unfinishedWorld ["--no-color", "scan", unfinishedName]
    ⟨[(.noColor, [])], ["scan", unfinishedName]⟩ (.ofColor false) .scan
    [unfinishedName] where
  read := by decide +kernel
  command := ⟨_, rfl, by decide +kernel⟩
  help := rfl
  session := ⟨_, rfl, rfl⟩

theorem unfinished_twins : Twins unfinishedWorld unfinishedWorld
    ⟨[(.color, "always")], ["scan", unfinishedName]⟩ ⟨[(.noColor, [])], ["scan", unfinishedName]⟩ :=
  ⟨rfl, rfl, rfl, rfl, rfl⟩

/-- Both runs end alike, and a console that removed only sequences with a letter at their end would
print the line of the one in color without them. -/
theorem color_unfinished :
    (run unfinishedWorld ["--no-color", "scan", unfinishedName]).ending =
      (run unfinishedWorld ["--color", "always", "scan", unfinishedName]).ending ∧
    StyledLine.printed Sequences.lettered
        (linesOf (answered unfinishedWorld 0 .scan [unfinishedName])) =
      Sequences.lettered.remove
        (run unfinishedWorld ["--color", "always", "scan", unfinishedName]).output :=
  have h := color_additive unfinished_twins unfinished_colored unfinished_plain rfl rfl
  ⟨h.1, h.2.2.2.2.2.2⟩

/-- Without color the name takes the colon, the blank and the first letter of the tag with it. -/
theorem color_swallows :
    (run unfinishedWorld ["--no-color", "scan", unfinishedName]).output =
      "ash  (direct: /bin/bash)\n" ∧
    Sequences.lettered.remove
        (run unfinishedWorld ["--color", "always", "scan", unfinishedName]).output =
      "\x1b[: bash  (direct: /bin/bash)\n" ∧
    (run unfinishedWorld ["--no-color", "scan", unfinishedName]).output ≠
      Sequences.lettered.remove
        (run unfinishedWorld ["--color", "always", "scan", unfinishedName]).output := by
  have hplain : (run unfinishedWorld ["--no-color", "scan", unfinishedName]).output =
      "ash  (direct: /bin/bash)\n" := by decide +kernel
  have hcolored : Sequences.lettered.remove
      (run unfinishedWorld ["--color", "always", "scan", unfinishedName]).output =
      "\x1b[: bash  (direct: /bin/bash)\n" := by decide +kernel
  refine ⟨hplain, hcolored, ?_⟩
  rw [hplain, hcolored]
  decide

end Shebang.CommandLine
