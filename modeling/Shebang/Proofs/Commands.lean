import Shebang.Proofs.Runs
import Shebang.Proofs.StyledLines
import Shebang.Proofs.Surfacing

/-!
What the commands come to, without the console and the log: each yields the lines of its report and
an exit code, or ends the run before it prints anything.
-/

namespace Shebang.CommandLine

def Ending.notOpened (e : OpenError) : Ending := .fault (.load (.notOpened e))

def scanned (w : World) (argument : Text) : Except Ending (Except ExitCode ScanItem) :=
  match readInput w.files w.stdin argument with
  | .error .embeddedNul => .error (.notOpened .embeddedNul)
  | .error (.failed failure) => .ok (.error failure.exitCode)
  | .ok text => .ok (.ok ⟨inputLabel argument, recognize text⟩)

def detectedIn (w : World) (registry : Registry) (argument : Text) :
    Except Ending (Except ExitCode DetectedFile) :=
  match w.files.isFile (Path.ofText argument) with
  | .error e => .error (.notOpened e)
  | .ok false => .ok (.error .fileNotFound)
  | .ok true =>
    match (registry.detect w.files (Path.ofText argument)).outcome with
    | .ok language => .ok (.ok ⟨argument, language⟩)
    | .error (.notOpened e) => .error (.notOpened e)
    | .error _ => .ok (.error .unsupportedFileType)

section Ends

variable {w : World} {registry : Registry} {argument : Text} {e : Ending}

theorem scanned_error (h : scanned w argument = .error e) : ∃ cause, e = .notOpened cause := by
  rw [scanned] at h
  cases hr : readInput w.files w.stdin argument with
  | ok text =>
    rw [hr] at h
    cases h
  | error cause =>
    rw [hr] at h
    cases cause with
    | embeddedNul => exact ⟨_, (Except.error.inj h).symm⟩
    | failed failure => cases h

theorem detectedIn_error (h : detectedIn w registry argument = .error e) :
    ∃ cause, e = .notOpened cause := by
  rw [detectedIn] at h
  cases hf : w.files.isFile (.ofText argument) with
  | error cause =>
    rw [hf] at h
    exact ⟨cause, (Except.error.inj h).symm⟩
  | ok found =>
    rw [hf] at h
    cases found with
    | false => cases h
    | true =>
      cases hd : (registry.detect w.files (.ofText argument)).outcome with
      | ok language =>
        simp only [hd] at h
        cases h
      | error cause =>
        simp only [hd] at h
        cases cause with
        | notOpened cause => exact ⟨cause, (Except.error.inj h).symm⟩
        | unknownExtension p x => cases h
        | noExtension p => cases h

end Ends

def inputsOf (paths : List Text) : Except Ending (List Text) :=
  (requireInputs paths).mapError fun e => .exit (CommandError.inputs e).exitCode.code

def configOf (w : World) (values : OptionValues) : Except Ending Config :=
  match (Config.resolve w.files w.toml (requested w values)).outcome with
  | .ok config => .ok config
  | .error (.config _) => .error (.exit 78)
  | .error e => .error (.fault (.load e))

def scanReport (verbosity : Int) (values : OptionValues) (done : List (Except ExitCode ScanItem)) :
    List StyledLine × ExitCode :=
  (if 0 ≤ verbosity ∨ values.format ≠ .default then
    Report.scanLines values.format (values.nodes || 0 < verbosity) (results done)
  else [], ExitCode.worst (failures done))

def detectReport (verbosity : Int) (values : OptionValues)
    (done : List (Except ExitCode DetectedFile)) : List StyledLine × ExitCode :=
  (Report.detectedLines values.format verbosity (results done), ExitCode.worst (failures done))

def performed (w : World) (verbosity : Int) (values : OptionValues) (command : Command)
    (paths : List Text) : Except Ending (List StyledLine × ExitCode) :=
  match command with
  | .scan => do
    let inputs ← inputsOf paths
    let done ← inputs.mapM (scanned w)
    pure (scanReport verbosity values done)
  | .detect => do
    let config ← configOf w values
    let inputs ← inputsOf paths
    let done ← inputs.mapM (detectedIn w (.ofConfig config))
    pure (detectReport verbosity values done)
  | .languages => do
    let config ← configOf w values
    let languages := (Registry.ofConfig config).languages
    pure (Report.configuredLines values.format verbosity config languages, .success)
  | .version => .ok (Report.versionLines values.format verbosity, .success)

def perform (w : World) (s : Session) (values : OptionValues) (command : Command)
    (paths : List Text) : Program ExitCode :=
  match command with
  | .scan => scan w s values paths
  | .detect => detect w s values paths
  | .languages => languages w s values
  | .version => showVersion s values

def linesOf : Except Ending (List StyledLine × ExitCode) → List StyledLine
  | .ok (lines, _) => lines
  | .error _ => []

def shown (c : Console) (r : Except Ending (List StyledLine × ExitCode)) : Text :=
  StyledLine.output c (linesOf r)

/-- The program prints the lines and yields the exit code, or ends as said and prints nothing. -/
structure Yields (s : Session) (x : Program ExitCode)
    (r : Except Ending (List StyledLine × ExitCode)) : Prop where
  value : x.value = r.map Prod.snd
  output : x.written Emission.outText = shown s.console r

section Steps

variable {w : World} {s : Session} {values : OptionValues} {α : Type}

theorem Yields.bind {x : Program α} {y : Except Ending α} {f : α → Program ExitCode}
    {r : α → Except Ending (List StyledLine × ExitCode)} (hvalue : x.value = y)
    (hquiet : x.written Emission.outText = []) (hf : ∀ a, Yields s (f a) (r a)) :
    Yields s (x >>= f) (y >>= r) := by
  subst hvalue
  constructor
  · rw [Program.value_bind]
    cases x.value with
    | ok a => exact (hf a).value
    | error e => rfl
  · rw [Program.written_bind, hquiet]
    cases x.value with
    | ok a => exact (hf a).output
    | error e => rfl

theorem Yields.print {texts : List Text} {lines : List StyledLine} (code : ExitCode)
    (h : texts = lines.map (StyledLine.on s.console)) :
    Yields s (s.print texts >>= fun _ => pure code) (.ok (lines, code)) := by
  constructor
  · rfl
  · rw [Program.written_bind_ok (s.value_print texts), s.output_print, h, List.map_map,
      Program.written_pure, List.append_nil]
    rfl

theorem value_scanInput (w : World) (s : Session) (argument : Text) :
    (scanInput w s argument).value = scanned w argument := by
  rw [scanInput, scanned]
  cases readInput w.files w.stdin argument with
  | error e => cases e <;> rfl
  | ok text => rfl

theorem output_scanInput (w : World) (s : Session) (argument : Text) :
    (scanInput w s argument).written Emission.outText = [] := by
  rw [scanInput]
  cases readInput w.files w.stdin argument with
  | error e =>
    cases e with
    | embeddedNul => rfl
    | failed failure =>
      refine Program.quiet_bind (s.output_record _) fun _ => ?_
      exact Program.quiet_bind (s.output_error _) fun _ => Program.written_pure _
  | ok text =>
    refine Program.quiet_bind (s.output_traced _) fun _ => ?_
    exact Program.quiet_bind (s.output_record _) fun _ => Program.written_pure _

theorem value_detectInput (w : World) (s : Session) (registry : Registry) (argument : Text) :
    (detectInput w s registry argument).value = detectedIn w registry argument := by
  rw [detectInput, detectedIn]
  cases w.files.isFile (Path.ofText argument) with
  | error e => rfl
  | ok found =>
    cases found with
    | false => rfl
    | true =>
      simp only [Program.value_bind, s.value_attempt, Attempt.ok_bind]
      cases (registry.detect w.files (Path.ofText argument)).outcome with
      | ok language => rfl
      | error e => cases e <;> rfl

theorem output_detectInput (w : World) (s : Session) (registry : Registry) (argument : Text) :
    (detectInput w s registry argument).written Emission.outText = [] := by
  rw [detectInput]
  cases w.files.isFile (Path.ofText argument) with
  | error e => rfl
  | ok found =>
    cases found with
    | false => exact Program.quiet_bind (s.output_error _) fun _ => Program.written_pure _
    | true =>
      refine Program.quiet_bind (s.output_attempt _) fun outcome => ?_
      cases outcome with
      | ok language => rfl
      | error e => cases e <;> rfl

theorem value_required (s : Session) (paths : List Text) :
    (required s paths).value = inputsOf paths := by
  rw [required, inputsOf]
  cases requireInputs paths <;> rfl

theorem output_required (s : Session) (paths : List Text) :
    (required s paths).written Emission.outText = [] := by
  rw [required]
  cases requireInputs paths <;> rfl

theorem output_loadConfig (w : World) (s : Session) (values : OptionValues) :
    (loadConfig w s values).written Emission.outText = [] := by
  refine Program.quiet_bind (s.output_attempt _) fun outcome => ?_
  cases outcome with
  | ok config => rfl
  | error e => cases e <;> rfl

end Steps

theorem perform_yields (w : World) (s : Session) (values : OptionValues) (command : Command)
    (paths : List Text) :
    Yields s (perform w s values command paths)
      (performed w s.verbosity values command paths) := by
  have hconfig : (loadConfig w s values).value = configOf w values := loadConfig_value w s values
  cases command with
  | scan =>
    refine Yields.bind (value_required s paths) (output_required s paths) fun inputs => ?_
    refine Yields.bind ?_ (Program.quiet_mapM fun argument _ => output_scanInput w s argument) ?_
    · rw [Program.value_mapM]
      simp only [value_scanInput]
    · intro done
      rw [scanReport]
      split_ifs with h
      · exact Yields.print _ (Report.scan_shown _ _ _ _)
      · exact ⟨rfl, rfl⟩
  | detect =>
    refine Yields.bind hconfig (output_loadConfig w s values) fun config => ?_
    refine Yields.bind (value_required s paths) (output_required s paths) fun inputs => ?_
    refine Yields.bind ?_
      (Program.quiet_mapM fun argument _ => output_detectInput w s _ argument) ?_
    · rw [Program.value_mapM]
      simp only [value_detectInput]
    · intro done
      exact Yields.print _ (Report.detected_shown _ _ _ _)
  | languages =>
    refine Yields.bind hconfig (output_loadConfig w s values) fun config => ?_
    exact Yields.print _ (Report.configured_shown _ _ _ _ _)
  | version => exact Yields.print _ (Report.versionOf_shown _ _ _)

section Run

variable {w : World} {s : Session} {command : Command} {rest : List Text}

/-- What the arguments of a command come to: a report, the help of the command, or an error in
them. -/
def answered (w : World) (verbosity : Int) (command : Command) (arguments : List Text) :
    Except Ending (List StyledLine × ExitCode) :=
  match (Scope.command command).read arguments with
  | .error _ => .error (.exit UsageError.code)
  | .ok a =>
    if a.has .help then .ok ([.ofText (Scope.command command).help], .success)
    else match readValues w.files (.command command) a with
      | .error (.usage _) => .error (.exit UsageError.code)
      | .error .embeddedNul => .error (.notOpened .embeddedNul)
      | .ok values =>
        if !command.takesPaths ∧ a.positionals ≠ [] then .error (.exit UsageError.code)
        else performed w verbosity values command a.positionals

def endingOf : Except Ending (List StyledLine × ExitCode) → Ending
  | .ok (_, code) => .exit code.code
  | .error e => e

structure Outcome.Shows (o : Outcome) (c : Console)
    (r : Except Ending (List StyledLine × ExitCode)) : Prop where
  ending : o.ending = endingOf r
  output : o.output = shown c r

theorem Yields.shows {x : Program ExitCode} {r : Except Ending (List StyledLine × ExitCode)}
    (h : Yields s x r) : (Outcome.ofProgram x).Shows s.console r := by
  refine ⟨?_, h.output⟩
  have hvalue : (ExceptT.run x).value = r.map Prod.snd := h.value
  rw [Outcome.ofProgram, hvalue]
  cases r with
  | ok r => rfl
  | error e => rfl

section ReadScope

variable {α : Type} {color : Bool} {scope : Scope} {arguments : List Text}
  {a : Arguments OptionKey}

theorem readScope_error {e : ArgumentError} (h : scope.read arguments = .error e) :
    readScope w color scope arguments = Program.usageError color scope (.argument e) := by
  simp only [readScope, h]

theorem readScope_help (h : scope.read arguments = .ok a) (hhelp : a.has .help = true) :
    readScope w color scope arguments =
      (Program.emit [(Console.mk color).printLine scope.help] >>= fun _ =>
        throw (.exit ExitCode.success.code)) := by
  simp only [readScope, h, hhelp, if_true]
  rfl

theorem readScope_values (h : scope.read arguments = .ok a) (hhelp : a.has .help = false) :
    readScope w color scope arguments =
      match readValues w.files scope a with
      | .error (.usage e) => Program.usageError color scope e
      | .error .embeddedNul => Program.fail (.load (.notOpened .embeddedNul))
      | .ok values => pure (values, a.positionals) := by
  rw [readScope, h]
  exact if_neg (Bool.eq_false_iff.mp hhelp)

theorem readScope_cases (w : World) (color : Bool) (scope : Scope) (arguments : List Text) :
    (∃ code, (readScope w color scope arguments).value = .error (.exit code)) ∨
    (readScope w color scope arguments).value = .error (.notOpened .embeddedNul) ∨
    ∃ a values, scope.read arguments = .ok a ∧ a.has .help = false ∧
      readValues w.files scope a = .ok values ∧
        (readScope w color scope arguments).value = .ok (values, a.positionals) := by
  cases hread : scope.read arguments with
  | error cause => exact .inl ⟨UsageError.code, by rw [readScope_error hread]; rfl⟩
  | ok a =>
    cases hhelp : a.has .help with
    | true => exact .inl ⟨ExitCode.success.code, by rw [readScope_help hread hhelp]; rfl⟩
    | false =>
      rw [readScope_values hread hhelp]
      cases hvalues : readValues w.files scope a with
      | error cause =>
        cases cause with
        | usage cause => exact .inl ⟨UsageError.code, rfl⟩
        | embeddedNul => exact .inr (.inl rfl)
      | ok values => exact .inr (.inr ⟨a, values, rfl, hhelp, hvalues, rfl⟩)

theorem readScope_eq_ok {values : OptionValues} {rest : List Text} :
    (readScope w color scope arguments).value = .ok (values, rest) ↔
      ∃ a, scope.read arguments = .ok a ∧ a.has .help = false ∧
        readValues w.files scope a = .ok values ∧ a.positionals = rest := by
  constructor
  · intro hok
    rcases readScope_cases w color scope arguments with
      ⟨code, h⟩ | h | ⟨a, given, hread, hhelp, hvalues, h⟩
    · exact nomatch hok.symm.trans h
    · exact nomatch hok.symm.trans h
    · cases hok.symm.trans h
      exact ⟨a, hread, hhelp, hvalues, rfl⟩
  · rintro ⟨a, hread, hhelp, hvalues, rfl⟩
    rw [readScope_values hread hhelp, hvalues]
    rfl

end ReadScope

theorem runCommand_shows (w : World) (s : Session) (command : Command) (arguments : List Text) :
    (Outcome.ofProgram (runCommand w s command arguments)).Shows s.console
      (answered w s.verbosity command arguments) := by
  rw [answered]
  cases hread : (Scope.command command).read arguments with
  | error e =>
    rw [runCommand, readScope_error hread]
    exact ⟨rfl, rfl⟩
  | ok a =>
    cases hhelp : a.has .help with
    | true =>
      rw [runCommand, readScope_help hread hhelp]
      simp only [hhelp, if_true]
      refine ⟨rfl, ?_⟩
      rw [shown, linesOf, StyledLine.output, List.map_singleton, Report.on_ofText]
      rfl
    | false =>
      rw [runCommand, readScope_values hread hhelp]
      simp only [hhelp, Bool.false_eq_true, if_false]
      cases readValues w.files (.command command) a with
      | error e =>
        cases e with
        | usage e => exact ⟨rfl, rfl⟩
        | embeddedNul => exact ⟨rfl, rfl⟩
      | ok values =>
        simp only [pure_bind]
        split_ifs with hextra
        · exact ⟨rfl, rfl⟩
        · have hyields := perform_yields w s values command a.positionals
          cases command <;> exact hyields.shows

/-- The arguments are read and accepted up to a command, and its session is open. -/
structure Reaches (w : World) (arguments : List Text) (a : Arguments OptionKey) (s : Session)
    (command : Command) (rest : List Text) : Prop where
  read : Scope.program.read arguments = .ok a
  command : ∃ name, a.positionals = name :: rest ∧ Command.ofName? name = some command
  help : a.has .help = false
  session : ∃ values, readValues w.files .program a = .ok values ∧
    (openSession w values).value = .ok s

variable {arguments : List Text} {a : Arguments OptionKey} {values : OptionValues}

theorem openSession_eq (h : (openSession w values).value = .ok s) :
    openSession w values = pure s ∧ verbosityLevel values.verbose values.quiet = .ok s.verbosity ∧
      openLog w.environment.logLevel = .ok s.log ∧ s.places = w.places := by
  rw [openSession] at h ⊢
  cases hv : verbosityLevel values.verbose values.quiet with
  | error e =>
    rw [hv] at h
    cases h
  | ok verbosity =>
    cases hl : openLog w.environment.logLevel with
    | error e =>
      simp only [hv, hl] at h
      cases h
    | ok log =>
      simp only [hv, hl] at h ⊢
      cases h
      exact ⟨rfl, rfl, rfl, rfl⟩

theorem run_reached (h : Reaches w arguments a s command rest) :
    run w arguments = .ofProgram (runCommand w s command rest) := by
  obtain ⟨name, hpositionals, hname⟩ := h.command
  obtain ⟨values, hvalues, hsession⟩ := h.session
  have hopen := (openSession_eq hsession).1
  rw [run, program, readScope_values h.read h.help, hvalues]
  simp only [pure_bind, hpositionals, hname, hopen]

theorem run_shows (h : Reaches w arguments a s command rest) :
    (run w arguments).Shows s.console (answered w s.verbosity command rest) := by
  rw [run_reached h]
  exact runCommand_shows w s command rest

end Run

end Shebang.CommandLine
