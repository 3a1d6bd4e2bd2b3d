import Shebang.Proofs.Commands
import Shebang.Proofs.LogLevel

/-!
Runs that end as soon as they open the log. Nothing but the level in the environment makes a run end
over a numeral, so it does exactly if its arguments get it to open the log and that level is
refused.
-/

namespace Shebang.CommandLine

open Text (NumeralError)

variable {α β : Type} {w : World} {arguments : List Text} {e : NumeralError}

def Numberless (x : Except Ending α) : Prop := ∀ e, x ≠ .error (.fault (.numeral e))

/-- The arguments for the program are accepted, and a command exists that they name or they name
none, so that the log is opened. -/
structure OpensLog (w : World) (arguments : List Text) (a : Arguments OptionKey)
    (values : OptionValues) : Prop where
  read : Scope.program.read arguments = .ok a
  help : a.has .help = false
  accepted : readValues w.files .program a = .ok values
  verbosity : ∃ verbosity, verbosityLevel values.verbose values.quiet = .ok verbosity
  command : ∀ name ∈ a.positionals.head?, ∃ command, Command.ofName? name = some command

section Numberless

theorem Numberless.ok (a : α) : Numberless (.ok a) := nofun

theorem Numberless.exit (code : Nat) : Numberless (.error (.exit code) : Except Ending α) := nofun

theorem Numberless.load (cause : LoadError) :
    Numberless (.error (.fault (.load cause)) : Except Ending α) := nofun

theorem Numberless.bind {x : Except Ending α} {f : α → Except Ending β} (hx : Numberless x)
    (hf : ∀ a, Numberless (f a)) : Numberless (x >>= f) := by
  intro e he
  rcases Attempt.bind_eq_error.mp he with hx' | ⟨a, -, ha⟩
  · exact hx e hx'
  · exact hf a e ha

theorem bind_eq_numeral {x : Except Ending α} {f : α → Except Ending β}
    (hf : ∀ a, Numberless (f a)) :
    (x >>= f) = .error (.fault (.numeral e)) ↔ x = .error (.fault (.numeral e)) := by
  rw [Attempt.bind_eq_error, or_iff_left]
  rintro ⟨a, -, ha⟩
  exact hf a e ha

theorem Numberless.mapM {ι : Type} {f : ι → Except Ending α} (h : ∀ i, Numberless (f i))
    (is : List ι) : Numberless (is.mapM f) := by
  intro e he
  obtain ⟨-, i, -, -, -, hi⟩ := Attempt.mapM_eq_error he
  exact h i e hi

theorem inputsOf_numberless (paths : List Text) : Numberless (inputsOf paths) := by
  rw [inputsOf]
  cases requireInputs paths with
  | ok inputs => exact .ok inputs
  | error cause => exact .exit _

theorem configOf_numberless (w : World) (values : OptionValues) :
    Numberless (configOf w values) := by
  rw [configOf]
  cases (Config.resolve w.files w.toml (requested w values)).outcome with
  | ok config => exact .ok config
  | error cause =>
    cases cause <;> first | exact .exit _ | exact .load _

theorem performed_numberless (w : World) (verbosity : Int) (values : OptionValues)
    (command : Command) (paths : List Text) :
    Numberless (performed w verbosity values command paths) := by
  cases command with
  | scan =>
    refine (inputsOf_numberless paths).bind fun inputs => ?_
    refine (Numberless.mapM (fun argument e he => ?_) inputs).bind fun done => .ok _
    obtain ⟨cause, hcause⟩ := scanned_error he
    cases hcause
  | detect =>
    refine (configOf_numberless w values).bind fun config => ?_
    refine (inputsOf_numberless paths).bind fun inputs => ?_
    refine (Numberless.mapM (fun argument e he => ?_) inputs).bind fun done => .ok _
    obtain ⟨cause, hcause⟩ := detectedIn_error he
    cases hcause
  | languages => exact (configOf_numberless w values).bind fun config => .ok _
  | version => exact .ok _

theorem answered_numberless (w : World) (verbosity : Int) (command : Command)
    (arguments : List Text) : Numberless (answered w verbosity command arguments) := by
  rw [answered]
  cases (Scope.command command).read arguments with
  | error cause => exact .exit _
  | ok a =>
    dsimp only
    by_cases hhelp : a.has .help = true
    · rw [if_pos hhelp]
      exact .ok _
    · rw [if_neg hhelp]
      cases readValues w.files (.command command) a with
      | error cause =>
        cases cause with
        | usage cause => exact .exit _
        | embeddedNul => exact .load _
      | ok values =>
        dsimp only
        split_ifs with hextra
        · exact .exit _
        · exact performed_numberless w verbosity values command a.positionals

theorem ending_eq_fault {x : Program ExitCode} {cause : Fault} :
    (Outcome.ofProgram x).ending = .fault cause ↔ x.value = .error (.fault cause) := by
  have hvalue : (ExceptT.run x).value = x.value := rfl
  rw [Outcome.ofProgram, hvalue]
  cases x.value with
  | ok code => simp
  | error ending => simp

theorem runCommand_numberless (w : World) (s : Session) (command : Command)
    (arguments : List Text) : Numberless (runCommand w s command arguments).value := by
  intro e he
  have hending := (runCommand_shows w s command arguments).ending
  rw [ending_eq_fault.mpr he] at hending
  cases hanswered : answered w s.verbosity command arguments with
  | ok report =>
    rw [hanswered] at hending
    cases hending
  | error ending =>
    rw [hanswered] at hending
    obtain rfl : Ending.fault (.numeral e) = ending := hending
    exact answered_numberless w s.verbosity command arguments e hanswered

theorem readScope_numberless (w : World) (color : Bool) (scope : Scope) (arguments : List Text) :
    Numberless (readScope w color scope arguments).value := by
  rcases readScope_cases w color scope arguments with ⟨code, h⟩ | h | ⟨a, values, -, -, -, h⟩
  · exact h ▸ .exit code
  · exact h ▸ .load _
  · exact h ▸ .ok _

theorem unknownCommand_numberless (w : World) (name : Text) (rest : List Text) :
    Numberless (unknownCommand w name rest).value := by
  rw [unknownCommand]
  split
  · rw [Program.value_bind]
    exact (readScope_numberless w false .program (name :: rest)).bind fun _ => .exit _
  · exact .exit _

end Numberless

theorem openLog_eq_error {level : Option Text} :
    openLog level = .error e ↔ Log.parseLevel level = .error e := by
  have hsetup : ∀ given, Log.parseLevel level = .ok given →
      Log.setup (given.map Int.ofNat) level ≠ .error e := by
    rintro (_ | n) hlevel
    · rw [Option.map_none, Log.setup, hlevel]
      exact nofun
    · exact nofun
  rw [openLog, Attempt.bind_eq_error, or_iff_left]
  rintro ⟨given, hlevel, he⟩
  exact hsetup given hlevel he

theorem openSession_eq_fault {values : OptionValues} :
    (openSession w values).value = .error (.fault (.numeral e)) ↔
      (∃ verbosity, verbosityLevel values.verbose values.quiet = .ok verbosity) ∧
        Log.parseLevel w.environment.logLevel = .error e := by
  rw [openSession, ← openLog_eq_error]
  cases verbosityLevel values.verbose values.quiet with
  | error cause =>
    constructor
    · intro h
      cases h
    · rintro ⟨⟨verbosity, h⟩, -⟩
      cases h
  | ok verbosity =>
    rw [and_iff_right ⟨verbosity, rfl⟩]
    cases openLog w.environment.logLevel with
    | error cause =>
      constructor
      · intro h
        cases h
        rfl
      · intro h
        cases h
        rfl
    | ok log =>
      constructor
      · intro h
        cases h
      · intro h
        cases h

/-- Behind the arguments of the program, only the session can end a run over a numeral, and it is
opened unless a command is named that does not exist. -/
theorem program_eq_fault : (program w arguments).value = .error (.fault (.numeral e)) ↔
    ∃ values rest, (readScope w false .program arguments).value = .ok (values, rest) ∧
      (∀ name ∈ rest.head?, ∃ command, Command.ofName? name = some command) ∧
        (openSession w values).value = .error (.fault (.numeral e)) := by
  rw [program, Program.value_bind, Attempt.bind_eq_error,
    or_iff_right (readScope_numberless w false .program arguments e), Prod.exists]
  refine exists_congr fun values => exists_congr fun rest => and_congr_right fun _ => ?_
  cases rest with
  | nil =>
    dsimp only
    rw [Program.value_bind]
    refine (bind_eq_numeral fun s => .ok ExitCode.success).trans ?_
    simp
  | cons name rest =>
    cases hname : Command.ofName? name with
    | none =>
      simp only [hname]
      refine iff_of_false (unknownCommand_numberless w name rest e) ?_
      rintro ⟨h, -⟩
      obtain ⟨command, hc⟩ := h name rfl
      rw [hname] at hc
      cases hc
    | some command =>
      simp only [hname]
      rw [Program.value_bind, bind_eq_numeral fun s => runCommand_numberless w s command rest,
        and_iff_right]
      rintro _ ⟨rfl⟩
      exact ⟨command, hname⟩

theorem run_eq_fault : (run w arguments).ending = .fault (.numeral e) ↔
    (∃ a values, OpensLog w arguments a values) ∧
      Log.parseLevel w.environment.logLevel = .error e := by
  rw [run, ending_eq_fault, program_eq_fault]
  constructor
  · rintro ⟨values, rest, hread, hcommand, hsession⟩
    obtain ⟨a, hargs, hhelp, hvalues, rfl⟩ := readScope_eq_ok.mp hread
    obtain ⟨hverbosity, hlevel⟩ := openSession_eq_fault.mp hsession
    exact ⟨⟨a, values, hargs, hhelp, hvalues, hverbosity, hcommand⟩, hlevel⟩
  · rintro ⟨⟨a, values, h⟩, hlevel⟩
    refine ⟨values, a.positionals, ?_, h.command, openSession_eq_fault.mpr ⟨h.verbosity, hlevel⟩⟩
    exact readScope_eq_ok.mpr ⟨a, h.read, h.help, h.accepted, rfl⟩

/-- The level of the environment is a numeral or a name, and every other text is none, but for the
refused ones. A run ends over such a text exactly if it opens the log. -/
theorem logLevel_read (value : Text) (w : World) (arguments : List Text) :
    (∀ n, Log.parseLevel (some value) = .ok (some n) ↔ Log.Means (value.trim Text.isBlank) n) ∧
    (∀ e, Log.parseLevel (some value) = .error e ↔ Log.Refused (value.trim Text.isBlank) e) ∧
    (Log.parseLevel (some value) = .ok none ↔
      (∀ n, ¬ Log.Means (value.trim Text.isBlank) n) ∧
        ∀ e, ¬ Log.Refused (value.trim Text.isBlank) e) ∧
    ∀ e, (run w arguments).ending = .fault (.numeral e) ↔
      (∃ a values, OpensLog w arguments a values) ∧
        ∃ level, w.environment.logLevel = some level ∧
          Log.Refused (level.trim Text.isBlank) e := by
  refine ⟨fun _ => Log.parseLevel_eq_some, fun _ => Log.parseLevel_eq_error,
    Log.parseLevel_eq_none, fun e => ?_⟩
  rw [run_eq_fault]
  refine and_congr_right fun _ => ?_
  cases w.environment.logLevel with
  | none => exact iff_of_false nofun nofun
  | some level => simp [Log.parseLevel_eq_error]

def levelWorld (level : Text) : World :=
  { World.ofFiles ⟨fun _ => .refused .noEntry⟩ with environment := ⟨none, none, some level⟩ }

/-- A superscript digit and a numeral that is too long are read with an error, and a run ends there
that has nothing to do with numerals. -/
theorem logLevel_refused :
    Log.parseLevel (some "²") = .error (.notDecimal "²") ∧
    Log.parseLevel (some (List.replicate 4301 '0')) = .error (.tooLong 4301) ∧
    (run (levelWorld "²") ["version"]).ending = .fault (.numeral (.notDecimal "²")) := by
  decide +kernel

end Shebang.CommandLine
