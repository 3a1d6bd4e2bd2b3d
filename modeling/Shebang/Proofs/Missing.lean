import Shebang.Proofs.Composition

/-!
Paths at which there is no file. Both commands report every such path and have no result for it. The
command that looks for languages takes all of them for missing files, unless the system does not
answer for one of them; the command that reads scripts does so only where there is nothing or a
directory.
-/

namespace Shebang

namespace ExitCode

variable {code : ExitCode} {codes : List ExitCode}

theorem worst_cons (code : ExitCode) (codes : List ExitCode) :
    (worst (code :: codes)).code = max code.code (worst codes).code := by
  have happend := worst_append [code] codes
  rwa [List.singleton_append, code_worst [code], List.map_singleton, List.foldl_cons,
    List.foldl_nil, Nat.zero_max] at happend

theorem worst_le {n : Nat} (h : ∀ c ∈ codes, c.code ≤ n) : (worst codes).code ≤ n := by
  induction codes with
  | nil => exact Nat.zero_le n
  | cons first rest ih =>
    obtain ⟨hfirst, hrest⟩ := List.forall_mem_cons.mp h
    rw [worst_cons]
    exact Nat.max_le.mpr ⟨hfirst, ih hrest⟩

theorem le_worst (h : code ∈ codes) : code.code ≤ (worst codes).code := by
  induction codes with
  | nil => cases h
  | cons first rest ih =>
    rw [worst_cons]
    rcases List.mem_cons.mp h with rfl | h
    · exact Nat.le_max_left _ _
    · exact Nat.le_trans (ih h) (Nat.le_max_right _ _)

theorem worst_of_le (code : ExitCode) (hmem : code ∈ codes)
    (hle : ∀ c ∈ codes, c.code ≤ code.code) : (worst codes).code = code.code :=
  Nat.le_antisymm (worst_le hle) (le_worst hmem)

end ExitCode

namespace CommandLine

def vacancy (fs : FileSystem) (path : Text) : Option Refusal :=
  match fs.lookup (Path.ofText path).display with
  | .regular _ => none
  | .unopened _ => none
  | .directory why => some why
  | .refused why => some why

/-- There is no file, and the reason is not that nothing or a directory is there: the path runs
through a file or in a circle, or it is too long. -/
def Untraceable (fs : FileSystem) (path : Text) : Prop :=
  ∃ why, vacancy fs path = some why ∧ SystemFault.ofNumber why.number = .other

instance (fs : FileSystem) (path : Text) : Decidable (Untraceable fs path) :=
  inferInstanceAs (Decidable (∃ why, vacancy fs path = some why ∧ _))

/-- Paths at which there is no file, whatever the reason is, if it is not one of permissions. -/
structure Missing (w : World) (paths : List Text) : Prop where
  nonempty : paths ≠ []
  stdin : stdinMark ∉ paths
  nul : ∀ path ∈ paths, '\x00' ∉ path
  vacant : ∀ path ∈ paths, ∃ why, vacancy w.files path = some why ∧
    SystemFault.ofNumber why.number ≠ .permission

def unread (s : Session) (path : Text) (why : Refusal) : List Emission :=
  s.logLines ((InputFailure.ofRefusal why (Path.ofText path).display).diagnostic path) ++
    [s.console.errorLine (path ++ ": " ++ why.reason)]

def unfound (s : Session) (path : Text) : List Emission :=
  [s.console.errorLine (path ++ ": no such file")]

/-- Every path is reported with the reason why it cannot be read, and there is no script to report
on. The paths that are not followed make the code worse. -/
structure ReadsNothing (w : World) (s : Session) (values : OptionValues) (paths : List Text)
    (o : Outcome) : Prop where
  ending : o.ending = .exit (if ∃ path ∈ paths, Untraceable w.files path then 74 else 66)
  output : o.output = Emission.outputOf
    ((Report.scan s.console values.format (values.nodes || 0 < s.verbosity) []).map
      s.console.printLine)
  errors : o.errors = paths.flatMap fun path =>
    (vacancy w.files path).elim [] fun why => Emission.errorsOf (unread s path why)

/-- Every path is reported as a missing file, behind what the configuration has told, and there is
no file to report on. -/
structure FindsNothing (w : World) (s : Session) (values : OptionValues) (paths : List Text)
    (o : Outcome) : Prop where
  ending : o.ending = .exit 66
  output : o.output = Emission.outputOf
    ((Report.detected s.console values.format s.verbosity []).map s.console.printLine)
  errors : o.errors = (loadConfig w s values).written Emission.errText ++
    paths.flatMap fun path => Emission.errorsOf (unfound s path)

section Paths

variable {w : World} {s : Session} {values : OptionValues} {registry : Registry} {path : Text}
  {why : Refusal}

theorem vacancy_cases {fs : FileSystem} (h : vacancy fs path = some why) :
    fs.lookup (Path.ofText path).display = .directory why ∨
      fs.lookup (Path.ofText path).display = .refused why := by
  unfold vacancy at h
  cases hl : fs.lookup (Path.ofText path).display with
  | regular content =>
    rw [hl] at h
    cases h
  | unopened other =>
    rw [hl] at h
    cases h
  | directory other =>
    rw [hl] at h
    exact Or.inl (congrArg Lookup.directory (Option.some.inj h))
  | refused other =>
    rw [hl] at h
    exact Or.inr (congrArg Lookup.refused (Option.some.inj h))

theorem readInput_vacant (hstdin : path ≠ stdinMark) (hnul : '\x00' ∉ path)
    (h : vacancy w.files path = some why) : readInput w.files w.stdin path =
      .error (.failed (.ofRefusal why (Path.ofText path).display)) := by
  have hread : w.files.read (Path.ofText path) =
      .error (.refused why (Path.ofText path).display) := by
    rcases vacancy_cases h with hl | hl
    · simp [FileSystem.read, mt mem_display hnul, hl]
    · simp [FileSystem.read, mt mem_display hnul, hl]
  rw [readInput, inputBytes, if_neg hstdin, hread]
  rfl

theorem isFile_vacant (hnul : '\x00' ∉ path) (h : vacancy w.files path = some why)
    (hanswer : ¬ Unanswered w.files (Path.ofText path)) :
    w.files.isFile (Path.ofText path) = .ok false := by
  rcases vacancy_cases h with hl | hl
  · simp [FileSystem.isFile, mt mem_display hnul, hl]
  · have habsent : why.absent = true := by
      by_contra hpresent
      exact hanswer ⟨mt mem_display hnul, why, hl, Bool.eq_false_iff.mpr hpresent⟩
    simp [FileSystem.isFile, mt mem_display hnul, hl, habsent]

def codeAt (fs : FileSystem) (path : Text) : ExitCode :=
  if Untraceable fs path then .ioError else .fileNotFound

theorem settle_scan (hstdin : path ≠ stdinMark) (hnul : '\x00' ∉ path)
    (h : vacancy w.files path = some why)
    (hpermitted : SystemFault.ofNumber why.number ≠ .permission) :
    (scanBatch w s values).settle path = .error (codeAt w.files path) := by
  have hscanned : scanned w path =
      .ok (.error (InputFailure.ofRefusal why (Path.ofText path).display).exitCode) := by
    rw [scanned, readInput_vacant hstdin hnul h]
  simp only [scanBatch, hscanned, settled, codeAt, Untraceable, h, Option.some.injEq,
    exists_eq_left', InputFailure.ofRefusal]
  cases hfault : SystemFault.ofNumber why.number with
  | missing => rfl
  | directory => rfl
  | permission => exact absurd hfault hpermitted
  | other => rfl

theorem reason_ofRefusal (why : Refusal) (name : Text) :
    (InputFailure.ofRefusal why name).reason = why.reason := by
  obtain ⟨number, reason, hnamed⟩ := why
  cases reason with
  | nil => exact absurd rfl hnamed
  | cons c reason => rfl

theorem told_scan (hstdin : path ≠ stdinMark) (hnul : '\x00' ∉ path)
    (h : vacancy w.files path = some why) :
    (scanBatch w s values).told path = Emission.errorsOf (unread s path why) := by
  have hlabel : inputLabel path = path := if_neg hstdin
  have hreport : (InputFailure.ofRefusal why (Path.ofText path).display).report path =
      path ++ ": " ++ why.reason := by
    rw [InputFailure.report, reason_ofRefusal]
  simp only [scanBatch, scanInput, readInput_vacant hstdin hnul h, hlabel, hreport, Session.record,
    Session.error]
  rw [Program.written_bind_ok (Program.value_emit _),
    Program.written_bind_ok (Program.value_emit _), Program.written_emit, Program.written_emit,
    Program.written_pure, List.append_nil, unread, Emission.errorsOf, List.flatMap_append]

theorem settle_detect (h : w.files.isFile (Path.ofText path) = .ok false) :
    (detectBatch w s values registry).settle path = .error .fileNotFound := by
  simp only [detectBatch, detectedIn, h, settled]

theorem told_detect (h : w.files.isFile (Path.ofText path) = .ok false) :
    (detectBatch w s values registry).told path = Emission.errorsOf (unfound s path) := by
  simp only [detectBatch, detectInput, h]
  rfl

end Paths

section Runs

variable {α : Type} {w : World} {s : Session} {command : Command} {values : OptionValues}
  {config : Config} {settle : Text → Except ExitCode α} {code : Text → ExitCode}
  {paths arguments : List Text}

theorem results_failed (h : ∀ path ∈ paths, settle path = .error (code path)) :
    results (paths.map settle) = [] := by
  rw [results, List.filterMap_map, List.filterMap_eq_nil_iff]
  intro path hpath
  rw [Function.comp_apply, h path hpath]
  rfl

theorem failures_failed (h : ∀ path ∈ paths, settle path = .error (code path)) :
    failures (paths.map settle) = paths.map code := by
  rw [failures, List.filterMap_map, ← List.filterMap_eq_map]
  refine List.filterMap_congr fun path hpath => ?_
  rw [Function.comp_apply, h path hpath]
  rfl

theorem worst_same (c : ExitCode) (hne : paths ≠ []) (h : ∀ path ∈ paths, code path = c) :
    (ExitCode.worst (paths.map code)).code = c.code := by
  obtain ⟨path, hpath⟩ := List.exists_mem_of_ne_nil paths hne
  apply ExitCode.worst_of_le c
  · exact List.mem_map.mpr ⟨path, hpath, h path hpath⟩
  · rw [List.forall_mem_map]
    intro other hother
    rw [h other hother]

theorem worst_codeAt (fs : FileSystem) (hne : paths ≠ []) :
    (ExitCode.worst (paths.map (codeAt fs))).code =
      if ∃ path ∈ paths, Untraceable fs path then 74 else 66 := by
  by_cases h : ∃ path ∈ paths, Untraceable fs path
  · rw [if_pos h]
    obtain ⟨path, hpath, hstray⟩ := h
    apply ExitCode.worst_of_le .ioError
    · exact List.mem_map.mpr ⟨path, hpath, if_pos hstray⟩
    · rw [List.forall_mem_map]
      intro other _
      unfold codeAt
      split_ifs <;> decide
  · rw [if_neg h]
    exact worst_same .fileNotFound hne fun path hpath =>
      if_neg fun hstray => h ⟨path, hpath, hstray⟩

theorem Missing.stdinMark_ne (h : Missing w paths) {path : Text} (hpath : path ∈ paths) :
    path ≠ stdinMark := by
  rintro rfl
  exact h.stdin hpath

theorem Missing.count_stdin (h : Missing w paths) : paths.count stdinMark ≤ 1 := by
  rw [List.count_eq_zero.mpr h.stdin]
  exact Nat.zero_le 1

theorem scan_vacant (h : Missing w paths) (hcalls : Calls w s .scan values paths arguments) :
    ReadsNothing w s values paths (run w arguments) := by
  have hrun : run w arguments = .ofProgram (scan w s values paths) := run_called (.inl rfl) hcalls
  have hsettle : ∀ path ∈ paths,
      (scanBatch w s values).settle path = .error (codeAt w.files path) := by
    intro path hpath
    obtain ⟨why, hwhy, hpermitted⟩ := h.vacant path hpath
    exact settle_scan (h.stdinMark_ne hpath) (h.nul path hpath) hwhy hpermitted
  have hsettles : (scanBatch w s values).Settles s.console paths
      (.ofProgram (scan w s values paths)) :=
    scan_settles ⟨h.nonempty, h.count_stdin, h.nul, nofun⟩
  obtain ⟨hending, houtput, herrors⟩ := hsettles
  rw [failures_failed hsettle, worst_codeAt w.files h.nonempty] at hending
  rw [results_failed hsettle] at houtput
  rw [hrun]
  refine ⟨hending, ?_, ?_⟩
  · rw [houtput, ← Report.output_scanLines]
    refine congrArg (StyledLine.output s.console) ?_
    simp only [scanBatch]
    split_ifs with hprinted
    · rfl
    · -- A quiet run prints no report, and the plain one on no scripts is empty.
      rw [not_not.mp (not_or.mp hprinted).2]
      rfl
  · rw [herrors]
    refine List.flatMap_congr fun path hpath => ?_
    obtain ⟨why, hwhy, -⟩ := h.vacant path hpath
    rw [told_scan (h.stdinMark_ne hpath) (h.nul path hpath) hwhy, hwhy]
    rfl

theorem detect_vacant (h : Missing w paths) (hcalls : Calls w s .detect values paths arguments)
    (hconfig : configOf w values = .ok config)
    (hanswer : ∀ path ∈ paths, ¬ Unanswered w.files (Path.ofText path)) :
    FindsNothing w s values paths (run w arguments) := by
  have hrun : run w arguments = .ofProgram (detect w s values paths) :=
    run_called (.inr rfl) hcalls
  have hfile : ∀ path ∈ paths, w.files.isFile (Path.ofText path) = .ok false := by
    intro path hpath
    obtain ⟨why, hwhy, -⟩ := h.vacant path hpath
    exact isFile_vacant (h.nul path hpath) hwhy (hanswer path hpath)
  have hsettle : ∀ path ∈ paths,
      (detectBatch w s values (.ofConfig config)).settle path = .error .fileNotFound :=
    fun path hpath => settle_detect (hfile path hpath)
  have hfit : Fit w .detect paths := ⟨h.nonempty, h.count_stdin, h.nul, fun _ => hanswer⟩
  obtain ⟨hshown, herrors⟩ := detect_outcome (s := s) hconfig hfit
  rw [hrun]
  refine ⟨?_, ?_, ?_⟩
  · rw [hshown.ending, detectReport, endingOf, failures_failed hsettle]
    exact congrArg Ending.exit (worst_same .fileNotFound h.nonempty fun _ _ => rfl)
  · rw [hshown.output, detectReport, results_failed hsettle, ← Report.output_detectedLines]
    rfl
  · rw [herrors]
    refine congrArg ((loadConfig w s values).written Emission.errText ++ ·) ?_
    exact List.flatMap_congr fun path hpath => told_detect (hfile path hpath)

/-- Runs on paths at which there is no file: every path is reported, none has a result, and the runs
of both commands end with the code for a file that is not found, unless a path is not followed to
its end or, for the one command, the system does not answer. -/
theorem run_missing (h : Missing w paths) :
    (Calls w s .scan values paths arguments → ReadsNothing w s values paths (run w arguments)) ∧
    (Calls w s .detect values paths arguments →
      (∀ e, configOf w values = .error e →
        (run w arguments).ending = e ∧ (run w arguments).output = []) ∧
      ∀ config, configOf w values = .ok config →
        ((∃ path ∈ paths, Unanswered w.files (Path.ofText path)) →
          (∃ cause, (run w arguments).ending = .fault (.load (.notOpened cause))) ∧
            (run w arguments).output = []) ∧
        ((∀ path ∈ paths, ¬ Unanswered w.files (Path.ofText path)) →
          FindsNothing w s values paths (run w arguments))) := by
  refine ⟨scan_vacant h, fun hcalls => ?_⟩
  have hshown := (perform_yields w s values .detect paths).shows
  rw [← run_called (.inr rfl) hcalls] at hshown
  constructor
  · intro e he
    rw [performed, he] at hshown
    exact ⟨hshown.ending, hshown.output⟩
  · intro config hconfig
    refine ⟨?_, detect_vacant h hcalls hconfig⟩
    rintro ⟨path, hpath, hopen⟩
    obtain ⟨cause, hperformed⟩ : ∃ cause, performed w s.verbosity values .detect paths =
        .error (.notOpened cause) := performed_unanswered hconfig h.count_stdin hpath hopen
    rw [hperformed] at hshown
    exact ⟨⟨cause, hshown.ending⟩, hshown.output⟩

end Runs

def vacantWorld : World := .ofFiles ⟨fun t =>
  if t = "d" then .directory .isDirectory
  else if t = "f" then .regular (Utf8.encode "e\n")
  else if t = "f/x" then .refused .notDirectory
  else .refused .noEntry⟩

theorem run_missing_directory :
    (run vacantWorld ["scan", "d", "m"]).ending = .exit 66 ∧
    (run vacantWorld ["scan", "d", "m"]).errors =
      "d: Is a directory\nm: No such file or directory\n" ∧
    (run vacantWorld ["detect", "d", "f/x"]).ending = .exit 66 ∧
    (run vacantWorld ["detect", "d", "f/x"]).errors = "d: no such file\nf/x: no such file\n" := by
  have hscan : Calls vacantWorld sparseSession .scan .initial ["d", "m"] ["scan", "d", "m"] :=
    ⟨[], ⟨⟨[], ["scan", "d", "m"]⟩, ["d", "m"],
      ⟨rfl, ⟨_, rfl, by decide +kernel⟩, rfl, ⟨_, rfl, rfl⟩⟩, rfl⟩, rfl, rfl⟩
  have hdetect : Calls vacantWorld sparseSession .detect .initial ["d", "f/x"]
      ["detect", "d", "f/x"] :=
    ⟨[], ⟨⟨[], ["detect", "d", "f/x"]⟩, ["d", "f/x"],
      ⟨rfl, ⟨_, rfl, by decide +kernel⟩, rfl, ⟨_, rfl, rfl⟩⟩, rfl⟩, rfl, rfl⟩
  have hmissing : Missing vacantWorld ["d", "m"] :=
    ⟨nofun, by decide, by decide, by decide +kernel⟩
  have hthrough : Missing vacantWorld ["d", "f/x"] :=
    ⟨nofun, by decide, by decide, by decide +kernel⟩
  have hconfig : configOf vacantWorld .initial = .ok ⟨Language.builtins, []⟩ := by decide +kernel
  obtain ⟨hscanned, -, hread⟩ := (run_missing hmissing).1 hscan
  obtain ⟨-, hanswered⟩ := ((run_missing hthrough).2 hdetect).2 _ hconfig
  obtain ⟨hdetected, -, hlooked⟩ := hanswered (by decide +kernel)
  refine ⟨hscanned.trans ?_, hread.trans ?_, hdetected, hlooked.trans ?_⟩
  · decide +kernel
  · decide +kernel
  · decide +kernel

/-- A path through a file is an error of the system for one command and a missing file for the
other. -/
theorem run_missing_through :
    (run vacantWorld ["scan", "f/x"]).ending = .exit 74 ∧
    (run vacantWorld ["scan", "f/x"]).errors = "f/x: Not a directory\n" ∧
    (run vacantWorld ["detect", "f/x"]).ending = .exit 66 ∧
    (run vacantWorld ["detect", "f/x"]).errors = "f/x: no such file\n" := by
  decide +kernel

end CommandLine

end Shebang
