import Shebang.Proofs.Commands
import Shebang.Proofs.Decision
import Shebang.Proofs.Records

/-!
Commands that work through a list of inputs. Each input is settled by itself: it leaves a result or
the exit code of a failure, and what is told of the failure. The report is made from the results and
the exit code from the failures, so a list that is made of two lists has what both have.
-/

namespace Shebang

namespace ExitCode

theorem code_worse (a b : ExitCode) : (worse a b).code = max a.code b.code := by
  rw [worse]
  split_ifs with h
  · exact (Nat.max_eq_right (Nat.le_of_lt h)).symm
  · exact (Nat.max_eq_left (Nat.le_of_not_lt h)).symm

theorem code_foldl (codes : List ExitCode) (a : ExitCode) :
    (codes.foldl worse a).code = (codes.map code).foldl max a.code := by
  induction codes generalizing a with
  | nil => rfl
  | cons b codes ih => rw [List.foldl_cons, ih, code_worse, List.map_cons, List.foldl_cons]

theorem code_worst (codes : List ExitCode) : (worst codes).code = (codes.map code).foldl max 0 :=
  code_foldl codes .success

theorem worst_append (xs ys : List ExitCode) :
    (worst (xs ++ ys)).code = max (worst xs).code (worst ys).code := by
  have hfrom : ∀ (ns : List Nat) (n : Nat), ns.foldl max n = max n (ns.foldl max 0) := by
    intro ns
    induction ns with
    | nil => intro n; simp
    | cons m ns ih =>
      intro n
      rw [List.foldl_cons, List.foldl_cons, ih (max n m), ih (max 0 m)]
      omega
  rw [code_worst, code_worst, code_worst, List.map_append, List.foldl_append, hfrom]

theorem worst_perm {xs ys : List ExitCode} (h : xs.Perm ys) :
    (worst xs).code = (worst ys).code := by
  rw [code_worst, code_worst]
  refine (h.map code).foldl_eq' (fun a _ b _ n => ?_) 0
  omega

end ExitCode

namespace CommandLine

open Report (linesIn)
open StyledLine (ofText)

section Lists

variable {α : Type} (xs ys : List (Except ExitCode α))

theorem results_append : results (xs ++ ys) = results xs ++ results ys := List.filterMap_append

theorem failures_append : failures (xs ++ ys) = failures xs ++ failures ys := List.filterMap_append

theorem output_append (c : Console) (left right : List StyledLine) :
    StyledLine.output c (left ++ right) =
      StyledLine.output c left ++ StyledLine.output c right := by
  rw [StyledLine.output, List.map_append]
  exact List.flatMap_append

end Lists

def recordsIn (t : Text) : Option (List Json) :=
  match (Json.ofText? t).bind (·.at? ["results"]) with
  | some (.array records) => some records
  | _ => none

theorem recordsIn_document (c : Console) (records : List Json) :
    recordsIn (StyledLine.output c
      [ofText ((documentOf records).render Report.documentLayout)]) = some records := by
  have hinert : ∀ l ∈ [ofText ((documentOf records).render Report.documentLayout)],
      Report.IsInert l :=
    List.forall_mem_singleton.mpr ⟨_, rfl, Json.escape_render _ _⟩
  have hread := Json.ofText?_render Report.documentLayout (documentOf records) ['\n']
    (List.forall_mem_singleton.mpr rfl)
  rw [Report.output_inert hinert, List.flatMap_singleton, recordsIn]
  simp only [ofText, hread]
  rfl

/-- How a command treats its inputs: what it leaves of each, what it tells of it, and how it reports
the results, as lines and as records. -/
structure Batch (α : Type) where
  settle : Text → Except ExitCode α
  told : Text → Text
  lines : List α → List StyledLine
  record : α → Json

namespace Batch

variable {α : Type} (b : Batch α)

structure Reports (format : OutputFormat) : Prop where
  append : format = .default ∨ format = .ndjson →
    ∀ xs ys, b.lines (xs ++ ys) = b.lines xs ++ b.lines ys
  document : format = .json → ∀ xs,
    b.lines xs = [ofText ((documentOf (xs.map b.record)).render Report.documentLayout)]

structure Settles (c : Console) (paths : List Text) (o : Outcome) : Prop where
  ending : o.ending = .exit (ExitCode.worst (failures (paths.map b.settle))).code
  output : o.output = StyledLine.output c (b.lines (results (paths.map b.settle)))
  errors : o.errors = paths.flatMap b.told

end Batch

/-- The paths are ones that a command can work through: there are some, standard input is asked for
at most once, and the system answers for every path that is asked for as a file. -/
structure Fit (w : World) (command : Command) (paths : List Text) : Prop where
  nonempty : paths ≠ []
  stdin : paths.count stdinMark ≤ 1
  nul : ∀ path ∈ paths, '\x00' ∉ path
  answered : command = .detect → ∀ path ∈ paths, ¬ Unanswered w.files (.ofText path)

theorem Fit.sublist {w : World} {command : Command} {P Q : List Text} (h : Fit w command Q)
    (hne : P ≠ []) (hsub : P.Sublist Q) : Fit w command P where
  nonempty := hne
  stdin := Nat.le_trans (hsub.count_le stdinMark) h.stdin
  nul path hpath := h.nul path (hsub.subset hpath)
  answered hcommand path hpath := h.answered hcommand path (hsub.subset hpath)

theorem Fit.perm {w : World} {command : Command} {P Q : List Text} (h : Fit w command P)
    (hperm : P.Perm Q) : Fit w command Q where
  nonempty := fun hnil => h.nonempty (List.Perm.eq_nil (hnil ▸ hperm))
  stdin := hperm.count_eq stdinMark ▸ h.stdin
  nul path hpath := h.nul path (hperm.mem_iff.mpr hpath)
  answered hcommand path hpath := h.answered hcommand path (hperm.mem_iff.mpr hpath)

def settled {α : Type} : Except Ending (Except ExitCode α) → Except ExitCode α
  | .ok r => r
  | .error _ => .error .failure

def scanBatch (w : World) (s : Session) (values : OptionValues) : Batch ScanItem where
  settle path := settled (scanned w path)
  told path := (scanInput w s path).written Emission.errText
  lines items :=
    if 0 ≤ s.verbosity ∨ values.format ≠ .default then
      Report.scanLines values.format (values.nodes || 0 < s.verbosity) items
    else []
  record := Report.itemJson (values.nodes || 0 < s.verbosity)

def detectBatch (w : World) (s : Session) (values : OptionValues) (registry : Registry) :
    Batch DetectedFile where
  settle path := settled (detectedIn w registry path)
  told path := (detectInput w s registry path).written Emission.errText
  lines files := Report.detectedLines values.format s.verbosity files
  record := Report.detectedJson

section Batches

variable {w : World} {s : Session} {values : OptionValues} {registry : Registry} {paths : List Text}

theorem scanLines_append {format : OutputFormat} (h : format = .default ∨ format = .ndjson)
    (showNodes : Bool) (xs ys : List ScanItem) : Report.scanLines format showNodes (xs ++ ys) =
      Report.scanLines format showNodes xs ++ Report.scanLines format showNodes ys := by
  rcases h with rfl | rfl
  · simp only [Report.scanLines, linesIn, if_true]
    exact List.flatMap_append
  · simp [Report.scanLines, linesIn, Report.scan]

theorem detectedLines_append {format : OutputFormat} (h : format = .default ∨ format = .ndjson)
    (verbosity : Int) (xs ys : List DetectedFile) :
    Report.detectedLines format verbosity (xs ++ ys) =
      Report.detectedLines format verbosity xs ++ Report.detectedLines format verbosity ys := by
  rcases h with rfl | rfl
  · simp only [Report.detectedLines, linesIn, if_true]
    by_cases hquiet : verbosity < 0
    · simp only [hquiet, if_true, List.append_nil]
    · simp only [hquiet, if_false, List.map_append]
  · simp [Report.detectedLines, linesIn, Report.detected]

theorem scanBatch_reports : (scanBatch w s values).Reports values.format where
  append := by
    intro h xs ys
    simp only [scanBatch]
    by_cases hshown : 0 ≤ s.verbosity ∨ values.format ≠ .default
    · simp only [hshown, if_true, scanLines_append h]
    · simp only [hshown, if_false, List.append_nil]
  document := by
    intro h xs
    simp [scanBatch, Report.scanLines, h, linesIn, Report.scan]
    rfl

theorem detectBatch_reports : (detectBatch w s values registry).Reports values.format where
  append := by
    intro h xs ys
    exact detectedLines_append h s.verbosity xs ys
  document := by
    intro h xs
    simp [detectBatch, Report.detectedLines, h, linesIn, Report.detected]
    rfl

theorem inputsOf_fit {command : Command} (h : Fit w command paths) :
    inputsOf paths = .ok paths := by
  rw [inputsOf, requireInputs, if_neg h.nonempty, if_neg (Nat.not_lt.mpr h.stdin)]
  rfl

theorem readInput_nul {fs : FileSystem} {stdin : Bytes} {path : Text}
    (h : readInput fs stdin path = .error .embeddedNul) : '\x00' ∈ path := by
  rw [readInput] at h
  cases hb : inputBytes fs stdin path with
  | ok bytes =>
    rw [hb, Attempt.ok_bind] at h
    cases hd : Utf8.decode bytes with
    | ok text =>
      rw [hd] at h
      cases h
    | error e =>
      rw [hd] at h
      cases h
  | error e =>
    rw [hb, Attempt.error_bind] at h
    obtain rfl : e = .embeddedNul := Except.error.inj h
    rw [inputBytes] at hb
    split_ifs at hb with hstdin
    cases hr : fs.read (.ofText path) with
    | ok bytes =>
      rw [hr] at hb
      cases hb
    | error e =>
      cases e with
      | embeddedNul => exact mem_display (read_nul.mp hr)
      | refused why name =>
        rw [hr] at hb
        cases hb

theorem scanned_settled {path : Text} (h : '\x00' ∉ path) :
    scanned w path = .ok (settled (scanned w path)) := by
  rw [scanned]
  cases hr : readInput w.files w.stdin path with
  | ok text => rfl
  | error e =>
    cases e with
    | embeddedNul => exact absurd (readInput_nul hr) h
    | failed failure => rfl

theorem detect_opened {path : Path} (h : '\x00' ∉ path.display) (fs : FileSystem)
    (r : Registry) (e : OpenError) : (r.detect fs path).outcome ≠ .error (.notOpened e) := by
  intro herror
  obtain ⟨tag, htag⟩ : ∃ tag, (shebangTag fs path).outcome = .ok tag := exists_tag h
  by_cases hx : path.extension = []
  · rw [detect_bare hx, htag, Attempt.mapError_ok, Attempt.ok_bind] at herror
    split at herror
    · cases herror
    · cases herror
  · match hc : r.forExtension path.extension with
    | [] =>
      rw [detect_unclaimed hx hc] at herror
      cases herror
    | [l] =>
      rw [detect_sole hx hc] at herror
      cases herror
    | first :: second :: others =>
      rw [detect_several hx hc, htag] at herror
      cases herror

theorem detectedIn_settled {path : Text} (h : ¬ Unanswered w.files (.ofText path)) :
    detectedIn w registry path = .ok (settled (detectedIn w registry path)) := by
  rw [detectedIn]
  cases hf : w.files.isFile (.ofText path) with
  | error e => exact absurd (isFile_eq_error.mp ⟨e, hf⟩) h
  | ok found =>
    cases found with
    | false => rfl
    | true =>
      have hopened := detect_opened (display_of_isFile hf) w.files registry
      cases hd : (registry.detect w.files (.ofText path)).outcome with
      | ok language => rfl
      | error e =>
        cases e with
        | notOpened e => exact absurd hd (hopened e)
        | unknownExtension p x => rfl
        | noExtension p => rfl

theorem errors_print (s : Session) (texts : List Text) :
    (s.print texts).written Emission.errText = [] := by
  rw [Session.print, Program.written_emit, List.flatMap_map]
  exact List.flatMap_eq_nil_iff.mpr fun _ _ => rfl

theorem errors_batch {α : Type} {command : Command} {input : Text → Program (Except ExitCode α)}
    {settle : Text → Except ExitCode α} {finish : List (Except ExitCode α) → Program ExitCode}
    (hfit : Fit w command paths) (hinput : ∀ path ∈ paths, (input path).value = .ok (settle path))
    (hfinish : ∀ done, (finish done).written Emission.errText = []) :
    (required s paths >>= fun inputs => inputs.mapM input >>= finish).written Emission.errText =
      paths.flatMap fun path => (input path).written Emission.errText := by
  have hrequired : required s paths = pure paths := by
    rw [required, requireInputs, if_neg hfit.nonempty, if_neg (Nat.not_lt.mpr hfit.stdin)]
  have hloop : (paths.mapM input).value = .ok (paths.map settle) := by
    rw [Program.value_mapM]
    exact mapM_ok hinput
  rw [hrequired, pure_bind, Program.written_bind_ok hloop, Program.written_mapM hinput, hfinish,
    List.append_nil]

theorem scan_settles (hfit : Fit w .scan paths) :
    (scanBatch w s values).Settles s.console paths (.ofProgram (scan w s values paths)) := by
  have hsettled : ∀ path ∈ paths, scanned w path = .ok (settled (scanned w path)) :=
    fun path hpath => scanned_settled (hfit.nul path hpath)
  have hperformed : performed w s.verbosity values .scan paths =
      .ok (scanReport s.verbosity values (paths.map fun path => settled (scanned w path))) := by
    rw [performed, inputsOf_fit hfit, Attempt.ok_bind, mapM_ok hsettled]
    rfl
  have hshown := (perform_yields w s values .scan paths).shows
  rw [hperformed] at hshown
  refine ⟨hshown.ending, hshown.output, ?_⟩
  have hinput : ∀ path ∈ paths, (scanInput w s path).value = .ok (settled (scanned w path)) := by
    intro path hpath
    rw [value_scanInput]
    exact hsettled path hpath
  refine errors_batch hfit hinput fun done => ?_
  split_ifs with hprint
  · exact Program.quiet_bind (errors_print s _) fun _ => Program.written_pure _
  · rfl

theorem logLines_silent (h : s.log.level = Log.critical) (d : Diagnostic) : s.logLines d = [] := by
  rw [Session.logLines, h]
  cases d.severity <;> rfl

theorem errors_loadConfig (h : s.log.level = Log.critical) {config : Config}
    (hconfig : configOf w values = .ok config) :
    (loadConfig w s values).written Emission.errText = [] := by
  have hresolved : (Config.resolve w.files w.toml (requested w values)).outcome = .ok config := by
    rw [configOf] at hconfig
    cases hr : (Config.resolve w.files w.toml (requested w values)).outcome with
    | ok found =>
      rw [hr] at hconfig
      exact congrArg Except.ok (Except.ok.inj hconfig)
    | error e =>
      rw [hr] at hconfig
      cases e <;> cases hconfig
  have hattempt : (s.attempt (Config.resolve w.files w.toml (requested w values))).written
      Emission.errText = [] := by
    rw [Session.attempt, Session.traced, Program.written_bind, Program.written_emit]
    simp [logLines_silent h]
  rw [loadConfig, ← requested, Program.written_bind_ok (s.value_attempt _), hattempt, hresolved]
  rfl

/-- Before it goes through its inputs the command tells what its configuration leaves in the log. -/
theorem detect_outcome {config : Config} (hconfig : configOf w values = .ok config)
    (hfit : Fit w .detect paths) :
    (Outcome.ofProgram (detect w s values paths)).Shows s.console
        (.ok (detectReport s.verbosity values
          (paths.map (detectBatch w s values (.ofConfig config)).settle))) ∧
      (Outcome.ofProgram (detect w s values paths)).errors =
        (loadConfig w s values).written Emission.errText ++
          paths.flatMap (detectBatch w s values (.ofConfig config)).told := by
  have hsettled : ∀ path ∈ paths, detectedIn w (.ofConfig config) path =
      .ok (settled (detectedIn w (.ofConfig config) path)) :=
    fun path hpath => detectedIn_settled (hfit.answered rfl path hpath)
  have hperformed : performed w s.verbosity values .detect paths =
      .ok (detectReport s.verbosity values
        (paths.map fun path => settled (detectedIn w (.ofConfig config) path))) := by
    rw [performed, hconfig, Attempt.ok_bind, inputsOf_fit hfit, Attempt.ok_bind, mapM_ok hsettled]
    rfl
  have hshown := (perform_yields w s values .detect paths).shows
  rw [hperformed] at hshown
  refine ⟨hshown, ?_⟩
  have hloaded : (loadConfig w s values).value = .ok config :=
    (loadConfig_value w s values).trans hconfig
  change (detect w s values paths).written Emission.errText = _
  rw [detect, Program.written_bind_ok hloaded]
  refine congrArg ((loadConfig w s values).written Emission.errText ++ ·) ?_
  have hinput : ∀ path ∈ paths, (detectInput w s (.ofConfig config) path).value =
      .ok (settled (detectedIn w (.ofConfig config) path)) := by
    intro path hpath
    rw [value_detectInput]
    exact hsettled path hpath
  refine errors_batch hfit hinput fun done => ?_
  exact Program.quiet_bind (errors_print s _) fun _ => Program.written_pure _

theorem detect_settles (hlog : s.log.level = Log.critical) {config : Config}
    (hconfig : configOf w values = .ok config) (hfit : Fit w .detect paths) :
    (detectBatch w s values (.ofConfig config)).Settles s.console paths
      (.ofProgram (detect w s values paths)) := by
  obtain ⟨hshown, herrors⟩ := detect_outcome (s := s) hconfig hfit
  rw [errors_loadConfig hlog hconfig, List.nil_append] at herrors
  exact ⟨hshown.ending, hshown.output, herrors⟩

end Batches

end CommandLine

end Shebang
