import Shebang.Proofs.Composition
import Shebang.Proofs.Fields
import Shebang.Proofs.Rows

/-!
Plain reports on scripts, line by line. What is read from a line holds no line feed and what is
quoted holds none either, so each script has one line and each of its nodes another one, whatever
the scripts are.
-/

namespace Shebang

open Terminal (Sequences)

namespace Text

theorem newline_ofNat (n : Nat) : '\n' ∉ ofNat n := by
  intro h
  exact absurd (Json.isDigit_ofNat h) (by decide)

theorem newline_escapeIn {mark : Char} (hmark : mark ≠ '\n') (c : Char) :
    '\n' ∉ escapeIn mark c := by
  have hcode : '\n' ∉ escapeCode c.toNat := by
    have hdigits : ∀ width, '\n' ∉ hexDigits width c.toNat := by
      intro width h
      exact absurd (Json.visible_hexDigits h) (by decide)
    unfold escapeCode
    split_ifs <;> simp [hdigits]
  unfold escapeIn
  split_ifs with hescaped htab hnewline hreturn hprintable
  · rcases hescaped with rfl | rfl
    · simp [hmark.symm]
    · decide
  · decide
  · decide
  · decide
  · simp [Ne.symm hnewline]
  · exact hcode

theorem newline_quoted (t : Text) : '\n' ∉ t.quoted := by
  have hmark : quoteMark t ≠ '\n' := by
    unfold quoteMark
    split_ifs <;> decide
  unfold quoted
  simp only [List.cons_append, List.mem_cons, List.mem_append, List.mem_flatMap, not_or, not_exists,
    not_and, List.not_mem_nil, not_false_eq_true, and_true]
  exact ⟨hmark.symm, fun c _ => newline_escapeIn hmark c, hmark.symm⟩

end Text

structure ShebangLine.OneLine (s : ShebangLine) : Prop where
  pathPrefix : '\n' ∉ s.pathPrefix
  launcherFlags : ∀ flag ∈ s.launcherFlags, '\n' ∉ flag
  interpreterToken : '\n' ∉ s.interpreterToken
  arguments : ∀ a ∈ s.arguments, '\n' ∉ a

namespace Line

theorem newline_flags {c : Call} (h : c.WellFormed) : ∀ flag ∈ c.flags, '\n' ∉ flag := by
  cases c with
  | viaLauncher directory gap flags interpreter =>
    obtain ⟨-, -, hflags, -⟩ := h
    intro flag hflag
    obtain ⟨f, hf, rfl⟩ := List.mem_map.mp hflag
    exact solid_newline (hflags f hf).1.1.2
  | direct directory name => exact List.forall_mem_nil _

theorem newline_interpreter {c : Call} (h : c.WellFormed) : '\n' ∉ c.interpreter := by
  cases c with
  | viaLauncher directory gap flags interpreter =>
    obtain ⟨-, -, -, hinterpreter⟩ := h
    exact solid_newline hinterpreter.1.2
  | direct directory name =>
    obtain ⟨-, hname, -⟩ := h
    exact solid_newline hname

theorem newline_arguments {tail : Tail} (h : tail.WellFormed) :
    ∀ a ∈ tail.arguments?, '\n' ∉ a := by
  cases tail with
  | blanks gap => exact fun a ha => nomatch ha
  | arguments gap text trail =>
    obtain ⟨-, -, -, htext, -⟩ := h
    rintro a ha
    cases ha
    exact htext

theorem oneLine_shebang {l : Line} (h : l.WellFormed) : l.shebang.OneLine where
  pathPrefix := solid_newline (call_directory h.call).1
  launcherFlags := newline_flags h.call
  interpreterToken := newline_interpreter h.call
  arguments := newline_arguments h.tail

end Line

theorem oneLine_of_recognize {text : Text} {s : ShebangLine}
    (h : (recognize text).shebang = some s) : s.OneLine := by
  obtain ⟨l, body, hl, -, rfl⟩ := shebang_eq_some_iff.mp h
  exact Line.oneLine_shebang hl

theorem newline_joinWith {sep : Text} {parts : List Text} (hsep : '\n' ∉ sep)
    (hparts : ∀ part ∈ parts, '\n' ∉ part) : '\n' ∉ Text.joinWith sep parts := by
  rw [Markdown.mem_joinWith_iff hsep]
  rintro ⟨part, hpart, hm⟩
  exact hparts part hpart hm

theorem newline_parts {invocation : Text} {remark arguments : List Text}
    (hinvocation : '\n' ∉ invocation) (hremark : ∀ t ∈ remark, '\n' ∉ t)
    (harguments : ∀ t ∈ arguments, '\n' ∉ t) :
    '\n' ∉ Text.joinWith ", " (invocation :: remark ++ arguments) := by
  apply newline_joinWith (by decide)
  rw [List.cons_append, List.forall_mem_cons, List.forall_mem_append]
  exact ⟨hinvocation, hremark, harguments⟩

theorem ShebangLine.OneLine.describe {s : ShebangLine} (h : s.OneLine) :
    '\n' ∉ Script.describe (some s) := by
  obtain ⟨hpath, hflags, htoken, harguments⟩ := h
  apply newline_parts
  · cases s.form with
    | direct => simp [hpath, htoken]
    | viaLauncher =>
      have hwords : '\n' ∉ Text.joinWith " "
          ((s.pathPrefix ++ "env") :: s.launcherFlags ++ [s.interpreterToken]) := by
        apply newline_joinWith (by decide)
        rw [List.cons_append, List.forall_mem_cons, List.forall_mem_append,
          List.forall_mem_singleton]
        exact ⟨by simp [hpath], hflags, htoken⟩
      rw [List.mem_append, not_or]
      exact ⟨by decide, hwords⟩
  · split_ifs
    · decide
    · exact List.forall_mem_nil _
  · cases ha : s.arguments with
    | none => exact List.forall_mem_nil _
    | some a =>
      have hfree : '\n' ∉ a := harguments a ha
      simp [hfree]

theorem newline_describe (text : Text) : '\n' ∉ Script.describe (recognize text).shebang := by
  cases h : (recognize text).shebang with
  | none => decide
  | some s => exact (oneLine_of_recognize h).describe

namespace StyledLine

variable {c : Console} {l : StyledLine} {lines : List StyledLine}

/-- No style brings a line feed, so a line has only those of its fragments. -/
theorem newline_on : '\n' ∈ l.on c ↔ ∃ t ∈ l.fragments, '\n' ∈ t := by
  obtain ⟨color⟩ := c
  cases color with
  | false => rw [on_plain, plain, List.mem_flatten]
  | true =>
    rw [← Sequences.newline_remove (g := .control), remove_on, List.mem_flatMap]
    simp only [Sequences.newline_remove]

theorem output_ended (c : Console) (lines : List StyledLine) :
    output c lines = Text.ended (lines.map fun l => c.shown (l.on c)) := by
  induction lines with
  | nil => rfl
  | cons l lines ih =>
    have htexts := c.output_cons (l.on c) (lines.map (on c))
    rw [← List.map_cons (f := on c), List.map_map, List.map_map] at htexts
    rw [List.map_cons, Text.ended_cons, ← ih]
    exact htexts

end StyledLine

namespace Report

def shownLines (c : Console) (showNodes : Bool) (item : ScanItem) : List Text :=
  c.shown (summaryLine c item) ::
    if showNodes then item.script.nodes.map fun n => c.shown (nodeLine item.script n) else []

/-- A text that has the lines of a plain report on scripts, in order, and no others. -/
structure Framed (c : Console) (showNodes : Bool) (items : List ScanItem) (output : Text) :
    Prop where
  lines : output.splitOn '\n' = items.flatMap (shownLines c showNodes) ++ [[]]
  feeds : output.count '\n' = items.length +
    if showNodes then (items.flatMap fun item => item.script.nodes).length else 0

def Labelled (item : ScanItem) : Prop := '\n' ∉ item.label ∧ ∃ text, item.script = recognize text

variable {c : Console} {showNodes : Bool} {items : List ScanItem} {item : ScanItem}

theorem newline_nodeLine (s : Script) (n : Node) : '\n' ∉ nodeLine s n := by
  have hkind : ∀ kind : NodeKind, '\n' ∉ Text.padRight 16 kind.name := by
    intro kind
    rw [Markdown.mem_padRight (by decide)]
    cases kind <;> decide
  have hspan : '\n' ∉ Text.padRight 12 n.span.display := by
    rw [Markdown.mem_padRight (by decide)]
    simp [Span.display, Text.newline_ofNat]
  have hline : nodeLine s n = "    " ++ Text.padRight 16 n.kind.name ++ " " ++
      Text.padRight 12 n.span.display ++ " " ++ (s.textOf n).quoted := rfl
  simp [hline, hkind, hspan, Text.newline_quoted]

theorem newline_summary (h : Labelled item) : ∀ t ∈ (summary item).fragments, '\n' ∉ t := by
  obtain ⟨hlabel, text, hscript⟩ := h
  have htag : ∀ tag : Tag, '\n' ∉ tag.name := by
    intro tag
    cases tag <;> decide
  have hdescribe : '\n' ∉ Script.describe item.script.shebang := hscript ▸ newline_describe text
  simp [summary, StyledLine.fragments, hlabel, htag, hdescribe]

theorem newline_scanLines (h : ∀ item ∈ items, Labelled item) :
    ∀ l ∈ scanLines .default showNodes items, ∀ t ∈ l.fragments, '\n' ∉ t := by
  intro l hl
  obtain ⟨item, hitem, hl⟩ := List.mem_flatMap.mp hl
  rcases List.mem_cons.mp hl with rfl | hl
  · exact newline_summary (h item hitem)
  · split_ifs at hl
    · obtain ⟨n, -, rfl⟩ := List.mem_map.mp hl
      exact List.forall_mem_singleton.mpr (newline_nodeLine item.script n)
    · cases hl

theorem length_shownLines (c : Console) (showNodes : Bool) (items : List ScanItem) :
    (items.flatMap (shownLines c showNodes)).length = items.length +
      if showNodes then (items.flatMap fun item => item.script.nodes).length else 0 := by
  induction items with
  | nil => cases showNodes <;> rfl
  | cons item items ih =>
    rw [List.flatMap_cons, List.length_append, ih, shownLines, List.length_cons, List.length_cons,
      List.flatMap_cons, List.length_append]
    split_ifs
    · rw [List.length_map]
      omega
    · rw [List.length_nil]
      omega

theorem map_shown (c : Console) (showNodes : Bool) (items : List ScanItem) :
    ((scanLines .default showNodes items).map fun l => c.shown (l.on c)) =
      items.flatMap (shownLines c showNodes) := by
  have hshown := congrArg (List.map c.shown) (scan_shown .default showNodes items c)
  rw [List.map_map] at hshown
  rw [← Function.comp_def, ← hshown, scan, List.map_flatMap]
  refine List.flatMap_congr fun item _ => ?_
  rw [itemLines, shownLines, List.map_cons]
  split_ifs
  · rw [List.map_map]
    rfl
  · rfl

theorem framed_output (c : Console) (showNodes : Bool) (h : ∀ item ∈ items, Labelled item) :
    Framed c showNodes items (StyledLine.output c (scanLines .default showNodes items)) := by
  have hfree : ∀ line ∈ items.flatMap (shownLines c showNodes), '\n' ∉ line := by
    rw [← map_shown, List.forall_mem_map]
    intro l hl
    rw [Console.newline_shown, StyledLine.newline_on]
    rintro ⟨t, ht, hm⟩
    exact newline_scanLines h l hl t ht hm
  have hnone : (items.flatMap (shownLines c showNodes)).flatten.count '\n' = 0 := by
    rw [List.count_eq_zero, List.mem_flatten]
    rintro ⟨line, hline, hm⟩
    exact hfree line hline hm
  rw [StyledLine.output_ended, map_shown]
  constructor
  · exact Text.splitOn_ended hfree
  · rw [Text.count_ended, hnone, Nat.add_zero]
    exact length_shownLines c showNodes items

def recognized (inputs : List (Text × Text)) : List ScanItem :=
  inputs.map fun input => ⟨input.1, recognize input.2⟩

theorem labelled_recognized {inputs : List (Text × Text)} (h : ∀ input ∈ inputs, '\n' ∉ input.1) :
    ∀ item ∈ recognized inputs, Labelled item := by
  rw [recognized, List.forall_mem_map]
  exact fun input hinput => ⟨h input hinput, input.2, rfl⟩

end Report

namespace CommandLine

open Report

variable {w : World} {s : Session} {options : List (OptionKey × Text)} {values : OptionValues}
  {paths arguments : List Text}

def readInputs (w : World) (paths : List Text) : List (Text × Text) :=
  paths.filterMap fun path =>
    (readInput w.files w.stdin path).toOption.map fun text => (inputLabel path, text)

theorem results_scanBatch : results (paths.map (scanBatch w s values).settle) =
    recognized (readInputs w paths) := by
  rw [results, List.filterMap_map, recognized, readInputs, List.map_filterMap]
  refine List.filterMap_congr fun path _ => ?_
  simp only [Function.comp_apply, scanBatch, scanned]
  cases readInput w.files w.stdin path with
  | ok text => rfl
  | error e => cases e <;> rfl

theorem newline_readInputs (h : ∀ path ∈ paths, '\n' ∉ path) :
    ∀ input ∈ readInputs w paths, '\n' ∉ input.1 := by
  intro input hinput
  obtain ⟨path, hpath, hread⟩ := List.mem_filterMap.mp hinput
  obtain ⟨text, -, rfl⟩ := Option.map_eq_some_iff.mp hread
  simp only [inputLabel]
  split_ifs
  · decide
  · exact h path hpath

theorem run_framed (h : Accepted w .scan options values)
    (hnames : Names w s .scan options paths arguments) (hfit : Fit w .scan paths)
    (hdefault : values.format = .default) (hverbosity : 0 ≤ s.verbosity)
    (hlabels : ∀ path ∈ paths, '\n' ∉ path) :
    Framed s.console (values.nodes || 0 < s.verbosity) (recognized (readInputs w paths))
      (run w arguments).output := by
  have hsettles : (scanBatch w s values).Settles s.console paths
      (.ofProgram (scan w s values paths)) := scan_settles hfit
  have houtput := hsettles.output
  have hlines : ∀ items, (scanBatch w s values).lines items =
      scanLines .default (values.nodes || 0 < s.verbosity) items := by
    intro items
    simp only [scanBatch, hverbosity, true_or, if_true, hdefault]
  rw [hlines, results_scanBatch] at houtput
  have hrun : run w arguments = .ofProgram (scan w s values paths) := run_named h hnames
  rw [hrun, houtput]
  exact framed_output _ _ (labelled_recognized (newline_readInputs hlabels))

/-- Plain reports on scripts are framed: the report on any texts under any labels, and what a run
prints of the inputs that it can read. -/
theorem scan_framed :
    (∀ (c : Console) (showNodes : Bool) (inputs : List (Text × Text)),
      (∀ input ∈ inputs, '\n' ∉ input.1) →
      Framed c showNodes (recognized inputs)
        (Emission.outputOf
          ((Report.scan c .default showNodes (recognized inputs)).map c.printLine))) ∧
    ∀ w s options values paths arguments, Accepted w .scan options values →
      Names w s .scan options paths arguments → Fit w .scan paths → values.format = .default →
      0 ≤ s.verbosity → (∀ path ∈ paths, '\n' ∉ path) →
      Framed s.console (values.nodes || 0 < s.verbosity) (recognized (readInputs w paths))
        (run w arguments).output := by
  constructor
  · intro c showNodes inputs hlabels
    have hframed := framed_output c showNodes (labelled_recognized hlabels)
    rwa [output_scanLines] at hframed
  · intro w s options values paths arguments h hnames hfit hdefault hverbosity hlabels
    exact run_framed h hnames hfit hdefault hverbosity hlabels

theorem nodes_accepted : Accepted sparseWorld .scan [(.nodes, [])]
    { OptionValues.initial with nodes := true } where
  works := Or.inl rfl
  help := rfl
  read := rfl
  resolves := nofun

theorem scan_framed_nodes :
    (run sparseWorld ["scan", "--nodes", "a.bash"]).output.count '\n' = 6 ∧
    (Emission.outputOf ((Report.scan ⟨true⟩ .default true
      (recognized [("a b", "#!/bin/sh\n"), ("c", "\n")])).map
        (Console.mk true).printLine)).count '\n' = 8 := by
  have hnames : Names sparseWorld sparseSession .scan [(.nodes, [])] ["a.bash"]
      ["scan", "--nodes", "a.bash"] :=
    ⟨⟨[], ["scan", "--nodes", "a.bash"]⟩, ["--nodes", "a.bash"],
      ⟨rfl, ⟨_, rfl, by decide +kernel⟩, rfl, ⟨_, rfl, rfl⟩⟩, by decide +kernel⟩
  have hfit : Fit sparseWorld .scan ["a.bash"] := ⟨nofun, by decide, by decide, nofun⟩
  have hrun := scan_framed.2 _ _ _ _ _ _ nodes_accepted hnames hfit rfl (by decide) (by decide)
  have hreport := scan_framed.1 ⟨true⟩ true [("a b", "#!/bin/sh\n"), ("c", "\n")] (by decide)
  refine ⟨hrun.feeds.trans ?_, hreport.feeds.trans ?_⟩
  · decide +kernel
  · decide +kernel

end CommandLine

end Shebang
