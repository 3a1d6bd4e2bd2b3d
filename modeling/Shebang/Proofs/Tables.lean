import Shebang.Proofs.Commands
import Shebang.Proofs.Rows

/-!
The tables of languages and of detected files. Labels and descriptions are escaped, names and
extensions are put into code spans as they are, and nothing is done about line feeds; so a table
keeps its shape exactly if the texts that come from a configuration leave it alone.
-/

namespace Shebang

open Console Markdown Report Terminal Terminal.Sequences

section Spans

variable {c : Console} {t : Text} {parts : List Text}

theorem sealed_codeSpan (t : Text) : control.Sealed (codeSpan t) :=
  sealed_final rfl (by decide) ('`' :: t)

theorem sealed_joinWith {sep : Text} (hsep : escape ∉ sep)
    (h : ∀ part ∈ parts, control.Sealed part) : control.Sealed (Text.joinWith sep parts) := by
  induction parts with
  | nil => exact sealed_plain List.not_mem_nil
  | cons first rest ih =>
    obtain ⟨hfirst, hrest⟩ := List.forall_mem_cons.mp h
    by_cases hne : rest = []
    · rw [hne, joinWith_singleton]
      exact hfirst
    · rw [joinWith_cons _ _ hne]
      exact hfirst.append ((sealed_plain hsep).append (ih hrest))

theorem pipes_list (h : ∀ part ∈ parts, control.Sealed part) :
    c.pipes (Text.joinWith ", " parts) = c.pipesIn parts := by
  induction parts with
  | nil => exact pipes_clean List.not_mem_nil List.not_mem_nil
  | cons first rest ih =>
    obtain ⟨hfirst, hrest⟩ := List.forall_mem_cons.mp h
    rw [pipesIn]
    by_cases hne : rest = []
    · rw [hne, joinWith_singleton]
      rfl
    · have hcomma : ∀ t : Text, (", " ++ t : Text) = ',' :: ' ' :: t := fun _ => rfl
      rw [joinWith_cons _ _ hne, hcomma, pipes_append hfirst (by decide) (by decide),
        pipes_cons (by decide) (by decide), ih hrest]

theorem mem_escapeCell {x : Char} (hx : x ≠ '\\') : x ∈ escapeCell t ↔ x ∈ t := by
  rw [escapeCell, List.mem_flatMap]
  constructor
  · rintro ⟨y, hy, hm⟩
    rw [escapeChar] at hm
    split_ifs at hm with hc
    · rcases List.mem_cons.mp hm with h | hm
      · exact absurd h hx
      · rwa [List.mem_singleton.mp hm]
    · rwa [List.mem_singleton.mp hm]
  · intro h
    refine ⟨x, h, ?_⟩
    rw [escapeChar]
    split_ifs
    · exact List.mem_cons_of_mem _ (List.mem_singleton_self x)
    · exact List.mem_singleton_self x

theorem mem_codeSpan {x : Char} (hx : x ≠ '`') : x ∈ codeSpan t ↔ x ∈ t := by
  simp [codeSpan, hx]

def Faithful (c : Console) (t : Text) : Prop := c.color = true ∨ escape ∉ t

theorem Faithful.shown (h : Faithful c t) : c.shown t = t := by
  rcases h with hc | ht
  · exact shown_colored hc t
  · exact shown_clean ht

theorem Faithful.codeSpan (h : Faithful c t) : c.pipes (codeSpan t) = openPipes t := by
  have hspan : Faithful c (Markdown.codeSpan t) :=
    h.imp_right fun ht => (mem_codeSpan (by decide)).not.mpr ht
  rw [pipes, hspan.shown, Markdown.codeSpan, List.cons_append, openPipes_cons (by decide),
    openPipes_append (by decide), openPipes_nil, Nat.add_zero]

theorem Faithful.escapeCell (h : Faithful c t) : c.pipes (escapeCell t ++ " |") = 1 := by
  have hcell : Faithful c (Markdown.escapeCell t ++ " |") := by
    refine h.imp_right fun ht hm => ?_
    rcases List.mem_append.mp hm with hm | hm
    · exact ht ((mem_escapeCell (by decide)).mp hm)
    · exact absurd hm (by decide)
  rw [pipes, hcell.shown, openPipes_escapeCell]
  rfl

end Spans

def Language.texts (l : Language) : List Text := l.name :: l.description :: l.extensions

/-- A language that makes a proper row: one line, in which the console shows no open pipe of the
cells and none too few at the end. -/
structure Language.Fits (c : Console) (l : Language) : Prop where
  lines : ∀ t ∈ l.texts, '\n' ∉ t
  pipes : c.pipes (codeSpan l.name) + c.pipesIn (l.extensions.map fun e => codeSpan (dotted e)) +
    c.pipes (escapeCell l.description ++ " |") = 1

structure DetectedFile.Fits (c : Console) (f : DetectedFile) : Prop where
  label : '\n' ∉ f.label
  name : '\n' ∉ f.language.name
  pipes : c.pipes (codeSpan (escapeCell f.label)) = 0 ∧ c.pipes (codeSpan f.language.name) = 0

section Rows

variable {c : Console} {l : Language} {f : DetectedFile} {widths : List Nat}

theorem sealed_spans (extensions : List Text) :
    ∀ part ∈ extensions.map fun e => codeSpan (dotted e), control.Sealed part := by
  intro part hp
  obtain ⟨e, -, rfl⟩ := List.mem_map.mp hp
  exact sealed_codeSpan _

theorem newline_languageRow :
    (∀ cell ∈ languageRow l, '\n' ∉ cell) ↔ ∀ t ∈ l.texts, '\n' ∉ t := by
  have hspans : '\n' ∈ Text.joinWith ", " (l.extensions.map fun e => codeSpan (dotted e)) ↔
      ∃ e ∈ l.extensions, '\n' ∈ e := by
    rw [mem_joinWith_iff (by decide)]
    simp [mem_codeSpan, dotted]
  rw [languageRow, Language.texts, List.forall_mem_cons, List.forall_mem_cons,
    List.forall_mem_singleton, List.forall_mem_cons, List.forall_mem_cons,
    mem_codeSpan (by decide), hspans, mem_escapeCell (by decide), not_exists,
    and_comm (a := ∀ e, ¬ _)]
  simp only [not_and]

theorem languageRow_fits (hlen : widths.length = 3) :
    ((∀ cell ∈ languageRow l, '\n' ∉ cell) ∧ c.pipes (row widths (languageRow l)) = 4) ↔
      l.Fits c := by
  have hsplit : languageRow l = [codeSpan l.name,
      Text.joinWith ", " (l.extensions.map fun e => codeSpan (dotted e))] ++
        [escapeCell l.description] := rfl
  have hcells : ∀ cell ∈ [codeSpan l.name,
      Text.joinWith ", " (l.extensions.map fun e => codeSpan (dotted e))], control.Sealed cell := by
    rw [List.forall_mem_cons, List.forall_mem_singleton]
    exact ⟨sealed_codeSpan _, sealed_joinWith (by decide) (sealed_spans l.extensions)⟩
  rw [newline_languageRow, hsplit, pipes_row hlen hcells, pipesIn, pipesIn, pipesIn,
    pipes_list (sealed_spans l.extensions), List.length_cons, List.length_singleton]
  constructor
  · rintro ⟨hl, hp⟩
    exact ⟨hl, by omega⟩
  · rintro ⟨hl, hp⟩
    exact ⟨hl, by omega⟩

theorem detectedRow_fits (hlen : widths.length = 2) :
    ((∀ cell ∈ detectedRow f, '\n' ∉ cell) ∧ c.pipes (row widths (detectedRow f)) = 3) ↔
      f.Fits c := by
  have hsplit : detectedRow f = [codeSpan (escapeCell f.label)] ++ [codeSpan f.language.name] := rfl
  have hcells : ∀ cell ∈ [codeSpan (escapeCell f.label)], control.Sealed cell := by
    rw [List.forall_mem_singleton]
    exact sealed_codeSpan _
  have hlines : (∀ cell ∈ detectedRow f, '\n' ∉ cell) ↔
      '\n' ∉ f.label ∧ '\n' ∉ f.language.name := by
    rw [detectedRow, List.forall_mem_cons, List.forall_mem_singleton, mem_codeSpan (by decide),
      mem_codeSpan (by decide), mem_escapeCell (by decide)]
  rw [hlines, hsplit, pipes_row hlen hcells, pipesIn, pipesIn, List.length_singleton,
    pipes_last (sealed_codeSpan _)]
  constructor
  · rintro ⟨⟨hlabel, hname⟩, hp⟩
    exact ⟨hlabel, hname, by omega, by omega⟩
  · rintro ⟨hlabel, hname, hp⟩
    exact ⟨⟨hlabel, hname⟩, by omega⟩

/-- Of a language that is shown as it is, only the line feeds and the pipes that are not escaped
count, and of these pipes only those in the name and in the extensions. -/
theorem Language.fits_iff (h : ∀ t ∈ l.texts, Faithful c t) : l.Fits c ↔
    (∀ t ∈ l.texts, '\n' ∉ t) ∧ openPipes l.name = 0 ∧ ∀ e ∈ l.extensions, openPipes e = 0 := by
  obtain ⟨hname, hdescription, hextensions⟩ :=
    (show Faithful c l.name ∧ Faithful c l.description ∧ ∀ e ∈ l.extensions, Faithful c e by
      simpa [Language.texts] using h)
  have hspans : c.pipesIn (l.extensions.map fun e => codeSpan (dotted e)) = 0 ↔
      ∀ e ∈ l.extensions, openPipes e = 0 := by
    rw [pipesIn_eq_zero, List.forall_mem_map]
    refine forall₂_congr fun e he => ?_
    have hdotted : Faithful c (dotted e) :=
      (hextensions e he).imp_right fun ht => by simpa [dotted, escape] using ht
    rw [hdotted.codeSpan, dotted, openPipes_cons (by decide)]
  have hpipes : c.pipes (codeSpan l.name) +
      c.pipesIn (l.extensions.map fun e => codeSpan (dotted e)) +
        c.pipes (escapeCell l.description ++ " |") = 1 ↔
      openPipes l.name = 0 ∧ ∀ e ∈ l.extensions, openPipes e = 0 := by
    rw [hname.codeSpan, hdescription.escapeCell, ← hspans]
    omega
  exact ⟨fun h => ⟨h.lines, hpipes.mp h.pipes⟩, fun h => ⟨h.1, hpipes.mpr h.2⟩⟩

theorem DetectedFile.fits_iff (hlabel : Faithful c f.label) (hname : Faithful c f.language.name) :
    f.Fits c ↔ '\n' ∉ f.label ∧ '\n' ∉ f.language.name ∧ openPipes f.language.name = 0 := by
  have hescaped : Faithful c (escapeCell f.label) :=
    hlabel.imp_right fun ht => (mem_escapeCell (by decide)).not.mpr ht
  have hnone : c.pipes (codeSpan (escapeCell f.label)) = 0 := by
    have hfree := openPipes_escapeCell f.label []
    rw [List.append_nil] at hfree
    rw [hescaped.codeSpan, hfree]
    rfl
  constructor
  · intro h
    exact ⟨h.label, h.name, hname.codeSpan ▸ h.pipes.2⟩
  · rintro ⟨hl, hn, hp⟩
    exact ⟨hl, hn, hnone, hname.codeSpan.trans hp⟩

end Rows

section Reports

variable (c : Console)

theorem isTable_languages (languages : List Language) :
    IsTable 3 languages.length
        (c.shown (table ["Language", "Extensions", "Description"] (languages.map languageRow))) ↔
      ∀ l ∈ languages, l.Fits c := by
  have hrows : ∀ cells ∈ languages.map languageRow, cells.length = 3 := by
    rw [List.forall_mem_map]
    exact fun _ _ => rfl
  have hheaders : ∀ header ∈ (["Language", "Extensions", "Description"] : List Text),
      Bare header := by decide
  have htable := isTable_shown (c := c) (List.cons_ne_nil _ _) hheaders hrows
  have hwidths : (columnWidths ["Language", "Extensions", "Description"]
      (languages.map languageRow)).length = 3 := length_columnWidths hrows
  rw [List.length_map, List.forall_mem_map] at htable
  exact htable.trans (forall₂_congr fun l _ => languageRow_fits hwidths)

theorem isTable_detected (files : List DetectedFile) :
    IsTable 2 files.length (c.shown (table ["Path", "Language"] (files.map detectedRow))) ↔
      ∀ f ∈ files, f.Fits c := by
  have hrows : ∀ cells ∈ files.map detectedRow, cells.length = 2 := by
    rw [List.forall_mem_map]
    exact fun _ _ => rfl
  have hheaders : ∀ header ∈ (["Path", "Language"] : List Text), Bare header := by decide
  have htable := isTable_shown (c := c) (List.cons_ne_nil _ _) hheaders hrows
  have hwidths : (columnWidths ["Path", "Language"] (files.map detectedRow)).length = 2 :=
    length_columnWidths hrows
  rw [List.length_map, List.forall_mem_map] at htable
  exact htable.trans (forall₂_congr fun f _ => detectedRow_fits hwidths)

theorem output_headed {title : Text} (ht : escape ∉ title) (t : Text) :
    Emission.outputOf ([title ++ ['\n'], t].map c.printLine) =
      title ++ ['\n', '\n'] ++ c.shown t ++ ['\n'] := by
  have htitle : escape ∉ title ++ ['\n'] := by
    rw [List.mem_append, not_or]
    exact ⟨ht, by decide⟩
  rw [output_cons, output_cons, shown_clean htitle]
  simp [Emission.outputOf]

end Reports

namespace CommandLine

variable {w : World} {s : Session} {values : OptionValues} {config : Config}

theorem output_languages (hconfig : configOf w values = .ok config) :
    (languages w s values).written Emission.outText =
      Emission.outputOf ((configured s.console values.format s.verbosity config
        (Registry.ofConfig config).languages).map s.console.printLine) := by
  have houtput := (perform_yields w s values .languages []).output
  rw [performed, hconfig, Attempt.ok_bind] at houtput
  rw [configured_shown, List.map_map]
  exact houtput

theorem output_detect {paths inputs : List Text} {done : List (Except ExitCode DetectedFile)}
    (hconfig : configOf w values = .ok config) (hinputs : inputsOf paths = .ok inputs)
    (hdone : inputs.mapM (detectedIn w (.ofConfig config)) = .ok done) :
    (detect w s values paths).written Emission.outText =
      Emission.outputOf ((detected s.console values.format s.verbosity (results done)).map
        s.console.printLine) := by
  have houtput := (perform_yields w s values .detect paths).output
  rw [performed, hconfig, Attempt.ok_bind, hinputs, Attempt.ok_bind, hdone, Attempt.ok_bind]
    at houtput
  rw [← output_detectedLines]
  exact houtput

/-- The tables that the commands print below their headings have a line for each language or file,
with as many cells as the header, exactly if each of these fits; and where the texts are shown as
they are, it fits if none of them has a line feed and no name or extension an open pipe. -/
theorem tables_shape (hformat : values.format = .markdown)
    (hconfig : configOf w values = .ok config) :
    (∃ t, (languages w s values).written Emission.outText = "# Languages\n\n" ++ t ++ "\n" ∧
      (IsTable 3 (Registry.ofConfig config).languages.length t ↔
        ∀ l ∈ (Registry.ofConfig config).languages, l.Fits s.console)) ∧
    (∀ paths inputs done, inputsOf paths = .ok inputs →
      inputs.mapM (detectedIn w (.ofConfig config)) = .ok done →
      ∃ t, (detect w s values paths).written Emission.outText =
          "# Detected Languages\n\n" ++ t ++ "\n" ∧
        (IsTable 2 (results done).length t ↔ ∀ f ∈ results done, f.Fits s.console)) ∧
    (∀ l : Language, (∀ t ∈ l.texts, Faithful s.console t) → (l.Fits s.console ↔
      (∀ t ∈ l.texts, '\n' ∉ t) ∧ openPipes l.name = 0 ∧ ∀ e ∈ l.extensions, openPipes e = 0)) ∧
    ∀ f : DetectedFile, Faithful s.console f.label → Faithful s.console f.language.name →
      (f.Fits s.console ↔
        '\n' ∉ f.label ∧ '\n' ∉ f.language.name ∧ openPipes f.language.name = 0) := by
  refine ⟨⟨_, ?_, isTable_languages s.console _⟩, ?_, fun _ => Language.fits_iff,
    fun _ => DetectedFile.fits_iff⟩
  · rw [output_languages hconfig, hformat]
    exact output_headed s.console (show escape ∉ ("# Languages" : Text) by decide) _
  · intro paths inputs done hinputs hdone
    refine ⟨_, ?_, isTable_detected s.console _⟩
    rw [output_detect hconfig hinputs hdone, hformat]
    exact output_headed s.console (show escape ∉ ("# Detected Languages" : Text) by decide) _

def barredWorld : World := .ofFiles ⟨fun t =>
  if t = "a.toml" then .regular (Utf8.encode "[languages.\"a|b\"]\nextensions = ['x']\n")
  else if t = "a|b.bash" then .regular []
  else .refused .noEntry⟩

def barredSession : Session := .ofColor false

def builtinValues : OptionValues :=
  { OptionValues.initial with format := .markdown, noConfig := true }

theorem tables_shape_builtin :
    configOf barredWorld builtinValues = .ok ⟨Language.builtins, []⟩ ∧
    (∃ t, (languages barredWorld barredSession builtinValues).written Emission.outText =
      "# Languages\n\n" ++ t ++ "\n" ∧ IsTable 3 2 t) ∧
    ∃ t, (detect barredWorld barredSession builtinValues ["a|b.bash"]).written Emission.outText =
      "# Detected Languages\n\n" ++ t ++ "\n" ∧ IsTable 2 1 t := by
  have hconfig : configOf barredWorld builtinValues = .ok ⟨Language.builtins, []⟩ := by
    decide +kernel
  have hregistry : (Registry.ofConfig ⟨Language.builtins, []⟩).languages = Language.builtins := by
    decide +kernel
  have hdone : (["a|b.bash"] : List Text).mapM
      (detectedIn barredWorld (.ofList Language.builtins)) =
      .ok [.ok ⟨"a|b.bash", ⟨"bash", ["bash", "sh"], "Bash scripts (*.bash, *.sh)"⟩⟩] := by
    decide +kernel
  obtain ⟨⟨t, ht, hlanguages⟩, hdetect, hlanguage, hfile⟩ :=
    tables_shape (s := barredSession) rfl hconfig
  obtain ⟨u, hu, hfiles⟩ := hdetect ["a|b.bash"] _ _ rfl hdone
  rw [hregistry] at hlanguages
  have hclean : ∀ l ∈ Language.builtins, ∀ t ∈ l.texts, escape ∉ t := by decide +kernel
  have hfits : ∀ l ∈ Language.builtins, (∀ t ∈ l.texts, '\n' ∉ t) ∧ openPipes l.name = 0 ∧
      ∀ e ∈ l.extensions, openPipes e = 0 := by decide +kernel
  refine ⟨hconfig, ⟨t, ht, hlanguages.mpr ?_⟩, u, hu, hfiles.mpr ?_⟩
  · intro l hl
    exact (hlanguage l fun t ht => Or.inr (hclean l hl t ht)).mpr (hfits l hl)
  · intro f hf
    rw [List.mem_singleton.mp hf]
    exact (hfile _ (Or.inr (by decide)) (Or.inr (by decide))).mpr (by decide)

def barredRow : Text := "| `a|b`    | `.x`           |                             |"

def barredLines : List Text := [
  "| Language | Extensions     | Description                 |",
  "| -------- | -------------- | --------------------------- |",
  "| `bash`   | `.bash`, `.sh` | Bash scripts (*.bash, *.sh) |",
  "| `zsh`    | `.zsh`, `.sh`  | Zsh scripts (*.zsh, *.sh)   |",
  barredRow]

/-- A configured name with a pipe gives its row a cell too many, and there is no table. -/
theorem languages_barred :
    (run barredWorld ["languages", "--no-config", "-c", "a.toml", "--format", "markdown"]).output =
      "# Languages\n\n" ++ Text.ended barredLines ++ "\n" ∧
    (cells barredRow).length = 6 ∧ ¬ IsTable 3 3 (Text.ended barredLines) := by
  refine ⟨by decide +kernel, by decide +kernel, ?_⟩
  rintro ⟨header, separator, body, hsplit, -, -, hall⟩
  have hlines : barredLines = header :: separator :: body := by
    have hread : (Text.ended barredLines).splitOn '\n' = barredLines ++ [[]] :=
      Text.splitOn_ended (by decide +kernel)
    exact List.append_cancel_right (hread.symm.trans hsplit)
  have hrow : barredRow ∈ header :: separator :: body := by
    rw [← hlines]
    decide
  exact absurd (hall barredRow hrow) (by decide)

end CommandLine

end Shebang
