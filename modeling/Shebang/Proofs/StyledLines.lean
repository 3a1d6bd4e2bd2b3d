import Shebang.Proofs.JsonReader
import Shebang.Proofs.Stripping
import Shebang.Report.Language

/-!
The lines of a report, with their styled parts. In color a styled part stands between switches of
style, and without color it stands by itself; either way the fragments of the line are the same.
-/

namespace Shebang

open Terminal (Sequences Style escape)

structure StyledPart where
  style : Style
  text : Text
  after : Text
  opens : style.opening ≠ []

structure StyledLine where
  first : Text
  parts : List StyledPart

namespace StyledLine

def ofText (t : Text) : StyledLine := ⟨t, []⟩

def on (c : Console) (l : StyledLine) : Text :=
  l.first ++ l.parts.flatMap fun p => c.styled p.style p.text ++ p.after

def fragments (l : StyledLine) : List Text :=
  l.first :: l.parts.flatMap fun p => [p.text, p.after]

def plain (l : StyledLine) : Text := l.fragments.flatten

def output (c : Console) (lines : List StyledLine) : Text :=
  Emission.outputOf (lines.map fun l => c.printLine (l.on c))

/-- What is printed of lines without color where the sequences of a kind are removed. -/
def printed (g : Sequences) (lines : List StyledLine) : Text :=
  lines.flatMap fun l => g.remove (l.plain ++ ['\n'])

variable {g : Sequences} {l : StyledLine} {lines : List StyledLine}

theorem on_plain (l : StyledLine) : l.on ⟨false⟩ = l.plain := by
  have hparts : ∀ parts : List StyledPart,
      (parts.flatMap fun p => (Console.mk false).styled p.style p.text ++ p.after) =
        (parts.flatMap fun p => [p.text, p.after]).flatten := by
    intro parts
    induction parts with
    | nil => rfl
    | cons p parts ih =>
      rw [List.flatMap_cons, List.flatMap_cons, ih]
      simp [Console.styled]
  rw [on, hparts, plain, fragments, List.flatten_cons]

theorem remove_on (l : StyledLine) : g.remove (l.on ⟨true⟩) = l.fragments.flatMap g.remove := by
  obtain ⟨first, parts⟩ := l
  -- Behind a part the line goes on like a line that begins with the text after the part.
  induction parts generalizing first with
  | nil => simp [on, fragments]
  | cons p parts ih =>
    have hcons : (StyledLine.mk first (p :: parts)).on ⟨true⟩ =
        first ++ (p.style.apply p.text ++ (StyledLine.mk p.after parts).on ⟨true⟩) := by
      simp [on, Console.styled]
    rw [hcons, Sequences.remove_apply p.opens, ih]
    simp [fragments]

theorem remove_output (lines : List StyledLine) : g.remove (output ⟨true⟩ lines) =
    lines.flatMap fun l => l.fragments.flatMap g.remove ++ ['\n'] := by
  induction lines with
  | nil => rfl
  | cons l lines ih =>
    have hcons : output ⟨true⟩ (l :: lines) = l.on ⟨true⟩ ++ '\n' :: output ⟨true⟩ lines :=
      List.append_assoc (l.on ⟨true⟩) ['\n'] (output ⟨true⟩ lines)
    rw [hcons, Sequences.remove_line, remove_on, ih]
    simp

theorem output_plain (lines : List StyledLine) : output ⟨false⟩ lines = printed .control lines := by
  induction lines with
  | nil => rfl
  | cons l lines ih =>
    have hcons : output ⟨false⟩ (l :: lines) =
      Terminal.strip (l.on ⟨false⟩ ++ ['\n']) ++ output ⟨false⟩ lines := rfl
    rw [hcons, ih, on_plain, ← Sequences.remove_control]
    rfl

theorem flatMap_eq_iff {u v : StyledLine → Text}
    (h : ∀ l, u l = v l ∨ (u l).length < (v l).length) :
    lines.flatMap u = lines.flatMap v ↔ ∀ l ∈ lines, u l = v l := by
  have hle : ∀ lines : List StyledLine, (lines.flatMap u).length ≤ (lines.flatMap v).length := by
    intro lines
    induction lines with
    | nil => exact Nat.le_refl 0
    | cons l lines ih =>
      rw [List.flatMap_cons, List.flatMap_cons, List.length_append, List.length_append]
      rcases h l with hl | hl
      · rw [hl]
        exact Nat.add_le_add_left ih _
      · exact Nat.add_le_add (Nat.le_of_lt hl) ih
  induction lines with
  | nil => exact iff_of_true rfl (List.forall_mem_nil _)
  | cons l lines ih =>
    rw [List.forall_mem_cons, List.flatMap_cons, List.flatMap_cons]
    rcases h l with hl | hl
    · rw [hl, List.append_cancel_left_eq, and_iff_right rfl]
      exact ih
    · refine iff_of_false (fun he => ?_) fun he => ?_
      · have hlen := congrArg List.length he
        rw [List.length_append, List.length_append] at hlen
        have := hle lines
        omega
      · rw [he.1] at hl
        exact Nat.lt_irrefl _ hl

/-- Lines without color are lines in color without the sequences, exactly if in no line a sequence
begins in one fragment and ends in a later one. -/
theorem printed_iff : printed g lines = g.remove (output ⟨true⟩ lines) ↔
    ∀ l ∈ lines, g.Separate l.fragments := by
  have hline : ∀ l : StyledLine, g.remove (l.plain ++ ['\n']) = g.remove l.plain ++ ['\n'] :=
    fun l => Sequences.remove_line l.plain []
  have hshort : ∀ l : StyledLine,
      g.remove (l.plain ++ ['\n']) = l.fragments.flatMap g.remove ++ ['\n'] ∨
      (g.remove (l.plain ++ ['\n'])).length < (l.fragments.flatMap g.remove ++ ['\n']).length := by
    intro l
    rw [hline, List.length_append, List.length_append]
    by_cases hl : g.Separate l.fragments
    · exact Or.inl (congrArg (· ++ ['\n']) (Sequences.remove_separate hl))
    · exact Or.inr (Nat.add_lt_add_right (Sequences.remove_flatten_lt hl) 1)
  rw [remove_output, printed, flatMap_eq_iff hshort]
  refine forall_congr' fun l => imp_congr_right fun _ => ?_
  rw [hline, List.append_cancel_right_eq]
  exact Sequences.remove_flatten_iff

theorem separate_ofText (t : Text) : g.Separate (ofText t).fragments :=
  ⟨Sequences.not_crosses_nil, trivial⟩

end StyledLine

namespace Report

open StyledLine (ofText)

def IsText (l : StyledLine) : Prop := ∃ t, l = ofText t

def IsInert (l : StyledLine) : Prop := ∃ t, l = ofText t ∧ escape ∉ t

/-- What is known of the lines of a report in some format. Only the plain format is styled, and even
there no sequence with a letter at its end crosses a seam. -/
structure LinesIn (format : OutputFormat) (lines : List StyledLine) : Prop where
  text : format ≠ .default → ∀ l ∈ lines, IsText l
  inert : format.isMachine = true → ∀ l ∈ lines, IsInert l
  separate : ∀ l ∈ lines, Sequences.lettered.Separate l.fragments

section Formats

variable {format : OutputFormat} {texts : Console → List Text} {styled lines : List StyledLine}

@[simp] theorem on_ofText (c : Console) (t : Text) : (ofText t).on c = t := List.append_nil t

theorem output_inert (h : ∀ l ∈ lines, IsInert l) (c : Console) :
    StyledLine.output c lines = lines.flatMap fun l => l.first ++ ['\n'] := by
  have hon : ∀ l ∈ lines, l.on c = l.first ∧ escape ∉ l.first := by
    intro l hl
    obtain ⟨t, rfl, ht⟩ := h l hl
    exact ⟨on_ofText c t, ht⟩
  have hplain : ∀ t ∈ lines.map StyledLine.first, escape ∉ t := by
    intro t ht
    obtain ⟨l, hl, rfl⟩ := List.mem_map.mp ht
    exact (hon l hl).2
  have houtput := c.output_plain hplain
  rw [List.map_map, List.flatMap_map] at houtput
  rw [StyledLine.output, ← houtput]
  exact congrArg Emission.outputOf (List.map_congr_left fun l hl => by
    rw [(hon l hl).1, Function.comp_apply])

theorem escape_inert (h : ∀ l ∈ lines, IsInert l) :
    escape ∉ lines.flatMap fun l => l.first ++ ['\n'] := by
  intro he
  obtain ⟨l, hl, hm⟩ := List.mem_flatMap.mp he
  obtain ⟨t, rfl, ht⟩ := h l hl
  rcases List.mem_append.mp hm with hm | hm
  · exact ht hm
  · exact absurd (List.mem_singleton.mp hm) (by decide)

theorem LinesIn.nil : LinesIn format [] :=
  ⟨fun _ => List.forall_mem_nil _, fun _ => List.forall_mem_nil _, List.forall_mem_nil _⟩

theorem LinesIn.single {t : Text} (h : escape ∉ t) : LinesIn format [ofText t] where
  text _ := List.forall_mem_singleton.mpr ⟨t, rfl⟩
  inert _ := List.forall_mem_singleton.mpr ⟨t, rfl, h⟩
  separate := List.forall_mem_singleton.mpr (StyledLine.separate_ofText t)

theorem IsText.separate {g : Sequences} {l : StyledLine} (h : IsText l) :
    g.Separate l.fragments := by
  obtain ⟨t, rfl⟩ := h
  exact StyledLine.separate_ofText t

def linesIn (format : OutputFormat) (texts : Console → List Text) (styled : List StyledLine) :
    List StyledLine :=
  if format = .default then styled else (texts ⟨false⟩).map ofText

theorem linesIn_shown (texts : Console → List Text)
    (hstyled : format = .default → ∀ c, texts c = styled.map (StyledLine.on c))
    (htexts : format ≠ .default → ∀ c, texts c = texts ⟨false⟩) (c : Console) :
    texts c = (linesIn format texts styled).map (StyledLine.on c) := by
  rw [linesIn]
  split_ifs with h
  · exact hstyled h c
  · rw [htexts h c, List.map_map]
    simp [Function.comp_def]

theorem linesIn_lines
    (hmachine : format.isMachine = true →
      ∃ layout, ∃ values : List Json, texts ⟨false⟩ = values.map (Json.render layout))
    (hseparate : ∀ l ∈ styled, Sequences.lettered.Separate l.fragments) :
    LinesIn format (linesIn format texts styled) := by
  have htext : format ≠ .default → ∀ l ∈ linesIn format texts styled, IsText l := by
    intro h l hl
    rw [linesIn, if_neg h] at hl
    obtain ⟨t, -, rfl⟩ := List.mem_map.mp hl
    exact ⟨t, rfl⟩
  refine ⟨htext, ?_, ?_⟩
  · intro h l hl
    obtain ⟨layout, values, hvalues⟩ := hmachine h
    have hformat : format ≠ .default := by
      rintro rfl
      cases h
    rw [linesIn, if_neg hformat, hvalues] at hl
    obtain ⟨t, ht, rfl⟩ := List.mem_map.mp hl
    obtain ⟨j, -, rfl⟩ := List.mem_map.mp ht
    exact ⟨_, rfl, Json.escape_render layout j⟩
  · intro l hl
    by_cases h : format = .default
    · rw [linesIn, if_pos h] at hl
      exact hseparate l hl
    · exact (htext h l hl).separate

end Formats

section Seams

open Terminal.Sequences (lettered)

theorem inert_blank : lettered.Inert ' ' := by decide

/-- Where blanks stand at each seam, no sequence with a letter at its end crosses it. -/
theorem separate_part (first : Text) (style : Style) (t : Text) (h : style.opening ≠ []) :
    lettered.Separate (StyledLine.mk (first ++ [' ']) [⟨style, t, [], h⟩]).fragments :=
  ⟨Sequences.inert_not_crosses inert_blank, Sequences.not_crosses_nil, Sequences.not_crosses_nil,
    trivial⟩

theorem separate_whole (style : Style) (t : Text) (h : style.opening ≠ []) :
    lettered.Separate (StyledLine.mk [] [⟨style, t, [], h⟩]).fragments :=
  ⟨Sequences.nil_not_crosses, Sequences.not_crosses_nil, Sequences.not_crosses_nil, trivial⟩

end Seams

theorem tagStyle_opens (tag : Tag) : (tagStyle tag).opening ≠ [] := by
  cases tag <;> decide

def summary (item : ScanItem) : StyledLine where
  first := item.label ++ ": "
  parts := [
    ⟨tagStyle item.script.tag, item.script.tag.name, "  ", tagStyle_opens _⟩,
    ⟨dimmed, "(" ++ Script.describe item.script.shebang ++ ")", [], by decide⟩]

theorem separate_summary (item : ScanItem) :
    Sequences.lettered.Separate (summary item).fragments := by
  have hlabel : item.label ++ (": " : Text) = (item.label ++ [':']) ++ [' '] := by simp
  have hgap : ("  " : Text) = [' '] ++ [' '] := rfl
  refine ⟨?_, Sequences.not_crosses_inert inert_blank, ?_, ?_, Sequences.not_crosses_nil, trivial⟩
  · rw [summary, hlabel]
    exact Sequences.inert_not_crosses inert_blank
  · rw [hgap]
    exact Sequences.inert_not_crosses inert_blank
  · exact Sequences.not_crosses_nil

section Scan

variable (format : OutputFormat) (showNodes : Bool) (items : List ScanItem)

def scanLines : List StyledLine :=
  linesIn format (fun c => scan c format showNodes items) (items.flatMap fun item =>
    summary item ::
      if showNodes then item.script.nodes.map fun n => ofText (nodeLine item.script n) else [])

theorem scan_shown (c : Console) :
    scan c format showNodes items = (scanLines format showNodes items).map (StyledLine.on c) := by
  refine linesIn_shown (fun c => scan c format showNodes items) ?_ ?_ c
  · rintro rfl c
    rw [scan, List.map_flatMap]
    refine List.flatMap_congr fun item _ => ?_
    have hsummary : (summary item).on c = summaryLine c item := by
      simp [summary, StyledLine.on, summaryLine]
    rw [itemLines, List.map_cons, hsummary]
    cases showNodes <;> simp
  · intro h c
    cases format <;> first | rfl | exact absurd rfl h

theorem output_scanLines (c : Console) :
    StyledLine.output c (scanLines format showNodes items) =
      Emission.outputOf ((scan c format showNodes items).map c.printLine) := by
  rw [scan_shown, List.map_map]
  rfl

theorem scanLines_lines : LinesIn format (scanLines format showNodes items) := by
  refine linesIn_lines ?_ ?_
  · intro h
    cases format with
    | default => cases h
    | markdown => cases h
    | json => exact ⟨documentLayout, [_], rfl⟩
    | ndjson =>
      refine ⟨.oneLine, items.map (itemJson showNodes), ?_⟩
      rw [List.map_map]
      rfl
  · intro l hl
    obtain ⟨item, -, hl⟩ := List.mem_flatMap.mp hl
    rcases List.mem_cons.mp hl with rfl | hl
    · exact separate_summary item
    · split_ifs at hl with hnodes
      · obtain ⟨n, -, rfl⟩ := List.mem_map.mp hl
        exact StyledLine.separate_ofText _
      · cases hl

end Scan

section Detected

variable (format : OutputFormat) (verbosity : Int) (files : List DetectedFile)

def detectedLine (f : DetectedFile) : StyledLine where
  first := f.label ++ ": "
  parts := [⟨bold, f.language.name, [], by decide⟩]

def detectedLines : List StyledLine :=
  linesIn format (fun c => detected c format verbosity files)
    (if verbosity < 0 then [] else files.map detectedLine)

theorem detected_shown (c : Console) : detected c format verbosity files =
    (detectedLines format verbosity files).map (StyledLine.on c) := by
  refine linesIn_shown (fun c => detected c format verbosity files) ?_ ?_ c
  · rintro rfl c
    rw [detected]
    split_ifs with h
    · rfl
    · simp [detectedLine, StyledLine.on]
  · intro h c
    cases format <;> first | rfl | exact absurd rfl h

theorem output_detectedLines (c : Console) :
    StyledLine.output c (detectedLines format verbosity files) =
      Emission.outputOf ((detected c format verbosity files).map c.printLine) := by
  rw [detected_shown, List.map_map]
  rfl

theorem detectedLines_lines : LinesIn format (detectedLines format verbosity files) := by
  refine linesIn_lines ?_ ?_
  · intro h
    cases format with
    | default => cases h
    | markdown => cases h
    | json => exact ⟨documentLayout, [_], rfl⟩
    | ndjson =>
      refine ⟨.oneLine, files.map detectedJson, ?_⟩
      rw [List.map_map]
      rfl
  · intro l hl
    split_ifs at hl with h
    · cases hl
    · obtain ⟨f, -, rfl⟩ := List.mem_map.mp hl
      have hlabel : f.label ++ (": " : Text) = (f.label ++ [':']) ++ [' '] := by simp
      rw [detectedLine, hlabel]
      exact separate_part _ _ _ _

end Detected

section Configured

variable (format : OutputFormat) (verbosity : Int) (config : Config) (languages : List Language)

def numbered (verbose : Bool) (width number : Nat) (l : Language) : StyledLine :=
  let start := Text.padLeft 2 (Text.ofNat number) ++ ". " ++ Text.padRight width l.name ++ "  " ++
    Text.joinWith ", " (l.extensions.map dotted)
  if verbose ∧ l.description ≠ [] then
    ⟨start ++ [' '] ++ [' '], [⟨dimmed, l.description, [], by decide⟩]⟩
  else ofText start

def originLines : List StyledLine :=
  ⟨[], [⟨heading, "Configured languages:\n", [], by decide⟩]⟩ ::
    config.configFiles.map fun p => ⟨[], [⟨dimmed, "  (from " ++ p.display ++ ")", [], by decide⟩]⟩

def configuredLines : List StyledLine :=
  linesIn format (fun c => configured c format verbosity config languages)
    ((if 0 < verbosity then originLines config else []) ++
      languages.mapIdx fun i l => numbered (0 < verbosity)
        ((languages.map fun l => l.name.length).foldl max 0) (i + 1) l)

theorem numbered_shown (c : Console) (verbose : Bool) (width number : Nat) (l : Language) :
    (numbered verbose width number l).on c = languageLine c verbose width number l := by
  rw [numbered, languageLine]
  split_ifs with h
  · simp [StyledLine.on]
  · simp

theorem configured_shown (c : Console) : configured c format verbosity config languages =
    (configuredLines format verbosity config languages).map (StyledLine.on c) := by
  refine linesIn_shown (fun c => configured c format verbosity config languages) ?_ ?_ c
  · rintro rfl c
    have hlanguages : ∀ verbose width, (languages.mapIdx fun i l =>
        numbered verbose width (i + 1) l).map (StyledLine.on c) =
          languages.mapIdx fun i l => languageLine c verbose width (i + 1) l := by
      intro verbose width
      simp only [List.mapIdx_eq_zipIdx_map, List.map_map, Function.comp_def, numbered_shown]
    rw [configured, List.map_append, hlanguages, languageLines]
    refine congrArg (· ++ _) ?_
    split_ifs with h
    · simp [originLines, StyledLine.on]
    · rfl
  · intro h c
    cases format <;> first | rfl | exact absurd rfl h

theorem configuredLines_lines :
    LinesIn format (configuredLines format verbosity config languages) := by
  refine linesIn_lines ?_ ?_
  · intro h
    cases format with
    | default => cases h
    | markdown => cases h
    | json => exact ⟨documentLayout, [_], rfl⟩
    | ndjson =>
      refine ⟨.oneLine, languages.map languageJson, ?_⟩
      rw [List.map_map]
      rfl
  · intro l hl
    rcases List.mem_append.mp hl with hl | hl
    · split_ifs at hl with h
      · rcases List.mem_cons.mp hl with rfl | hl
        · exact separate_whole _ _ _
        · obtain ⟨p, -, rfl⟩ := List.mem_map.mp hl
          exact separate_whole _ _ _
      · cases hl
    · obtain ⟨i, hi, rfl⟩ := List.mem_mapIdx.mp hl
      rw [numbered]
      split_ifs with h
      · exact separate_part _ _ _ _
      · exact StyledLine.separate_ofText _

end Configured

section Version

variable (format : OutputFormat) (verbosity : Int)

def versionLines : List StyledLine :=
  linesIn format (fun c => versionOf c format verbosity)
    (if 0 < verbosity then
      [⟨[], [⟨heading, "ShebangScan version:\n", [], by decide⟩]⟩,
        ⟨[' ', ' ', ' '] ++ [' '], [⟨bold, version, [], by decide⟩]⟩]
    else [⟨[], [⟨bold, version, [], by decide⟩]⟩])

theorem versionOf_shown (c : Console) : versionOf c format verbosity =
    (versionLines format verbosity).map (StyledLine.on c) := by
  refine linesIn_shown (fun c => versionOf c format verbosity) ?_ ?_ c
  · rintro rfl c
    rw [versionOf]
    split_ifs with h
    · simp [StyledLine.on]
    · simp [StyledLine.on]
  · intro h c
    cases format <;> first | rfl | exact absurd rfl h

theorem versionLines_lines : LinesIn format (versionLines format verbosity) := by
  refine linesIn_lines ?_ ?_
  · intro h
    cases format with
    | default => cases h
    | markdown => cases h
    | json => exact ⟨.oneLine, [_], rfl⟩
    | ndjson => exact ⟨.oneLine, [_], rfl⟩
  · intro l hl
    split_ifs at hl with h
    · simp only [List.mem_cons, List.not_mem_nil, or_false] at hl
      rcases hl with rfl | rfl
      · exact separate_whole _ _ _
      · exact separate_part _ _ _ _
    · rw [List.mem_singleton.mp hl]
      exact separate_whole _ _ _

end Version

end Report

end Shebang
