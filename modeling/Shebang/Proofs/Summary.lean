import Shebang.Proofs.Framing
import Shebang.Proofs.TableReading

/-!
The summary of scripts in Markdown. Its cells are escaped, so whatever stands in labels, flags and
arguments, each script has a row of its own from which its fields can be read.
-/

namespace Shebang

namespace Report

open Markdown

def summaryCells (item : ScanItem) : List Text :=
  let fields : List Text :=
    match item.script.shebang with
    | none => ["", "", "", ""]
    | some s => [s.form.name, codeSpan s.interpreterToken, Text.joinWith " " s.launcherFlags,
        s.arguments.getD []]
  codeSpan item.label :: fields ++ [strong item.script.tag.name]

theorem escapeCell_codeSpan (t : Text) : escapeCell (codeSpan t) = codeSpan (escapeCell t) := by
  have hspan : codeSpan t = ['`'] ++ t ++ ['`'] := rfl
  rw [hspan, escapeCell_append, escapeCell_append]
  rfl

theorem summaryRow_eq (item : ScanItem) : summaryRow item = (summaryCells item).map escapeCell := by
  have hform : ∀ form : Form, escapeCell form.name = form.name := by
    intro form
    cases form <;> rfl
  have htag : ∀ tag : Tag, escapeCell (strong tag.name) = strong tag.name := by
    intro tag
    cases tag <;> rfl
  rw [summaryRow, summaryCells]
  cases item.script.shebang with
  | none =>
    simp only [List.cons_append, List.nil_append, List.map_cons, List.map_nil, escapeCell_codeSpan,
      htag]
    rfl
  | some s =>
    simp only [List.cons_append, List.nil_append, List.map_cons, List.map_nil, escapeCell_codeSpan,
      hform, htag]

theorem newline_summaryCells {item : ScanItem} (h : Labelled item) :
    ∀ t ∈ summaryCells item, '\n' ∉ t := by
  obtain ⟨hlabel, text, hscript⟩ := h
  have hlabelSpan : '\n' ∉ codeSpan item.label := (mem_codeSpan (by decide)).not.mpr hlabel
  have htag : '\n' ∉ strong item.script.tag.name := by
    cases item.script.tag <;> decide
  have hframe : ∀ fields : List Text, (∀ t ∈ fields, '\n' ∉ t) →
      ∀ t ∈ codeSpan item.label :: fields ++ [strong item.script.tag.name], '\n' ∉ t := by
    intro fields hfields
    rw [List.cons_append, List.forall_mem_cons, List.forall_mem_append, List.forall_mem_singleton]
    exact ⟨hlabelSpan, hfields, htag⟩
  cases hs : item.script.shebang with
  | none =>
    simp only [summaryCells, hs]
    exact hframe _ (by decide)
  | some s =>
    rw [hscript] at hs
    obtain ⟨-, hflags, htoken, harguments⟩ := oneLine_of_recognize hs
    rw [← hscript] at hs
    have hform : '\n' ∉ s.form.name := by
      cases s.form <;> decide
    have htokenSpan : '\n' ∉ codeSpan s.interpreterToken :=
      (mem_codeSpan (by decide)).not.mpr htoken
    have hjoined : '\n' ∉ Text.joinWith " " s.launcherFlags :=
      newline_joinWith (by decide) hflags
    have hgiven : '\n' ∉ s.arguments.getD [] := by
      cases ha : s.arguments with
      | none => exact List.not_mem_nil
      | some a => exact harguments a ha
    simp only [summaryCells, hs]
    apply hframe
    simp only [List.forall_mem_cons]
    exact ⟨hform, htokenSpan, hjoined, hgiven, List.forall_mem_nil _⟩

def summaryLines (items : List ScanItem) : List Text :=
  escapedLines summaryHeaders (items.map summaryCells)

variable {items : List ScanItem}

theorem table_summary (items : List ScanItem) :
    table summaryHeaders (items.map summaryRow) = Text.ended (summaryLines items) := by
  have hheaders : summaryHeaders = summaryHeaders.map escapeCell := by decide
  have hrows : items.map summaryRow =
      (items.map summaryCells).map fun row => row.map escapeCell := by
    rw [List.map_map]
    exact List.map_congr_left fun item _ => summaryRow_eq item
  rw [hrows]
  exact (congrArg (table · _) hheaders).trans (table_escaped _ _)

theorem readsBack_summary (h : ∀ item ∈ items, Labelled item) :
    ReadsBack summaryHeaders (items.map summaryCells) (summaryLines items) := by
  apply readsBack_escaped (by decide)
  · rw [List.forall_mem_map]
    intro item _
    rw [summaryCells]
    cases item.script.shebang <;> rfl
  · rw [List.forall_mem_cons, List.forall_mem_map]
    exact ⟨by decide, fun item hitem => newline_summaryCells (h item hitem)⟩

/-- Tables of escaped cells are read back. The summary that a report begins with is such a table; a
console shows it line by line, and a line as it is in color or where no control sequence begins in
it. -/
theorem tables_readBack :
    (∀ (headers : List Text) (rows : List (List Text)), headers ≠ [] →
      (∀ row ∈ rows, row.length = headers.length) →
      (∀ texts ∈ headers :: rows, ∀ t ∈ texts, '\n' ∉ t) →
      ∃ lines, tableOf (headers.map escapeCell) (rows.map fun row => row.map escapeCell) =
        .ok (Text.ended lines) ∧ ReadsBack headers rows lines) ∧
    ∀ (c : Console) (showNodes : Bool) (inputs : List (Text × Text)),
      (∀ input ∈ inputs, '\n' ∉ input.1) →
      ∃ lines rest, scan c .markdown showNodes (recognized inputs) =
          ("# ShebangScan Results\n" : Text) :: Text.ended lines ::
            (if showNodes then (recognized inputs).flatMap nodeTable else []) ∧
        ReadsBack summaryHeaders ((recognized inputs).map summaryCells) lines ∧
        Emission.outputOf ((scan c .markdown showNodes (recognized inputs)).map c.printLine) =
          "# ShebangScan Results\n\n" ++ Text.ended (lines.map c.shown) ++ '\n' :: rest ∧
        ∀ line ∈ lines, '\n' ∉ c.shown line ∧ (Faithful c line → c.shown line = line) := by
  constructor
  · intro headers rows hne hrows hfree
    exact ⟨_, tableOf_escaped hne hrows, readsBack_escaped hne hrows hfree⟩
  · intro c showNodes inputs hlabels
    have hreport : scan c .markdown showNodes (recognized inputs) =
        ("# ShebangScan Results\n" : Text) :: Text.ended (summaryLines (recognized inputs)) ::
          (if showNodes then (recognized inputs).flatMap nodeTable else []) := by
      rw [← table_summary]
      rfl
    have hreads := readsBack_summary (labelled_recognized hlabels)
    refine ⟨summaryLines (recognized inputs), Emission.outputOf
      ((if showNodes then (recognized inputs).flatMap nodeTable else []).map c.printLine),
      hreport, hreads, ?_, ?_⟩
    · have htitle : ("# ShebangScan Results\n\n" : Text) = "# ShebangScan Results\n" ++ ['\n'] := by
        decide
      rw [hreport, Console.output_cons, Console.output_cons, Console.shown_ended,
        Console.shown_clean (by decide), htitle, List.append_assoc, List.append_assoc,
        List.singleton_append]
    · intro line hline
      exact ⟨Console.newline_shown.not.mpr (hreads.framed line hline), Faithful.shown⟩

theorem tables_readBack_bars :
    (∃ lines, tableOf ["A\\|", "B"] [["x\\|y\\\\", " 1"]] = .ok (Text.ended lines) ∧
      ReadsBack ["A|", "B"] [["x|y\\", " 1"]] lines) ∧
    ∃ lines rest, Emission.outputOf ((scan ⟨true⟩ .markdown false
        (recognized [("a|b", "#!/bin/x|\\ \\|\n")])).map (Console.mk true).printLine) =
      "# ShebangScan Results\n\n" ++ Text.ended lines ++ '\n' :: rest ∧
      ReadsBack summaryHeaders
        [["`a|b`", "direct", "`x|\\`", "", "\\|", "**none**"]] lines := by
  obtain ⟨hrows, hsummary⟩ := tables_readBack
  refine ⟨hrows ["A|", "B"] [["x|y\\", " 1"]] nofun (by decide) (by decide), ?_⟩
  obtain ⟨lines, rest, -, hreads, houtput, hshown⟩ := hsummary ⟨true⟩ false
    [("a|b", "#!/bin/x|\\ \\|\n")] (by decide)
  have hcells : (recognized [("a|b", "#!/bin/x|\\ \\|\n")]).map summaryCells =
      ([["`a|b`", "direct", "`x|\\`", "", "\\|", "**none**"]] : List (List Text)) := by
    decide +kernel
  have hsame : lines.map (Console.mk true).shown = lines := by
    rw [List.map_congr_left fun line hline => (hshown line hline).2 (Or.inl rfl), List.map_id']
  rw [hcells] at hreads
  rw [hsame] at houtput
  exact ⟨lines, rest, houtput, hreads⟩

end Report

end Shebang
