import Shebang.Proofs.Tables

/-!
Tables are read back. A line is cut at its open pipes, a piece loses its padding and then its
escapes; what was escaped before it was put into a table comes back, but for blanks at its end.
-/

namespace Shebang

namespace Markdown

def unescape : Text → Text
  | [] => []
  | [c] => [c]
  | c :: d :: t => if c = '\\' then d :: unescape t else c :: unescape (d :: t)

def trimmed (t : Text) : Text := t.trimEnd (· == ' ')

/-- What stands in a piece between two pipes, without its padding and without its escapes. -/
def readCell (piece : Text) : Text := unescape (trimmed (piece.drop 1))

def readRow (line : Text) : List Text := (cells line).tail.dropLast.map readCell

/-- Lines of one width, each cut into as many cells as there are headers, with a header line, a
separator and a line for each row; the cells of header and rows come back, but for blanks at their
ends. -/
structure ReadsBack (headers : List Text) (rows : List (List Text)) (lines : List Text) : Prop where
  length : lines.length = rows.length + 2
  framed : ∀ line ∈ lines, '\n' ∉ line
  even : ∀ line ∈ lines, ∀ other ∈ lines, line.length = other.length
  pieces : ∀ line ∈ lines, ∃ pieces, cells line = [] :: (pieces ++ [[]]) ∧
    pieces.length = headers.length
  contents : ∃ header separator body, lines = header :: separator :: body ∧
    readRow header = headers.map trimmed ∧ (∀ c ∈ separator, c = '|' ∨ c = '-' ∨ c = ' ') ∧
    body.map readRow = rows.map fun row => row.map trimmed

structure Closed (t : Text) : Prop where
  pipes : openPipes t = 0
  after : escapedAfter false t = false

section Reading

variable {t u v : Text} {escaped : Bool}

theorem escapeCell_append (u v : Text) : escapeCell (u ++ v) = escapeCell u ++ escapeCell v :=
  List.flatMap_append

theorem unescape_cons {c : Char} (h : c ≠ '\\') (t : Text) :
    unescape (c :: t) = c :: unescape t := by
  cases t with
  | nil => rfl
  | cons d t => exact if_neg h

theorem unescape_escapeCell (t : Text) : unescape (escapeCell t) = t := by
  induction t with
  | nil => rfl
  | cons c t ih =>
    rw [escapeCell, List.flatMap_cons, ← escapeCell, escapeChar]
    by_cases hc : c = '\\' ∨ c = '|'
    · rw [if_pos hc]
      exact congrArg (c :: ·) ih
    · rw [if_neg hc, List.singleton_append, unescape_cons (not_or.mp hc).1, ih]

theorem escapedAfter_append (escaped : Bool) (u v : Text) :
    escapedAfter escaped (u ++ v) = escapedAfter (escapedAfter escaped u) v := by
  induction u generalizing escaped with
  | nil => rfl
  | cons c u ih =>
    cases escaped with
    | true => exact ih false
    | false => exact ih (c == '\\')

theorem Closed.append (hu : Closed u) (hv : Closed v) : Closed (u ++ v) := by
  constructor
  · rw [openPipes, pipesFrom_append, hu.after]
    exact Nat.add_eq_zero_iff.mpr ⟨hu.pipes, hv.pipes⟩
  · rw [escapedAfter_append, hu.after, hv.after]

theorem closed_nil : Closed [] := ⟨rfl, rfl⟩

theorem closed_plain (h : ∀ c ∈ t, Plain c) : Closed t := by
  induction t with
  | nil => exact closed_nil
  | cons c t ih =>
    obtain ⟨hc, ht⟩ := List.forall_mem_cons.mp h
    obtain ⟨hpipes, hafter⟩ := ih ht
    constructor
    · rw [openPipes_cons hc, hpipes]
    · rw [escapedAfter, beq_eq_false_iff_ne.mpr hc.2, hafter]

theorem closed_escapeCell (t : Text) : Closed (escapeCell t) := by
  constructor
  · have hpipes := openPipes_escapeCell t []
    rw [List.append_nil] at hpipes
    exact hpipes
  · induction t with
    | nil => rfl
    | cons c t ih =>
      rw [escapeCell, List.flatMap_cons, ← escapeCell, escapeChar]
      split_ifs with hc
      · exact ih
      · rw [List.singleton_append, escapedAfter, beq_eq_false_iff_ne.mpr (not_or.mp hc).1, ih]

theorem cellsFrom_cut (hpipes : pipesFrom escaped u = 0) (hafter : escapedAfter escaped u = false)
    (v : Text) : cellsFrom escaped (u ++ '|' :: v) = u :: cells v := by
  induction u generalizing escaped with
  | nil =>
    rw [show escaped = false from hafter]
    rfl
  | cons c u ih =>
    cases escaped with
    | true => rw [List.cons_append, cellsFrom, ih hpipes hafter, List.modifyHead_cons]
    | false =>
      rw [pipesFrom] at hpipes
      by_cases hc : c = '|'
      · rw [if_pos hc] at hpipes
        exact absurd hpipes (Nat.succ_ne_zero _)
      · rw [if_neg hc] at hpipes
        rw [List.cons_append, cellsFrom, if_neg hc, ih hpipes hafter, List.modifyHead_cons]

theorem cells_cut (hu : Closed u) (v : Text) : cells (u ++ '|' :: v) = u :: cells v :=
  cellsFrom_cut hu.pipes hu.after v

theorem cells_pieces {pieces : List Text} (h : ∀ piece ∈ pieces, Closed piece) :
    cells ('|' :: pieces.flatMap (· ++ ['|'])) = [] :: (pieces ++ [[]]) := by
  have hpieces : cells (pieces.flatMap (· ++ ['|'])) = pieces ++ [[]] := by
    induction pieces with
    | nil => rfl
    | cons piece pieces ih =>
      obtain ⟨hpiece, hrest⟩ := List.forall_mem_cons.mp h
      rw [List.flatMap_cons, List.append_assoc, List.singleton_append, cells_cut hpiece, ih hrest]
      rfl
  exact (cells_cut closed_nil _).trans (congrArg ([] :: ·) hpieces)

end Reading

section Padding

variable {t u : Text}

theorem trimmed_blanks (h : Text.Stops (· == ' ') u.reverse) (n : Nat) :
    trimmed (u ++ List.replicate n ' ') = u := by
  apply trimEnd_run h
  intro x hx
  rw [List.eq_of_mem_replicate hx]
  rfl

theorem exists_trimmed (t : Text) :
    ∃ u n, t = u ++ List.replicate n ' ' ∧ Text.Stops (· == ' ') u.reverse := by
  have hblanks : t.reverse.takeWhile (· == ' ') =
      List.replicate (t.reverse.takeWhile (· == ' ')).length ' ' := by
    rw [List.eq_replicate_iff]
    exact ⟨rfl, fun x hx => eq_of_beq (List.mem_takeWhile_imp (p := (· == ' ')) hx)⟩
  refine ⟨(t.reverse.dropWhile (· == ' ')).reverse, (t.reverse.takeWhile (· == ' ')).length, ?_, ?_⟩
  · have hsplit := congrArg List.reverse (t.reverse.takeWhile_append_dropWhile (p := (· == ' ')))
    rw [List.reverse_append, List.reverse_reverse, hblanks, List.reverse_replicate] at hsplit
    exact hsplit.symm
  · rw [List.reverse_reverse]
    exact Text.stops_dropWhile _

theorem escapeCell_blanks (n : Nat) :
    escapeCell (List.replicate n ' ') = List.replicate n ' ' := by
  induction n with
  | zero => rfl
  | succ n ih => exact congrArg (' ' :: ·) ih

theorem stops_escapeCell {p : Char → Bool} (h : Text.Stops p u.reverse) :
    Text.Stops p (escapeCell u).reverse := by
  rcases List.eq_nil_or_concat u with rfl | ⟨init, c, rfl⟩
  · exact h
  · rw [List.concat_eq_append] at h ⊢
    have hlast : ∃ rest, (escapeChar c).reverse = c :: rest := by
      unfold escapeChar
      split_ifs
      · exact ⟨['\\'], rfl⟩
      · exact ⟨[], rfl⟩
    obtain ⟨rest, hlast⟩ := hlast
    rw [List.reverse_concat, Text.stops_cons] at h
    rw [escapeCell_append, List.reverse_append, escapeCell, List.flatMap_singleton, hlast,
      List.cons_append, Text.stops_cons]
    exact h

def piece (width : Nat) (cell : Text) : Text := ' ' :: (cell.padRight width ++ [' '])

theorem readCell_piece (width : Nat) (t : Text) :
    readCell (piece width (escapeCell t)) = trimmed t := by
  obtain ⟨u, n, rfl, hu⟩ := exists_trimmed t
  have hpiece : (piece width (escapeCell (u ++ List.replicate n ' '))).drop 1 =
      escapeCell u ++ List.replicate
        (n + (width - (escapeCell (u ++ List.replicate n ' ')).length + 1)) ' ' := by
    rw [piece, List.drop_one, List.tail_cons, Text.padRight, List.append_assoc,
      ← List.replicate_succ', escapeCell_append, escapeCell_blanks, List.append_assoc,
      ← List.replicate_add]
  rw [readCell, hpiece, trimmed_blanks (stops_escapeCell hu), unescape_escapeCell,
    trimmed_blanks hu]

theorem closed_piece (h : Closed t) (width : Nat) : Closed (piece width t) := by
  have hblanks : ∀ n, Closed (List.replicate n ' ') := by
    intro n
    apply closed_plain
    intro c hc
    rw [List.eq_of_mem_replicate hc]
    decide
  exact (hblanks 1).append ((h.append (hblanks _)).append (hblanks 1))

theorem length_piece (width : Nat) (t : Text) (h : t.length ≤ width) :
    (piece width t).length = width + 2 := by
  simp only [piece, Text.padRight, List.length_cons, List.length_append, List.length_replicate,
    List.length_nil]
  omega

end Padding

section Lines

variable {widths : List Nat} {cells headers : List Text} {rows : List (List Text)}

def pieces (widths : List Nat) (cells : List Text) : List Text := List.zipWith piece widths cells

def Covers (widths : List Nat) (cells : List Text) : Prop :=
  List.Forall₂ (fun width cell => cell.length ≤ width) widths cells

theorem joinWith_bars {texts : List Text} (h : texts ≠ []) :
    "| " ++ Text.joinWith " | " texts ++ " |" =
      '|' :: texts.flatMap fun t => ' ' :: (t ++ [' ']) ++ ['|'] := by
  induction texts with
  | nil => exact absurd rfl h
  | cons t texts ih =>
    by_cases hrest : texts = []
    · subst hrest
      simp [joinWith_singleton]
    · have hcut : "| " ++ (t ++ (" | " ++ Text.joinWith " | " texts)) ++ " |" =
          '|' :: ' ' :: (t ++ ' ' :: ("| " ++ Text.joinWith " | " texts ++ " |")) := by simp
      rw [joinWith_cons _ _ hrest, hcut, ih hrest]
      simp

theorem row_eq (hlen : widths.length = cells.length) (hne : cells ≠ []) :
    row widths cells = '|' :: (pieces widths cells).flatMap (· ++ ['|']) := by
  have hpadded : List.zipWith Text.padRight widths cells ≠ [] := by
    apply List.ne_nil_of_length_pos
    rw [List.length_zipWith, hlen, Nat.min_self]
    exact List.length_pos_of_ne_nil hne
  have hpieces : pieces widths cells =
      (List.zipWith Text.padRight widths cells).map fun t => ' ' :: (t ++ [' ']) := by
    rw [List.map_zipWith]
    rfl
  rw [row, joinWith_bars hpadded, hpieces, List.flatMap_map]

def lineLength (widths : List Nat) : Nat := widths.foldr (fun width n => width + 3 + n) 1

theorem length_barred (h : Covers widths cells) :
    ((pieces widths cells).flatMap (· ++ ['|'])).length + 1 = lineLength widths := by
  induction h with
  | nil => rfl
  | @cons width cell widths cells hcell hcells ih =>
    have hlength : lineLength (width :: widths) = width + 3 + lineLength widths := rfl
    rw [pieces, List.zipWith_cons_cons, List.flatMap_cons, List.length_append, List.length_append,
      length_piece _ _ hcell, ← pieces, hlength, ← ih, List.length_singleton]
    omega

theorem length_row (h : Covers widths cells) (hne : cells ≠ []) :
    (row widths cells).length = lineLength widths := by
  rw [row_eq h.length_eq hne, List.length_cons, length_barred h]

theorem covers_dashes (widths : List Nat) : Covers widths (dashes widths) := by
  rw [Covers, dashes, List.forall₂_map_right_iff, List.forall₂_same]
  intro width _
  rw [List.length_replicate]

theorem Covers.widened {other : List Text} (h : Covers widths cells)
    (hlen : other.length = widths.length) :
    Covers (List.zipWith max widths (other.map List.length)) cells := by
  induction h generalizing other with
  | nil =>
    rw [List.eq_nil_of_length_eq_zero hlen]
    exact .nil
  | cons hcell hcells ih =>
    cases other with
    | nil => cases hlen
    | cons wide other =>
      exact .cons (Nat.le_trans hcell (Nat.le_max_left _ _)) (ih (Nat.succ.inj hlen))

theorem covers_widest (hlen : cells.length = widths.length) :
    Covers (List.zipWith max widths (cells.map List.length)) cells := by
  induction cells generalizing widths with
  | nil =>
    rw [List.eq_nil_of_length_eq_zero hlen.symm]
    exact .nil
  | cons cell cells ih =>
    cases widths with
    | nil => cases hlen
    | cons width widths => exact .cons (Nat.le_max_right _ _) (ih (Nat.succ.inj hlen))

/-- Columns that are made wider, row by row, cover what they covered before and all of the rows. -/
theorem covers_foldl (covered : List (List Text))
    (hcovered : ∀ cells ∈ covered, Covers widths cells)
    (hrows : ∀ cells ∈ rows, cells.length = widths.length) :
    ∀ cells ∈ covered ++ rows,
      Covers (rows.foldl (fun widths row => List.zipWith max widths (row.map List.length)) widths)
        cells := by
  induction rows generalizing covered widths with
  | nil =>
    rw [List.append_nil]
    exact hcovered
  | cons first rows ih =>
    obtain ⟨hfirst, hrest⟩ := List.forall_mem_cons.mp hrows
    rw [List.append_cons]
    apply ih
    · intro cells hcells
      rcases List.mem_append.mp hcells with hcells | hcells
      · exact (hcovered cells hcells).widened hfirst
      · rw [List.mem_singleton.mp hcells]
        exact covers_widest hfirst
    · intro cells hcells
      rw [List.length_zipWith, List.length_map, hfirst, Nat.min_self]
      exact hrest cells hcells

theorem covers_columnWidths (hrows : ∀ cells ∈ rows, cells.length = headers.length) :
    ∀ cells ∈ headers :: rows, Covers (columnWidths headers rows) cells := by
  have hheaders : Covers (headers.map List.length) headers := by
    rw [Covers, List.forall₂_map_left_iff, List.forall₂_same]
    exact fun _ _ => Nat.le_refl _
  apply covers_foldl [headers] (List.forall_mem_singleton.mpr hheaders)
  rw [List.length_map]
  exact hrows

theorem closed_pieces (h : ∀ cell ∈ cells, Closed cell) :
    ∀ p ∈ pieces widths cells, Closed p := by
  induction cells generalizing widths with
  | nil =>
    rw [pieces, List.zipWith_nil_right]
    exact List.forall_mem_nil _
  | cons cell cells ih =>
    obtain ⟨hcell, hcells⟩ := List.forall_mem_cons.mp h
    cases widths with
    | nil => exact List.forall_mem_nil _
    | cons width widths =>
      exact List.forall_mem_cons.mpr ⟨closed_piece hcell width, ih hcells⟩

theorem cells_row (hlen : widths.length = cells.length) (hne : cells ≠ [])
    (h : ∀ cell ∈ cells, Closed cell) :
    Markdown.cells (row widths cells) = [] :: (pieces widths cells ++ [[]]) := by
  rw [row_eq hlen hne, cells_pieces (closed_pieces h)]

theorem length_pieces (hlen : widths.length = cells.length) :
    (pieces widths cells).length = cells.length := by
  rw [pieces, List.length_zipWith, hlen, Nat.min_self]

theorem readCell_pieces {texts : List Text} (hlen : widths.length = texts.length) :
    (pieces widths (texts.map escapeCell)).map readCell = texts.map trimmed := by
  induction texts generalizing widths with
  | nil => rw [pieces, List.map_nil, List.zipWith_nil_right, List.map_nil, List.map_nil]
  | cons t texts ih =>
    cases widths with
    | nil => cases hlen
    | cons width widths =>
      exact congrArg₂ List.cons (readCell_piece width t) (ih (Nat.succ.inj hlen))

theorem readRow_escaped {texts : List Text} (hlen : widths.length = texts.length)
    (hne : texts ≠ []) :
    readRow (row widths (texts.map escapeCell)) = texts.map trimmed := by
  have hclosed : ∀ cell ∈ texts.map escapeCell, Closed cell :=
    List.forall_mem_map.mpr fun t _ => closed_escapeCell t
  have hlength : widths.length = (texts.map escapeCell).length := by rw [List.length_map, hlen]
  have hmap : texts.map escapeCell ≠ [] := fun h => hne (List.map_eq_nil_iff.mp h)
  rw [readRow, cells_row hlength hmap hclosed, List.tail_cons, List.dropLast_concat,
    readCell_pieces hlen]

example : readRow "| a\\|\\\\ |  b  |" = ["a|\\", " b"] := by decide

end Lines

section Tables

variable {widths : List Nat} {cells texts headers : List Text} {rows : List (List Text)}

structure Fills (widths : List Nat) (cells : List Text) : Prop where
  covers : Covers widths cells
  closed : ∀ cell ∈ cells, Closed cell
  framed : ∀ cell ∈ cells, '\n' ∉ cell

theorem fills_escaped (hcovers : Covers widths (texts.map escapeCell))
    (hfree : ∀ t ∈ texts, '\n' ∉ t) : Fills widths (texts.map escapeCell) where
  covers := hcovers
  closed := List.forall_mem_map.mpr fun t _ => closed_escapeCell t
  framed := List.forall_mem_map.mpr fun t ht => (mem_escapeCell (by decide)).not.mpr (hfree t ht)

theorem fills_dashes (widths : List Nat) : Fills widths (dashes widths) := by
  have hdash : ∀ cell ∈ dashes widths, ∀ x ∈ cell, x = '-' := by
    intro cell hcell x hx
    obtain ⟨width, -, rfl⟩ := List.mem_map.mp hcell
    exact List.eq_of_mem_replicate hx
  constructor
  · exact covers_dashes widths
  · intro cell hcell
    apply closed_plain
    intro x hx
    rw [hdash cell hcell x hx]
    decide
  · intro cell hcell hm
    exact absurd (hdash cell hcell _ hm) (by decide)

theorem Fills.line (h : Fills widths cells) (hne : widths ≠ []) :
    '\n' ∉ row widths cells ∧ (row widths cells).length = lineLength widths ∧
      ∃ pieces, Markdown.cells (row widths cells) = [] :: (pieces ++ [[]]) ∧
        pieces.length = widths.length := by
  have hlen : widths.length = cells.length := h.covers.length_eq
  have hcells : cells ≠ [] := by
    rw [← List.length_pos_iff, ← hlen]
    exact List.length_pos_of_ne_nil hne
  refine ⟨?_, length_row h.covers hcells, pieces widths cells, ?_, ?_⟩
  · rw [mem_row (by decide) (by decide) hlen]
    rintro ⟨cell, hcell, hm⟩
    exact h.framed cell hcell hm
  · exact cells_row hlen hcells h.closed
  · rw [length_pieces hlen, hlen]

def escapedColumns (headers : List Text) (rows : List (List Text)) : List Nat :=
  columnWidths (headers.map escapeCell) (rows.map fun row => row.map escapeCell)

def escapedCells (headers : List Text) (rows : List (List Text)) : List (List Text) :=
  headers.map escapeCell :: dashes (escapedColumns headers rows) ::
    rows.map fun row => row.map escapeCell

def escapedLines (headers : List Text) (rows : List (List Text)) : List Text :=
  (escapedCells headers rows).map (row (escapedColumns headers rows))

theorem table_escaped (headers : List Text) (rows : List (List Text)) :
    table (headers.map escapeCell) (rows.map fun row => row.map escapeCell) =
      Text.ended (escapedLines headers rows) :=
  table_eq _ _

theorem lengths_escaped (hrows : ∀ row ∈ rows, row.length = headers.length) :
    ∀ row ∈ rows.map fun row => row.map escapeCell,
      row.length = (headers.map escapeCell).length := by
  rw [List.forall_mem_map]
  intro row hrow
  rw [List.length_map, List.length_map, hrows row hrow]

theorem length_escapedColumns (hrows : ∀ row ∈ rows, row.length = headers.length) :
    (escapedColumns headers rows).length = headers.length := by
  rw [escapedColumns, length_columnWidths (lengths_escaped hrows), List.length_map]

theorem fills_escapedCells (hrows : ∀ row ∈ rows, row.length = headers.length)
    (hfree : ∀ texts ∈ headers :: rows, ∀ t ∈ texts, '\n' ∉ t) :
    ∀ cells ∈ escapedCells headers rows, Fills (escapedColumns headers rows) cells := by
  obtain ⟨hheaders, hbody⟩ := List.forall_mem_cons.mp hfree
  obtain ⟨hheaderCovers, hbodyCovers⟩ :=
    List.forall_mem_cons.mp (covers_columnWidths (lengths_escaped hrows))
  rw [escapedCells, List.forall_mem_cons, List.forall_mem_cons, List.forall_mem_map]
  refine ⟨fills_escaped hheaderCovers hheaders, fills_dashes _, ?_⟩
  intro row hrow
  exact fills_escaped (hbodyCovers _ (List.mem_map_of_mem hrow)) (hbody row hrow)

theorem readsBack_escaped (hne : headers ≠ [])
    (hrows : ∀ row ∈ rows, row.length = headers.length)
    (hfree : ∀ texts ∈ headers :: rows, ∀ t ∈ texts, '\n' ∉ t) :
    ReadsBack headers rows (escapedLines headers rows) := by
  have hcolumns : (escapedColumns headers rows).length = headers.length :=
    length_escapedColumns hrows
  have hcolumnsNe : escapedColumns headers rows ≠ [] := by
    rw [← List.length_pos_iff, hcolumns]
    exact List.length_pos_of_ne_nil hne
  have hlines := fun cells hcells => (fills_escapedCells hrows hfree cells hcells).line hcolumnsNe
  constructor
  · simp [escapedLines, escapedCells]
  · rw [escapedLines, List.forall_mem_map]
    exact fun cells hcells => (hlines cells hcells).1
  · rw [escapedLines, List.forall_mem_map]
    intro cells hcells
    rw [List.forall_mem_map]
    intro other hother
    exact (hlines cells hcells).2.1.trans (hlines other hother).2.1.symm
  · rw [escapedLines, List.forall_mem_map, ← hcolumns]
    exact fun cells hcells => (hlines cells hcells).2.2
  · refine ⟨_, _, _, rfl, readRow_escaped hcolumns hne, Console.separator_chars _, ?_⟩
    rw [List.map_map, List.map_map]
    refine List.map_congr_left fun row hrow => ?_
    have hrowNe : row ≠ [] := by
      rw [← List.length_pos_iff, hrows row hrow]
      exact List.length_pos_of_ne_nil hne
    exact readRow_escaped (hcolumns.trans (hrows row hrow).symm) hrowNe

theorem tableOf_escaped (hne : headers ≠ []) (hrows : ∀ row ∈ rows, row.length = headers.length) :
    tableOf (headers.map escapeCell) (rows.map fun row => row.map escapeCell) =
      .ok (Text.ended (escapedLines headers rows)) := by
  have hmap : headers.map escapeCell ≠ [] := fun h => hne (List.map_eq_nil_iff.mp h)
  have hlengths : (rows.map fun row => row.map escapeCell).all
      (·.length = (headers.map escapeCell).length) = true := by
    rw [List.all_eq_true]
    exact fun row hrow => decide_eq_true (lengths_escaped hrows row hrow)
  rw [tableOf, if_neg hmap, if_pos hlengths, table_escaped]

end Tables

end Markdown

end Shebang
