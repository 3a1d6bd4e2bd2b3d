import Mathlib.Data.List.Basic
import Shebang.Markdown
import Shebang.Proofs.Files

/-!
How a table is read. A line ends at a line feed, and a cell at a pipe that no backslash escapes, so
a table has the right shape when every line has the right number of such pipes.
-/

namespace Shebang

namespace Text

variable {sep : Char} {u v : Text} {lines lines' : List Text}

theorem splitOn_cons (c : Char) (t : Text) : splitOn sep (c :: t) =
    if c = sep then [] :: splitOn sep t else (splitOn sep t).modifyHead (c :: ·) := by
  have hne : splitOn sep t ≠ [] := by
    cases t with
    | nil => exact List.cons_ne_nil _ _
    | cons d t =>
      rw [splitOn]
      split_ifs
      · exact List.cons_ne_nil _ _
      · split <;> exact List.cons_ne_nil _ _
  rw [splitOn]
  split_ifs
  · rfl
  · cases hs : splitOn sep t with
    | nil => exact absurd hs hne
    | cons piece pieces => rfl

theorem splitOn_cut (hu : sep ∉ u) (v : Text) :
    splitOn sep (u ++ sep :: v) = u :: splitOn sep v := by
  induction u with
  | nil => rw [List.nil_append, splitOn_cons, if_pos rfl]
  | cons c u ih =>
    rw [List.mem_cons, not_or] at hu
    rw [List.cons_append, splitOn_cons, if_neg (Ne.symm hu.1), ih hu.2]
    rfl

theorem length_splitOn (sep : Char) (t : Text) : (splitOn sep t).length = t.count sep + 1 := by
  induction t with
  | nil => rfl
  | cons c t ih =>
    rw [splitOn_cons]
    split_ifs with hc
    · rw [hc, List.count_cons_self, List.length_cons, ih]
    · rw [List.count_cons_of_ne hc, List.length_modifyHead, ih]

def ended (lines : List Text) : Text := lines.flatMap (· ++ ['\n'])

@[simp] theorem ended_nil : ended [] = [] := rfl

@[simp] theorem ended_cons (line : Text) (lines : List Text) :
    ended (line :: lines) = line ++ '\n' :: ended lines := by
  rw [ended, List.flatMap_cons, List.append_assoc]
  rfl

theorem splitOn_ended (h : ∀ line ∈ lines, '\n' ∉ line) :
    splitOn '\n' (ended lines) = lines ++ [[]] := by
  induction lines with
  | nil => rfl
  | cons line lines ih =>
    have hline := h line List.mem_cons_self
    have hlines := fun l hl => h l (List.mem_cons_of_mem line hl)
    rw [ended_cons, splitOn_cut hline, ih hlines]
    rfl

theorem count_ended (lines : List Text) :
    (ended lines).count '\n' = lines.length + lines.flatten.count '\n' := by
  induction lines with
  | nil => rfl
  | cons line lines ih =>
    rw [ended_cons, List.count_append, List.count_cons_self, ih, List.flatten_cons,
      List.count_append, List.length_cons]
    omega

theorem ended_inj (hlen : lines'.length = lines.length)
    (h : splitOn '\n' (ended lines) = lines' ++ [[]]) :
    (∀ line ∈ lines, '\n' ∉ line) ∧ lines' = lines := by
  have hnone : lines.flatten.count '\n' = 0 := by
    have hcount := congrArg List.length h
    rw [length_splitOn, count_ended, List.length_append, List.length_singleton, hlen] at hcount
    omega
  have hfree : ∀ line ∈ lines, '\n' ∉ line := by
    intro line hl hm
    exact List.count_eq_zero.mp hnone (List.mem_flatten.mpr ⟨line, hl, hm⟩)
  refine ⟨hfree, ?_⟩
  rw [splitOn_ended hfree] at h
  exact (List.append_cancel_right h).symm

end Text

namespace Markdown

/-- The pieces between open pipes, where the first character is escaped or not. -/
def cellsFrom : Bool → Text → List Text
  | _, [] => [[]]
  | true, c :: t => (cellsFrom false t).modifyHead (c :: ·)
  | false, c :: t =>
    if c = '|' then [] :: cellsFrom false t else (cellsFrom (c == '\\') t).modifyHead (c :: ·)

def cells (line : Text) : List Text := cellsFrom false line

def pipesFrom : Bool → Text → Nat
  | _, [] => 0
  | true, _ :: t => pipesFrom false t
  | false, c :: t => if c = '|' then pipesFrom false t + 1 else pipesFrom (c == '\\') t

def openPipes (t : Text) : Nat := pipesFrom false t

def escapedAfter : Bool → Text → Bool
  | escaped, [] => escaped
  | true, _ :: t => escapedAfter false t
  | false, c :: t => escapedAfter (c == '\\') t

variable {t u v : Text} {c : Char} {escaped : Bool}

theorem length_cells (t : Text) : (cells t).length = openPipes t + 1 := by
  have hfrom : ∀ escaped, (cellsFrom escaped t).length = pipesFrom escaped t + 1 := by
    induction t with
    | nil => exact fun _ => rfl
    | cons c t ih =>
      intro escaped
      cases escaped with
      | true => rw [cellsFrom, pipesFrom, List.length_modifyHead, ih]
      | false =>
        rw [cellsFrom, pipesFrom]
        split_ifs
        · rw [List.length_cons, ih]
        · rw [List.length_modifyHead, ih]
  exact hfrom false

theorem pipesFrom_append (escaped : Bool) (u v : Text) :
    pipesFrom escaped (u ++ v) = pipesFrom escaped u + pipesFrom (escapedAfter escaped u) v := by
  induction u generalizing escaped with
  | nil => rw [List.nil_append, pipesFrom, escapedAfter, Nat.zero_add]
  | cons c u ih =>
    cases escaped with
    | true => rw [List.cons_append, pipesFrom, pipesFrom, escapedAfter, ih]
    | false =>
      rw [List.cons_append, pipesFrom, pipesFrom, escapedAfter]
      split_ifs with hc
      · subst hc
        rw [ih]
        exact Nat.add_right_comm _ _ _
      · exact ih _

def Plain (c : Char) : Prop := c ≠ '|' ∧ c ≠ '\\'

instance (c : Char) : Decidable (Plain c) := inferInstanceAs (Decidable (_ ∧ _))

theorem pipesFrom_plain (hc : Plain c) (escaped : Bool) (t : Text) :
    pipesFrom escaped (c :: t) = openPipes t := by
  cases escaped with
  | true => rfl
  | false =>
    have hb : (c == '\\') = false := beq_eq_false_iff_ne.mpr hc.2
    rw [pipesFrom, if_neg hc.1, hb, openPipes]

@[simp] theorem openPipes_nil : openPipes [] = 0 := rfl

theorem openPipes_pipe (t : Text) : openPipes ('|' :: t) = openPipes t + 1 := rfl

theorem openPipes_cons (hc : Plain c) (t : Text) : openPipes (c :: t) = openPipes t :=
  pipesFrom_plain hc false t

/-- Such a character keeps what stands before it and what stands behind it apart, even behind a
backslash. -/
theorem openPipes_append (hc : Plain c) (u v : Text) :
    openPipes (u ++ c :: v) = openPipes u + openPipes v := by
  rw [openPipes, pipesFrom_append, pipesFrom_plain hc]
  rfl

theorem openPipes_eq_zero (h : '|' ∉ t) : openPipes t = 0 := by
  have hfrom : ∀ escaped, pipesFrom escaped t = 0 := by
    induction t with
    | nil => exact fun _ => rfl
    | cons c t ih =>
      rw [List.mem_cons, not_or] at h
      intro escaped
      cases escaped with
      | true => exact ih h.2 false
      | false =>
        rw [pipesFrom, if_neg (Ne.symm h.1)]
        exact ih h.2 _
  exact hfrom false

theorem openPipes_escapeCell (t u : Text) : openPipes (escapeCell t ++ u) = openPipes u := by
  induction t with
  | nil => rfl
  | cons c t ih =>
    rw [escapeCell, List.flatMap_cons, ← escapeCell, escapeChar]
    split_ifs with hc
    · exact ih
    · rw [not_or] at hc
      exact (openPipes_cons ⟨hc.2, hc.1⟩ _).trans ih

/-- A header, a separator and a number of lines, all with as many cells as there are columns; the
outer pipes of a line leave one more piece at each of its ends. -/
def IsTable (columns rows : Nat) (t : Text) : Prop :=
  ∃ header separator body, t.splitOn '\n' = header :: separator :: (body ++ [[]]) ∧
    body.length = rows ∧ (∀ c ∈ separator, c = '|' ∨ c = '-' ∨ c = ' ') ∧
    ∀ line ∈ header :: separator :: body, (cells line).length = columns + 2

theorem isTable_ended {columns : Nat} {header separator : Text} (body : List Text)
    (hline : ∀ line ∈ [header, separator], '\n' ∉ line ∧ openPipes line = columns + 1)
    (hdashes : ∀ c ∈ separator, c = '|' ∨ c = '-' ∨ c = ' ') :
    IsTable columns body.length (Text.ended (header :: separator :: body)) ↔
      ∀ line ∈ body, '\n' ∉ line ∧ openPipes line = columns + 1 := by
  have hcells : ∀ line, (cells line).length = columns + 2 ↔ openPipes line = columns + 1 := by
    intro line
    rw [length_cells]
    omega
  constructor
  · rintro ⟨header', separator', body', hsplit, hlen, -, hall⟩
    have hlength : (header' :: separator' :: body').length =
        (header :: separator :: body).length := by
      rw [List.length_cons, List.length_cons, hlen]
      rfl
    obtain ⟨hfree, hsame⟩ := Text.ended_inj hlength hsplit
    intro line hl
    have hmem : line ∈ header :: separator :: body :=
      List.mem_cons_of_mem _ (List.mem_cons_of_mem _ hl)
    exact ⟨hfree line hmem, (hcells line).mp (hall line (hsame ▸ hmem))⟩
  · intro hbody
    have hall : ∀ line ∈ header :: separator :: body,
        '\n' ∉ line ∧ openPipes line = columns + 1 := by
      intro line hl
      rcases List.mem_append.mp (show line ∈ [header, separator] ++ body from hl) with hl | hl
      · exact hline line hl
      · exact hbody line hl
    refine ⟨header, separator, body, ?_, rfl, hdashes, ?_⟩
    · exact Text.splitOn_ended fun line hl => (hall line hl).1
    · exact fun line hl => (hcells line).mpr (hall line hl).2

section Layout

variable {widths : List Nat} {headers cells : List Text} {rows : List (List Text)} {t : Text}

def row (widths : List Nat) (cells : List Text) : Text :=
  "| " ++ Text.joinWith " | " (List.zipWith Text.padRight widths cells) ++ " |"

def dashes (widths : List Nat) : List Text := widths.map fun width => List.replicate width '-'

theorem table_eq (headers : List Text) (rows : List (List Text)) : table headers rows =
    Text.ended ((headers :: dashes (columnWidths headers rows) :: rows).map
      (row (columnWidths headers rows))) := by
  rw [table, Text.ended, List.flatMap_map]
  refine List.flatMap_congr fun cells _ => ?_
  rw [tableLine, row, List.append_assoc, List.append_assoc, List.append_assoc]
  rfl

theorem length_columnWidths (h : ∀ row ∈ rows, row.length = headers.length) :
    (columnWidths headers rows).length = headers.length := by
  have hfold : ∀ widths : List Nat, widths.length = headers.length →
      (rows.foldl (fun widths row => List.zipWith max widths (row.map List.length))
        widths).length = headers.length := by
    induction rows with
    | nil => exact fun _ h => h
    | cons row rows ih =>
      obtain ⟨hrow, hrows⟩ := List.forall_mem_cons.mp h
      intro widths hw
      refine ih hrows _ ?_
      rw [List.length_zipWith, List.length_map, hw, hrow, Nat.min_self]
  exact hfold _ (List.length_map _)

theorem mem_joinWith_iff {x : Char} {sep : Text} {parts : List Text} (hx : x ∉ sep) :
    x ∈ Text.joinWith sep parts ↔ ∃ part ∈ parts, x ∈ part := by
  constructor
  · exact fun h => (mem_joinWith h).resolve_left hx
  · rintro ⟨part, hp, hm⟩
    induction parts with
    | nil => cases hp
    | cons first rest ih =>
      by_cases hrest : rest = []
      · subst hrest
        rw [List.mem_singleton.mp hp] at hm
        rwa [joinWith_singleton]
      · rw [joinWith_cons _ _ hrest, List.mem_append, List.mem_append]
        rcases List.mem_cons.mp hp with rfl | hp
        · exact Or.inl hm
        · exact Or.inr (Or.inr (ih hp))

theorem mem_padRight {x : Char} (hx : x ≠ ' ') (width : Nat) : x ∈ t.padRight width ↔ x ∈ t := by
  have hblanks : x ∉ List.replicate (width - t.length) ' ' := fun h =>
    hx (List.eq_of_mem_replicate h)
  rw [Text.padRight, List.mem_append, or_iff_left hblanks]

theorem mem_row {x : Char} (hp : x ≠ '|') (hb : x ≠ ' ') (hlen : widths.length = cells.length) :
    x ∈ row widths cells ↔ ∃ cell ∈ cells, x ∈ cell := by
  have hcells : (∃ cell ∈ List.zipWith Text.padRight widths cells, x ∈ cell) ↔
      ∃ cell ∈ cells, x ∈ cell := by
    induction cells generalizing widths with
    | nil => simp
    | cons cell cells ih =>
      obtain ⟨width, widths, rfl⟩ := List.exists_cons_of_length_pos
        (show 0 < widths.length by rw [hlen]; exact Nat.succ_pos _)
      rw [List.zipWith_cons_cons, List.exists_mem_cons_iff, List.exists_mem_cons_iff,
        mem_padRight hb, ih (Nat.succ.inj hlen)]
  have hframe : ∀ t : Text, (x ∈ ("| " : Text) ∨ x ∈ t) ∨ x ∈ (" |" : Text) ↔ x ∈ t := by
    intro t
    simp [hp, hb]
  rw [row, List.mem_append, List.mem_append, hframe, mem_joinWith_iff (by simp [hp, hb]), hcells]

end Layout

end Markdown

end Shebang
