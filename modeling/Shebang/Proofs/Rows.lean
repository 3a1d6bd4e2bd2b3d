import Shebang.Proofs.Cells
import Shebang.Proofs.Stripping

/-!
The rows of a table as a console shows them. Without color the removal of control sequences goes
through a row cell by cell, since a code span leaves no sequence open; only the text of the last
cell can take the end of the row with it.
-/

namespace Shebang

namespace Terminal.Sequences

variable {g : Sequences} {a b p t : Text} {c : Char}

/-- No sequence that begins in the text ends behind it. -/
def Sealed (g : Sequences) (a : Text) : Prop := ∀ b, ¬ g.Crosses a b

theorem sealed_plain (h : escape ∉ a) : g.Sealed a := by
  rintro b ⟨x, p, q, y, rfl, -, hp, -, hpq⟩
  obtain ⟨c, p, rfl⟩ := List.exists_cons_of_ne_nil hp
  obtain ⟨body, hbody, -⟩ := hpq.first
  rw [List.cons_append, List.cons.injEq] at hbody
  refine h (List.mem_append_right x ?_)
  rw [hbody.1]
  exact List.mem_cons_self

theorem Sealed.append (ha : g.Sealed a) (hb : g.Sealed b) : g.Sealed (a ++ b) := by
  rintro u ⟨x, p, q, y, hsplit, hu, hp, hq, hpq⟩
  rcases List.append_eq_append_iff.mp hsplit with ⟨v, rfl, rfl⟩ | ⟨v, rfl, rfl⟩
  · exact hb u ⟨v, p, q, y, rfl, hu, hp, hq, hpq⟩
  · by_cases hv : v = []
    · rw [hv, List.nil_append] at hp hpq
      exact hb u ⟨[], b, q, y, rfl, hu, hp, hq, hpq⟩
    · refine ha (b ++ u) ⟨x, v, b ++ q, y, rfl, ?_, hv, ?_, ?_⟩
      · rw [hu, List.append_assoc]
      · exact fun h => hq (List.append_eq_nil_iff.mp h).2
      · rwa [← List.append_assoc]

theorem Complete.inner (h : g.Complete (a ++ b)) (hb : b ≠ []) :
    ∃ parameters intermediates, a ++ b.dropLast = escape :: '[' :: (parameters ++ intermediates) ∧
      (∀ c ∈ parameters, g.parameter c = true) ∧ ∀ c ∈ intermediates, g.intermediate c = true := by
  obtain ⟨parameters, intermediates, f, hs, hps, his, -⟩ := h
  refine ⟨parameters, intermediates, ?_, hps, his⟩
  rw [← List.dropLast_append_of_ne_nil hb, hs, ← List.append_assoc, ← List.cons_append,
    ← List.cons_append, List.dropLast_concat]

theorem sealed_final (hf : g.final c = true) (hc : c ≠ '[') (a : Text) : g.Sealed (a ++ [c]) := by
  rintro b ⟨x, p, q, y, hsplit, -, hp, hq, hpq⟩
  have hlast : c ∈ p := by
    have hc := congrArg List.getLast? hsplit
    rw [List.getLast?_append_of_ne_nil _ hp, List.getLast?_concat] at hc
    exact List.mem_of_getLast? hc.symm
  obtain ⟨parameters, intermediates, hinner, hps, his⟩ := hpq.inner hq
  have hmem : c ∈ escape :: '[' :: (parameters ++ intermediates) := by
    rw [← hinner]
    exact List.mem_append_left _ hlast
  have hescape := g.escape_apart
  simp only [List.mem_cons, List.mem_append] at hmem
  rcases hmem with rfl | rfl | hm | hm
  · simp [hf] at hescape
  · exact hc rfl
  · simp [(g.parameter_apart c (hps c hm)).2] at hf
  · simp [g.intermediate_apart c (his c hm)] at hf

theorem Sealed.remove_append (h : g.Sealed a) (b : Text) :
    g.remove (a ++ b) = g.remove a ++ g.remove b :=
  Sequences.remove_append (h b)

def Begun (g : Sequences) (p : Text) : Prop :=
  ∃ parameters intermediates, p = escape :: '[' :: (parameters ++ intermediates) ∧
    (∀ c ∈ parameters, g.parameter c = true) ∧ ∀ c ∈ intermediates, g.intermediate c = true

theorem Begun.complete {blanks : Text} (h : g.Begun p) (hb : ∀ c ∈ blanks, g.intermediate c = true)
    (hf : g.final c = true) : g.Complete (p ++ (blanks ++ [c])) := by
  obtain ⟨parameters, intermediates, rfl, hps, his⟩ := h
  refine ⟨parameters, intermediates ++ blanks, c, by simp, hps, ?_, hf⟩
  intro x hx
  rcases List.mem_append.mp hx with hx | hx
  · exact his x hx
  · exact hb x hx

theorem Crosses.begun (hc : c ≠ '[') (h : g.Crosses a (c :: b)) :
    ∃ x p, a = x ++ p ∧ g.Begun p := by
  obtain ⟨x, p, q, y, rfl, hsplit, hp, hq, hpq⟩ := h
  refine ⟨x, p, rfl, ?_⟩
  obtain ⟨parameters, intermediates, hinner, hps, his⟩ := hpq.inner hq
  obtain ⟨d, p, rfl⟩ := List.exists_cons_of_ne_nil hp
  rw [List.cons_append, List.cons.injEq] at hinner
  obtain ⟨rfl, hinner⟩ := hinner
  cases p with
  | nil =>
    obtain ⟨d, q, rfl⟩ := List.exists_cons_of_ne_nil hq
    obtain ⟨rfl, -⟩ := List.cons.inj hsplit
    cases q with
    | nil => cases hinner
    | cons e q => exact absurd (List.cons.inj hinner).1 hc
  | cons d p =>
    rw [List.cons_append, List.cons.injEq] at hinner
    obtain ⟨rfl, hinner⟩ := hinner
    rcases List.append_eq_append_iff.mp hinner with ⟨v, rfl, -⟩ | ⟨v, rfl, rfl⟩
    · refine ⟨p, [], by rw [List.append_nil], fun c hm => ?_, nofun⟩
      exact hps c (List.mem_append_left v hm)
    · exact ⟨parameters, v, rfl, hps, fun c hm => his c (List.mem_append_left _ hm)⟩

theorem remove_subset (t : Text) : g.remove t ⊆ t := by
  have hfrom : ∀ skip, g.removeFrom skip t ⊆ t := by
    induction t with
    | nil => exact fun _ => List.Subset.refl _
    | cons c t ih =>
      rintro (_ | skip)
      · rw [removeFrom]
        cases g.length? (c :: t) with
        | none => exact List.cons_subset_cons c (ih 0)
        | some n => exact List.subset_cons_of_subset c (ih (n - 1))
      · exact List.subset_cons_of_subset c (ih skip)
  exact hfrom 0

theorem newline_remove : '\n' ∈ g.remove t ↔ '\n' ∈ t := by
  constructor
  · exact fun h => remove_subset t h
  · intro h
    obtain ⟨u, v, rfl⟩ := List.append_of_mem h
    rw [remove_line]
    exact List.mem_append_right _ List.mem_cons_self

end Terminal.Sequences

namespace Console

open Terminal Terminal.Sequences

variable {c : Console} {a b t : Text} {x : Char}

def shown (c : Console) (t : Text) : Text := c.echo t false

theorem shown_colored (h : c.color = true) (t : Text) : c.shown t = t := by
  simp [shown, echo, h]

theorem shown_plain (h : c.color = false) (t : Text) : c.shown t = control.remove t := by
  simp [shown, echo, h, remove_control]

theorem shown_append (h : control.Sealed a) (b : Text) :
    c.shown (a ++ b) = c.shown a ++ c.shown b := by
  cases hc : c.color with
  | true => simp only [shown_colored hc]
  | false => simp only [shown_plain hc, h.remove_append]

theorem shown_clean (h : escape ∉ t) : c.shown t = t := by
  cases hc : c.color with
  | true => exact shown_colored hc t
  | false => rw [shown_plain hc, remove_plain h]

theorem shown_cons (hx : x ≠ escape) (t : Text) : c.shown (x :: t) = x :: c.shown t := by
  have hclean : escape ∉ [x] := fun h => hx (List.mem_singleton.mp h).symm
  have happend : c.shown ([x] ++ t) = c.shown [x] ++ c.shown t :=
    shown_append (sealed_plain hclean) t
  rwa [shown_clean hclean] at happend

theorem newline_shown : '\n' ∈ c.shown t ↔ '\n' ∈ t := by
  cases hc : c.color with
  | true => rw [shown_colored hc]
  | false => rw [shown_plain hc, newline_remove]

theorem shown_line (t u : Text) : c.shown (t ++ '\n' :: u) = c.shown t ++ '\n' :: c.shown u := by
  cases hc : c.color with
  | true => simp only [shown_colored hc]
  | false => simp only [shown_plain hc, remove_line]

theorem echo_line (c : Console) (t : Text) : c.echo t true = c.shown t ++ ['\n'] := by
  have hline : c.shown (t ++ ['\n']) = c.shown t ++ '\n' :: c.shown [] := shown_line t []
  rwa [shown_clean (t := []) List.not_mem_nil] at hline

theorem output_cons (c : Console) (t : Text) (ts : List Text) :
    Emission.outputOf ((t :: ts).map c.printLine) =
      c.shown t ++ '\n' :: Emission.outputOf (ts.map c.printLine) := by
  have hcons : Emission.outputOf ((t :: ts).map c.printLine) =
      c.echo t true ++ Emission.outputOf (ts.map c.printLine) := rfl
  rw [hcons, echo_line, List.append_assoc]
  rfl

theorem shown_ended (lines : List Text) :
    c.shown (Text.ended lines) = Text.ended (lines.map c.shown) := by
  induction lines with
  | nil => exact shown_clean List.not_mem_nil
  | cons line lines ih => rw [Text.ended_cons, shown_line, ih, List.map_cons, Text.ended_cons]

open Markdown

def pipes (c : Console) (t : Text) : Nat := openPipes (c.shown t)

theorem pipes_clean (he : escape ∉ t) (hp : '|' ∉ t) : c.pipes t = 0 := by
  rw [pipes, shown_clean he, openPipes_eq_zero hp]

theorem pipes_pipe (t : Text) : c.pipes ('|' :: t) = c.pipes t + 1 := by
  rw [pipes, shown_cons (by decide), openPipes_pipe, pipes]

theorem pipes_append (ha : control.Sealed a) (hx : x ≠ escape) (hp : Plain x) (b : Text) :
    c.pipes (a ++ x :: b) = c.pipes a + c.pipes b := by
  rw [pipes, shown_append ha, shown_cons hx, openPipes_append hp, pipes, pipes]

theorem pipes_cons (hx : x ≠ escape) (hp : Plain x) (t : Text) : c.pipes (x :: t) = c.pipes t := by
  rw [pipes, shown_cons hx, openPipes_cons hp, pipes]

theorem escape_blanks (n : Nat) : escape ∉ List.replicate n ' ' := by
  intro h
  exact absurd (List.eq_of_mem_replicate h) (by decide)

theorem sealed_padRight (ha : control.Sealed a) (width : Nat) :
    control.Sealed (a.padRight width) :=
  ha.append (sealed_plain (escape_blanks _))

theorem pipes_padRight (ha : control.Sealed a) (width : Nat) :
    c.pipes (a.padRight width) = c.pipes a := by
  rw [Text.padRight]
  cases width - a.length with
  | zero => rw [List.replicate_zero, List.append_nil]
  | succ n =>
    have hblanks : c.pipes (List.replicate n ' ') = 0 :=
      pipes_clean (escape_blanks n) fun h => absurd (List.eq_of_mem_replicate h) (by decide)
    rw [List.replicate_succ, pipes_append ha (by decide) (by decide), hblanks, Nat.add_zero]

def closing (n : Nat) : Text := ' ' :: (List.replicate n ' ' ++ ['|'])

theorem openPipes_closing (t : Text) (n : Nat) : openPipes (t ++ closing n) = openPipes t + 1 := by
  have hend : openPipes (List.replicate n ' ' ++ ['|']) = 1 := by
    induction n with
    | zero => rfl
    | succ n ih => exact (openPipes_cons (by decide) _).trans ih
  rw [closing, openPipes_append (by decide), hend]

/-- The end of a row is taken away as a whole, whatever the number of its blanks, or not at all. -/
theorem remove_closing (t : Text) :
    (∃ u, ∀ n, control.remove (t ++ closing n) = u) ∨
      ∀ n, control.remove (t ++ closing n) = control.remove t ++ closing n := by
  -- A sequence that is begun at the end of the text finds its final character in the pipe.
  by_cases h : ∃ x p, t = x ++ p ∧ control.Begun p
  · left
    obtain ⟨x, p, rfl, hp⟩ := h
    refine ⟨control.remove x, fun n => ?_⟩
    have hblanks : ∀ c ∈ ' ' :: List.replicate n ' ', control.intermediate c = true := by
      intro c hc
      rw [← List.replicate_succ] at hc
      rw [List.eq_of_mem_replicate hc]
      rfl
    have hwhole := remove_complete (u := []) (hp.complete hblanks (c := '|') rfl)
    rw [List.append_nil] at hwhole
    have hfirst : ∃ rest, p ++ closing n = escape :: rest := by
      obtain ⟨parameters, intermediates, rfl, -⟩ := hp
      exact ⟨_, rfl⟩
    obtain ⟨rest, hrest⟩ := hfirst
    rw [List.append_assoc, hrest, Sequences.remove_append not_crosses_escape, ← hrest]
    exact (congrArg (control.remove x ++ ·) hwhole).trans (List.append_nil _)
  · right
    intro n
    have hclean : escape ∉ closing n := by
      simp [closing, escape]
    have hseam : ¬ control.Crosses t (closing n) := fun hcross => h (hcross.begun (by decide))
    rw [Sequences.remove_append hseam, remove_plain hclean]

theorem pipes_closing (t : Text) (n m : Nat) :
    c.pipes (t ++ closing n) = c.pipes (t ++ closing m) := by
  cases hc : c.color with
  | true => rw [pipes, pipes, shown_colored hc, shown_colored hc, openPipes_closing,
      openPipes_closing]
  | false =>
    rw [pipes, pipes, shown_plain hc, shown_plain hc]
    rcases remove_closing t with ⟨u, hu⟩ | hkeep
    · rw [hu, hu]
    · rw [hkeep, hkeep, openPipes_closing, openPipes_closing]

theorem padRight_closing (width : Nat) (t : Text) :
    ∃ n, (t.padRight width ++ " |" : Text) = t ++ closing n := by
  refine ⟨width - t.length, ?_⟩
  rw [Text.padRight, List.append_assoc, closing]
  refine congrArg (t ++ ·) ?_
  rw [← List.cons_append, ← List.replicate_succ, List.replicate_succ', List.append_assoc]
  rfl

def pipesIn (c : Console) : List Text → Nat
  | [] => 0
  | t :: ts => c.pipes t + c.pipesIn ts

theorem pipesIn_eq_zero {ts : List Text} : c.pipesIn ts = 0 ↔ ∀ t ∈ ts, c.pipes t = 0 := by
  induction ts with
  | nil => exact iff_of_true rfl (List.forall_mem_nil _)
  | cons t ts ih => rw [pipesIn, Nat.add_eq_zero_iff, ih, List.forall_mem_cons]

section Cells

variable {widths : List Nat} {cells : List Text} {last : Text}

theorem pipes_cells (hlen : widths.length = cells.length + 1)
    (hcells : ∀ cell ∈ cells, control.Sealed cell) :
    c.pipes (Text.joinWith " | " (List.zipWith Text.padRight widths (cells ++ [last])) ++ " |") =
      cells.length + c.pipesIn cells + c.pipes (last ++ " |") := by
  induction cells generalizing widths with
  | nil =>
    obtain ⟨width, rfl⟩ := List.length_eq_one_iff.mp hlen
    obtain ⟨n, hn⟩ := padRight_closing width last
    have hlast : List.zipWith Text.padRight [width] ([] ++ [last]) = [last.padRight width] := rfl
    rw [hlast, joinWith_singleton, hn, pipes_closing last n 0]
    exact (Nat.zero_add _).symm
  | cons cell cells ih =>
    obtain ⟨width, widths, rfl⟩ := List.exists_cons_of_length_pos
      (show 0 < widths.length by omega)
    obtain ⟨hcell, hrest⟩ := List.forall_mem_cons.mp hcells
    have hlen' : widths.length = cells.length + 1 := Nat.succ.inj hlen
    have hne : List.zipWith Text.padRight widths (cells ++ [last]) ≠ [] := by
      apply List.ne_nil_of_length_pos
      rw [List.length_zipWith, List.length_append, List.length_singleton, hlen', Nat.min_self]
      exact Nat.succ_pos _
    have hgap : ∀ t : Text, ((" | " : Text) ++ t) = ' ' :: '|' :: ' ' :: t := fun _ => rfl
    rw [List.cons_append, List.zipWith_cons_cons, joinWith_cons _ _ hne, List.append_assoc,
      List.append_assoc, hgap, pipes_append (sealed_padRight hcell width) (by decide) (by decide),
      pipes_padRight hcell, pipes_pipe, pipes_cons (by decide) (by decide), ih hlen' hrest,
      List.length_cons, pipesIn]
    omega

theorem pipes_row (hlen : widths.length = cells.length + 1)
    (hcells : ∀ cell ∈ cells, control.Sealed cell) :
    c.pipes (row widths (cells ++ [last])) =
      cells.length + 1 + c.pipesIn cells + c.pipes (last ++ " |") := by
  have hopen : ∀ t : Text, ("| " ++ t : Text) = '|' :: ' ' :: t := fun _ => rfl
  rw [row, List.append_assoc, hopen, pipes_pipe, pipes_cons (by decide) (by decide),
    pipes_cells hlen hcells]
  omega

end Cells

section Table

variable {widths : List Nat} {headers cells : List Text} {rows : List (List Text)} {last : Text}

def Bare (t : Text) : Prop := ∀ x ∈ t, x ≠ escape ∧ x ≠ '|' ∧ x ≠ '\n'

instance (t : Text) : Decidable (Bare t) := List.decidableBAll _ t

theorem Bare.clean (h : Bare t) : escape ∉ t := fun hm => (h _ hm).1 rfl

theorem Bare.pipes (h : Bare t) : c.pipes t = 0 :=
  pipes_clean h.clean fun hm => (h _ hm).2.1 rfl

theorem pipes_last (h : control.Sealed last) : c.pipes (last ++ " |") = c.pipes last + 1 :=
  calc c.pipes (last ++ " |")
    _ = c.pipes last + c.pipes ['|'] := pipes_append h (by decide) (by decide) ['|']
    _ = c.pipes last + 1 := by rw [pipes_pipe, pipes_clean List.not_mem_nil List.not_mem_nil]

theorem bare_dashes (widths : List Nat) : ∀ cell ∈ dashes widths, Bare cell := by
  intro cell hcell x hx
  obtain ⟨width, -, rfl⟩ := List.mem_map.mp hcell
  rw [List.eq_of_mem_replicate hx]
  decide

theorem separator_chars (widths : List Nat) :
    ∀ x ∈ row widths (dashes widths), x = '|' ∨ x = '-' ∨ x = ' ' := by
  intro x hx
  by_cases hpipe : x = '|'
  · exact Or.inl hpipe
  · by_cases hblank : x = ' '
    · exact Or.inr (Or.inr hblank)
    · obtain ⟨cell, hcell, hm⟩ := (mem_row hpipe hblank (List.length_map _).symm).mp hx
      obtain ⟨width, -, rfl⟩ := List.mem_map.mp hcell
      exact Or.inr (Or.inl (List.eq_of_mem_replicate hm))

theorem bare_row (hlen : widths.length = cells.length) (hne : cells ≠ [])
    (h : ∀ cell ∈ cells, Bare cell) :
    c.shown (row widths cells) = row widths cells ∧ '\n' ∉ row widths cells ∧
      c.pipes (row widths cells) = cells.length + 1 := by
  have hclean : escape ∉ row widths cells := by
    rw [mem_row (by decide) (by decide) hlen]
    rintro ⟨cell, hc, hm⟩
    exact (h cell hc).clean hm
  have hline : '\n' ∉ row widths cells := by
    rw [mem_row (by decide) (by decide) hlen]
    rintro ⟨cell, hc, hm⟩
    exact (h cell hc _ hm).2.2 rfl
  refine ⟨shown_clean hclean, hline, ?_⟩
  obtain ⟨init, last, rfl⟩ := (List.eq_nil_or_concat cells).resolve_left hne
  rw [List.concat_eq_append] at hlen h ⊢
  obtain ⟨hinit, hlast⟩ := List.forall_mem_append.mp h
  have hlast := List.forall_mem_singleton.mp hlast
  have hnone : c.pipesIn init = 0 :=
    pipesIn_eq_zero.mpr fun cell hc => (hinit cell hc).pipes
  rw [List.length_append, List.length_singleton] at hlen ⊢
  rw [pipes_row hlen fun cell hc => sealed_plain (hinit cell hc).clean, hnone,
    pipes_last (sealed_plain hlast.clean), hlast.pipes]

/-- A table with bare headers has its shape exactly if each row is one line with the right number of
open pipes. -/
theorem isTable_shown (hne : headers ≠ []) (hheaders : ∀ header ∈ headers, Bare header)
    (hrows : ∀ cells ∈ rows, cells.length = headers.length) :
    IsTable headers.length rows.length (c.shown (table headers rows)) ↔
      ∀ cells ∈ rows, (∀ cell ∈ cells, '\n' ∉ cell) ∧
        c.pipes (row (columnWidths headers rows) cells) = headers.length + 1 := by
  have hlen := length_columnWidths hrows
  obtain ⟨hheader, hheaderLine, hheaderPipes⟩ := bare_row (c := c) hlen hne hheaders
  have hdashes : (dashes (columnWidths headers rows)).length = headers.length := by
    rw [dashes, List.length_map, hlen]
  obtain ⟨hsep, hsepLine, hsepPipes⟩ := bare_row (c := c) (hlen.trans hdashes.symm)
    (List.ne_nil_of_length_pos (by rw [hdashes]; exact List.length_pos_of_ne_nil hne))
    (bare_dashes (columnWidths headers rows))
  rw [pipes, hheader] at hheaderPipes
  rw [pipes, hsep, hdashes] at hsepPipes
  have hbody : rows.length =
      ((rows.map (row (columnWidths headers rows))).map c.shown).length := by
    rw [List.length_map, List.length_map]
  rw [table_eq, shown_ended, List.map_cons, List.map_cons, List.map_cons, List.map_cons, hheader,
    hsep, hbody, isTable_ended _ ?_ (separator_chars _)]
  · rw [List.forall_mem_map, List.forall_mem_map]
    refine forall₂_congr fun cells hcells => and_congr_left' ?_
    rw [newline_shown, mem_row (by decide) (by decide) (hlen.trans (hrows cells hcells).symm)]
    simp only [not_exists, not_and]
  · intro line hl
    rcases List.mem_cons.mp hl with rfl | hl
    · exact ⟨hheaderLine, hheaderPipes⟩
    · rw [List.mem_singleton.mp hl]
      exact ⟨hsepLine, hsepPipes⟩

end Table

end Console

end Shebang
