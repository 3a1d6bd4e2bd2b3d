import Shebang.Proofs.Cursor

/-!
The steps of a cursor, one after another. Wherever steps lead, the cursor stands in the window it
began with, and what a step finds lies between the positions before and after it. A cursor that was
put aside is untouched by the steps on its copy, whatever is put aside and taken back meanwhile.
-/

namespace Shebang

namespace Cursor

def IsBlank (x : Char) : Prop := x = ' ' ∨ x = '\t'

def IsSolid (x : Char) : Prop := x ≠ ' ' ∧ x ≠ '\t' ∧ x ≠ '\r' ∧ x ≠ '\n'

theorem isInlineSpace_iff {x : Char} : isInlineSpace x = true ↔ IsBlank x := by
  simp [isInlineSpace, IsBlank]

theorem isTokenChar_iff {x : Char} : isTokenChar x = true ↔ IsSolid x := by
  simp [isTokenChar, IsSolid, and_assoc]

structure Inside (c : Cursor) : Prop where
  pos_le : c.pos ≤ c.stop
  stop_le : c.stop ≤ c.text.length

/-- The cursor has gone over the span that was found, or has stayed where nothing was found. -/
structure Moves (c : Cursor) (found : Option Span) (d : Cursor) : Prop where
  window : d.text = c.text ∧ d.stop = c.stop
  bound : d.pos ≤ c.stop
  stays : found = none → d.pos = c.pos
  spans : ∀ s, found = some s → s.start = c.pos ∧ s.start < s.stop ∧ s.stop = d.pos

/-- The move went over characters of a class, and as far as the class goes in the window. -/
structure Longest (P : Char → Prop) (c d : Cursor) : Prop where
  members : ∀ x ∈ Span.text ⟨c.pos, d.pos⟩ c.text, P x
  maximal : ∀ x, d.pos < c.stop → c.text[d.pos]? = some x → ¬ P x

variable {c : Cursor} {n : Nat}

def ahead (c : Cursor) (n : Nat) : Option Span := if n = 0 then none else some ⟨c.pos, c.pos + n⟩

theorem ahead_eq_none : c.ahead n = none ↔ n = 0 := by
  simp [ahead]

theorem advance_moves (h : c.Inside) (hn : n ≤ c.left) : c.Moves (c.ahead n) (c.advance n) := by
  have hpos := h.pos_le
  unfold left at hn
  constructor
  · exact ⟨rfl, rfl⟩
  · simp only [advance_pos]
    omega
  · intro hnone
    rw [ahead_eq_none.mp hnone]
    rfl
  · intro s hs
    unfold ahead at hs
    by_cases hzero : n = 0
    · simp [hzero] at hs
    · simp only [hzero, if_false, Option.some.injEq] at hs
      subst s
      refine ⟨rfl, ?_, rfl⟩
      exact Nat.lt_add_of_pos_right (Nat.pos_of_ne_zero hzero)

def runLength (p : Char → Bool) (c : Cursor) : Nat := (c.remaining.takeWhile p).length

theorem runLength_le (p : Char → Bool) (c : Cursor) : c.runLength p ≤ c.left := by
  have hr := c.length_remaining_le
  have hw := (List.takeWhile_sublist p (l := c.remaining)).length_le
  unfold runLength
  omega

theorem remaining_getElem? (h : c.pos + n < c.stop) :
    c.remaining[n]? = c.text[c.pos + n]? := by
  unfold remaining
  rw [List.getElem?_drop, List.getElem?_take_of_lt h]

theorem runLength_longest {p : Char → Bool} {P : Char → Prop} (hp : ∀ x, p x = true ↔ P x) :
    c.Longest P (c.advance (c.runLength p)) := by
  have hsplit : c.remaining = c.remaining.takeWhile p ++ c.remaining.dropWhile p :=
    List.takeWhile_append_dropWhile.symm
  constructor
  · intro x hx
    simp only [advance_pos, runLength] at hx
    rw [text_of_remaining hsplit] at hx
    exact (hp x).mp (List.mem_takeWhile_imp hx)
  · intro x hlt hx hP
    have hnext : (c.remaining.dropWhile p).head? = some x := by
      rw [← drop_takeWhile, List.head?_drop]
      exact (remaining_getElem? hlt).trans hx
    have hfalse := Text.stops_dropWhile c.remaining x hnext
    rw [(hp x).mpr hP] at hfalse
    cases hfalse

theorem runLength_of_none {p : Char → Bool} (h : c.takeRun p = none) : c.runLength p = 0 := by
  by_contra hne
  have hsome : c.takeRun p = some (⟨c.pos, c.pos + c.runLength p⟩, c.advance (c.runLength p)) :=
    if_neg hne
  rw [h] at hsome
  cases hsome

theorem ends_of_none (h : c.Inside) (hw : c.whitespace = none) (ht : c.token = none) :
    c.pos = c.stop ∨ c.text[c.pos]? = some '\r' ∨ c.text[c.pos]? = some '\n' := by
  have hblank : c.Longest IsBlank (c.advance (c.runLength isInlineSpace)) :=
    runLength_longest fun _ => isInlineSpace_iff
  have hsolid : c.Longest IsSolid (c.advance (c.runLength isTokenChar)) :=
    runLength_longest fun _ => isTokenChar_iff
  rw [runLength_of_none hw] at hblank
  rw [runLength_of_none ht] at hsolid
  by_cases hend : c.pos = c.stop
  · exact Or.inl hend
  have hlt : c.pos < c.stop := Nat.lt_of_le_of_ne h.pos_le hend
  obtain ⟨x, hx⟩ : ∃ x, c.text[c.pos]? = some x :=
    ⟨_, List.getElem?_eq_getElem (Nat.lt_of_lt_of_le hlt h.stop_le)⟩
  have hnotBlank := hblank.maximal _ hlt hx
  have hnotSolid := hsolid.maximal _ hlt hx
  simp only [IsBlank, not_or] at hnotBlank
  simp only [IsSolid, not_and, not_not] at hnotSolid
  rw [hx, Option.some.injEq, Option.some.injEq]
  by_cases hcr : x = '\r'
  · exact Or.inr (Or.inl hcr)
  · exact Or.inr (Or.inr (hnotSolid hnotBlank.1 hnotBlank.2 hcr))

structure In (text : Text) (pos stop : Nat) (c : Cursor) : Prop where
  same_text : c.text = text
  same_stop : c.stop = stop
  from_le : pos ≤ c.pos
  le_stop : c.pos ≤ stop

variable {text : Text} {pos stop : Nat}

theorem In.inside (h : c.In text pos stop) (hstop : stop ≤ text.length) : c.Inside := by
  constructor
  · rw [h.same_stop]
    exact h.le_stop
  · rw [h.same_stop, h.same_text]
    exact hstop

theorem In.advance (h : c.In text pos stop) (hn : n ≤ c.left) : (c.advance n).In text pos stop := by
  have hstop := h.same_stop
  have hfrom := h.from_le
  have hle := h.le_stop
  unfold left at hn
  constructor
  · exact h.same_text
  · exact h.same_stop
  · simp only [advance_pos]
    omega
  · simp only [advance_pos]
    omega

namespace Trail

variable {t : Trail}

def after (t : Trail) (steps : List Step) : Trail := steps.foldl (fun t s => (t.step s).2) t

theorem after_append (t : Trail) (steps more : List Step) :
    t.after (steps ++ more) = (t.after steps).after more := by
  unfold after
  exact List.foldl_append

theorem run_concat (t : Trail) (steps : List Step) (s : Step) :
    t.run (steps ++ [s]) = t.run steps ++ [(t.after steps).step s] := by
  induction steps generalizing t with
  | nil => rfl
  | cons first steps ih => exact congrArg (t.step first :: ·) (ih _)

/-- How far a step reads. Putting a cursor aside and taking it back reads nothing at all. -/
def reach (c : Cursor) : Step → Option Nat
  | .whitespace => some (c.runLength isInlineSpace)
  | .token => some (c.runLength isTokenChar)
  | .rest => some c.left
  | .fork => none
  | .back => none

theorem reach_le {s : Step} {n : Nat} (h : reach c s = some n) : n ≤ c.left := by
  cases s with
  | whitespace => exact Option.some.inj h ▸ c.runLength_le isInlineSpace
  | token => exact Option.some.inj h ▸ c.runLength_le isTokenChar
  | rest => exact Nat.le_of_eq (Option.some.inj h).symm
  | fork => cases h
  | back => cases h

theorem step_reach {s : Step} {n : Nat} (h : reach t.current s = some n) :
    t.step s = (t.current.ahead n, { t with current := t.current.advance n }) := by
  have hfollow : t.follow (t.current.takeSpan n) =
      (t.current.ahead n, { t with current := t.current.advance n }) := by
    unfold takeSpan ahead
    by_cases hn : n = 0
    · subst n
      rfl
    · simp only [hn, if_false]
      rfl
  cases s with
  | whitespace => exact Option.some.inj h ▸ hfollow
  | token => exact Option.some.inj h ▸ hfollow
  | rest => exact Option.some.inj h ▸ hfollow
  | fork => cases h
  | back => cases h

/-- All that a step can do: read ahead, put the cursor aside, or take back the last one. -/
theorem step_cases (t : Trail) (s : Step) :
    (∃ n, reach t.current s = some n ∧ n ≤ t.current.left ∧
      t.step s = (t.current.ahead n, { t with current := t.current.advance n })) ∨
    (s = .fork ∧ t.step s = (none, ⟨t.current, t.current :: t.saved⟩)) ∨
    (s = .back ∧ t.saved = [] ∧ t.step s = (none, t)) ∨
    (s = .back ∧ ∃ c saved, t.saved = c :: saved ∧ t.step s = (none, ⟨c, saved⟩)) := by
  cases hreach : reach t.current s with
  | some n => exact Or.inl ⟨n, rfl, reach_le hreach, step_reach hreach⟩
  | none =>
    cases s with
    | whitespace => cases hreach
    | token => cases hreach
    | rest => cases hreach
    | fork => exact Or.inr (Or.inl ⟨rfl, rfl⟩)
    | back =>
      cases hs : t.saved with
      | nil =>
        refine Or.inr (Or.inr (Or.inl ⟨rfl, rfl, ?_⟩))
        simp only [step, hs]
      | cons c saved =>
        refine Or.inr (Or.inr (Or.inr ⟨rfl, c, saved, rfl, ?_⟩))
        simp only [step, hs]

def Does (t : Trail) (found : Option Span) (u : Trail) : Step → Prop
  | .whitespace =>
    t.current.Moves found u.current ∧ t.current.Longest IsBlank u.current ∧ u.saved = t.saved
  | .token =>
    t.current.Moves found u.current ∧ t.current.Longest IsSolid u.current ∧ u.saved = t.saved
  | .rest =>
    t.current.Moves found u.current ∧ u.current.pos = t.current.stop ∧
      (found = none ↔ t.current.pos = t.current.stop) ∧ u.saved = t.saved
  | .fork => found = none ∧ u = ⟨t.current, t.current :: t.saved⟩
  | .back => found = none ∧ ∀ c saved, t.saved = c :: saved → u = ⟨c, saved⟩

theorem step_does (h : t.current.Inside) (s : Step) : t.Does (t.step s).1 (t.step s).2 s := by
  have hmoves := fun n (hn : n ≤ t.current.left) => advance_moves h hn
  cases s with
  | whitespace =>
    rw [step_reach rfl]
    exact ⟨hmoves _ (runLength_le _ _), runLength_longest fun _ => isInlineSpace_iff, rfl⟩
  | token =>
    rw [step_reach rfl]
    exact ⟨hmoves _ (runLength_le _ _), runLength_longest fun _ => isTokenChar_iff, rfl⟩
  | rest =>
    have hpos := h.pos_le
    rw [step_reach rfl]
    refine ⟨hmoves _ (Nat.le_refl _), ?_, ?_, rfl⟩
    · simp only [advance_pos, left]
      omega
    · simp only [ahead_eq_none, left]
      omega
  | fork => exact ⟨rfl, rfl⟩
  | back =>
    rcases step_cases t .back with ⟨n, hreach, -⟩ | ⟨hs, -⟩ | ⟨-, hnil, hs⟩ |
      ⟨-, d, rest, hcons, hs⟩
    · cases hreach
    · cases hs
    · rw [hs]
      refine ⟨rfl, ?_⟩
      intro c saved hsaved
      rw [hnil] at hsaved
      cases hsaved
    · rw [hs]
      refine ⟨rfl, ?_⟩
      intro c saved hsaved
      rw [hcons] at hsaved
      cases hsaved
      rfl

structure Within (text : Text) (pos stop : Nat) (t : Trail) : Prop where
  current : t.current.In text pos stop
  saved : ∀ c ∈ t.saved, c.In text pos stop

theorem Within.step (h : t.Within text pos stop) (s : Step) :
    (t.step s).2.Within text pos stop := by
  obtain ⟨hcurrent, hsaved⟩ := h
  rcases step_cases t s with ⟨n, -, hn, hs⟩ | ⟨-, hs⟩ | ⟨-, -, hs⟩ | ⟨-, c, saved, hcons, hs⟩
  · rw [hs]
    exact ⟨hcurrent.advance hn, hsaved⟩
  · rw [hs]
    exact ⟨hcurrent, List.forall_mem_cons.mpr ⟨hcurrent, hsaved⟩⟩
  · rw [hs]
    exact ⟨hcurrent, hsaved⟩
  · rw [hs]
    rw [hcons] at hsaved
    obtain ⟨hc, hrest⟩ := List.forall_mem_cons.mp hsaved
    exact ⟨hc, hrest⟩

theorem Within.after (h : t.Within text pos stop) (steps : List Step) :
    (t.after steps).Within text pos stop := by
  induction steps generalizing t with
  | nil => exact h
  | cons s steps ih => exact ih (h.step s)

/-- The number of forks that are open behind steps, if there is one for each step back. -/
def openForks : Nat → List Step → Option Nat
  | n, [] => some n
  | n, .fork :: steps => openForks (n + 1) steps
  | 0, .back :: _ => none
  | n + 1, .back :: steps => openForks n steps
  | n, .whitespace :: steps => openForks n steps
  | n, .token :: steps => openForks n steps
  | n, .rest :: steps => openForks n steps

theorem openForks_reach {s : Step} {n : Nat} (h : reach c s = some n) (m : Nat)
    (steps : List Step) : openForks m (s :: steps) = openForks m steps := by
  cases s with
  | whitespace => cases m <;> rfl
  | token => cases m <;> rfl
  | rest => cases m <;> rfl
  | fork => cases h
  | back => cases h

/-- As long as there is a fork for each step back, the cursors put aside before stay as they are. -/
theorem saved_after {steps : List Step} {saved : List Cursor} {n : Nat} (copies : List Cursor)
    (hs : t.saved = copies ++ saved) (h : openForks copies.length steps = some n) :
    ∃ copies' : List Cursor, copies'.length = n ∧ (t.after steps).saved = copies' ++ saved := by
  induction steps generalizing t copies with
  | nil => exact ⟨copies, by simpa [openForks] using h, hs⟩
  | cons s steps ih =>
    have hafter : t.after (s :: steps) = (t.step s).2.after steps := rfl
    rw [hafter]
    rcases step_cases t s with ⟨m, hreach, -, hstep⟩ | ⟨rfl, hstep⟩ | ⟨rfl, hnil, hstep⟩ |
      ⟨rfl, c, rest, hcons, hstep⟩
    · rw [openForks_reach hreach] at h
      apply ih copies _ h
      rw [hstep]
      exact hs
    · apply ih (t.current :: copies)
      · rw [hstep, hs]
        rfl
      · exact h
    · obtain rfl : copies = [] := by
        rw [hnil] at hs
        exact (List.append_eq_nil_iff.mp hs.symm).1
      cases h
    · cases copies with
      | nil => cases h
      | cons d copies =>
        rw [hcons, List.cons_append, List.cons.injEq] at hs
        apply ih copies _ h
        rw [hstep]
        exact hs.2

theorem after_fork {inner : List Step} {n : Nat} (h : openForks 0 inner = some n) :
    ∃ copies : List Cursor, copies.length = n ∧
      (t.after (.fork :: inner)).saved = copies ++ t.current :: t.saved := by
  have hfork : t.after (.fork :: inner) = (Trail.mk t.current (t.current :: t.saved)).after inner :=
    rfl
  rw [hfork]
  exact saved_after [] rfl h

theorem after_back {inner : List Step} (h : openForks 0 inner = some 0) :
    t.after (.fork :: inner ++ [.back]) = t := by
  obtain ⟨copies, hlen, hsaved⟩ := after_fork (t := t) h
  obtain rfl : copies = [] := List.eq_nil_of_length_eq_zero hlen
  have hback : ∀ u : Trail, u.saved = t.current :: t.saved → u.after [.back] = t := by
    intro u hu
    simp [after, step, hu]
  rw [after_append]
  exact hback _ hsaved

/-- The state machine of a cursor, wherever steps have led it. -/
theorem run_legal (hpos : pos ≤ stop) (hstop : stop ≤ text.length) (steps : List Step) :
    let start : Trail := ⟨⟨text, pos, stop⟩, []⟩
    let t := start.after steps
    t.Within text pos stop ∧
    (∀ s, start.run (steps ++ [s]) = start.run steps ++ [t.step s] ∧
      t.Does (t.step s).1 (t.step s).2 s) ∧
    (∀ inner n, openForks 0 inner = some n →
      (∃ copies : List Cursor, copies.length = n ∧
        (t.after (.fork :: inner)).saved = copies ++ t.current :: t.saved) ∧
      (n = 0 → t.after (.fork :: inner ++ [.back]) = t)) ∧
    (t.current.whitespace = none → t.current.token = none →
      t.current.pos = stop ∨ text[t.current.pos]? = some '\r' ∨
        text[t.current.pos]? = some '\n') := by
  intro start t
  have hstart : start.Within text pos stop :=
    ⟨⟨rfl, rfl, Nat.le_refl pos, hpos⟩, List.forall_mem_nil _⟩
  have hwithin : t.Within text pos stop := hstart.after steps
  refine ⟨hwithin, ?_, ?_, ?_⟩
  · intro s
    exact ⟨run_concat start steps s, step_does (hwithin.current.inside hstop) s⟩
  · intro inner n hopen
    refine ⟨after_fork hopen, ?_⟩
    rintro rfl
    exact after_back hopen
  · intro hw ht
    have hends := ends_of_none (hwithin.current.inside hstop) hw ht
    rw [hwithin.current.same_text, hwithin.current.same_stop] at hends
    exact hends

theorem run_legal_pathLine :
    (after ⟨⟨" /bin/sh -e\n", 0, 11⟩, []⟩ [.whitespace, .fork, .token, .rest, .back]).current =
      ⟨" /bin/sh -e\n", 1, 11⟩ ∧
    after ⟨⟨" /bin/sh -e\n", 0, 11⟩, []⟩ [.whitespace, .fork, .token, .rest, .back] =
      after ⟨⟨" /bin/sh -e\n", 0, 11⟩, []⟩ [.whitespace] := by
  have hstop : 11 ≤ (" /bin/sh -e\n" : Text).length := by decide
  have hlegal := run_legal (Nat.zero_le 11) hstop [.whitespace]
  refine ⟨by decide, ?_⟩
  exact (hlegal.2.2.1 [.token, .rest] 0 rfl).2 rfl

end Trail

end Cursor

end Shebang
