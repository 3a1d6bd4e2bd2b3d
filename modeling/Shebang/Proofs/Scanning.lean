import Shebang.Proofs.Trails
import Shebang.Proofs.Watched

/-!
Watched computations that come to an end, and the steps of recognition among them. On the first line
a watched step does what it does on cursors: its loop ends, it reads characters of the text only,
and it never leaves the content of the line.
-/

namespace Shebang

def contentStop (text : Text) : Nat :=
  if 2 < text.idxOf '\n' ∧ text[text.idxOf '\n' - 1]? = some '\r' then text.idxOf '\n' - 1
  else text.idxOf '\n'

/-- What the bounds of a text allow. -/
def Act.Legal (text : Text) : Act → Prop
  | .read index => 0 ≤ index ∧ index < text.length
  | .span start stop => 0 ≤ start ∧ start ≤ stop
  | .line stop newline => 2 ≤ stop ∧ stop ≤ newline ∧ stop = contentStop text ∧
      newline = text.idxOf '\n' ∧ '\n' ∈ text
  | .move pos => 2 ≤ pos ∧ pos ≤ contentStop text
  | .again before after => before < after ∧ after ≤ contentStop text

def Act.isLine : Act → Bool
  | .line .. => true
  | _ => false

def Act.isAgain : Act → Bool
  | .again .. => true
  | _ => false

/-- The acts that tell how far recognition got: the line it delimited and the flags it passed. -/
def Act.isMark (a : Act) : Bool := a.isLine || a.isAgain

namespace Cursor

variable {text : Text} {c d : Cursor} {s : Span} {p : Char → Bool}

/-- The first line of the text has an end, and the cursor stands in its content. -/
structure OnLine (text : Text) (c : Cursor) : Prop where
  stop_le : contentStop text ≤ text.length
  within : c.In text 2 (contentStop text)

theorem OnLine.advance {n : Nat} (hc : c.OnLine text) (hn : n ≤ c.left) :
    (c.advance n).OnLine text := ⟨hc.stop_le, hc.within.advance hn⟩

theorem OnLine.takeRun (hc : c.OnLine text) (h : c.takeRun p = some (s, d)) :
    d.OnLine text ∧ c.pos < d.pos := by
  have hrun : c.runLength p ≤ c.left := c.runLength_le p
  obtain ⟨hne, -, rfl⟩ := takeSpan_eq_some h
  refine ⟨hc.advance hrun, ?_⟩
  simp only [advance_pos]
  omega

theorem OnLine.next (hc : c.OnLine text) (hlt : c.pos < c.stop) :
    ∃ x, text[c.pos]? = some x ∧ c.remaining = x :: (c.advance 1).remaining := by
  have htext := hc.within.same_text
  have hstop := hc.within.same_stop
  have hle := hc.stop_le
  have hlen : c.pos < (c.text.take c.stop).length := by
    rw [List.length_take, htext]
    omega
  refine ⟨(c.text.take c.stop)[c.pos], ?_, ?_⟩
  · rw [← htext, ← List.getElem?_take_of_lt hlt]
    exact List.getElem?_eq_getElem hlen
  · exact List.drop_eq_getElem_cons hlen

theorem remaining_ended (h : c.stop ≤ c.pos) : c.remaining = [] := by
  apply List.eq_nil_of_length_eq_zero
  have hle := c.length_remaining_le
  unfold left at hle
  omega

def place (c : Cursor) : Watched.Place := ⟨c.text, c.pos, c.stop⟩

/-- What was found, and the place behind it. -/
def placed : Option (Span × Cursor) → Option (Span × Watched.Place) :=
  Option.map (Prod.map id place)

end Cursor

namespace Watched

variable {σ α β : Type} {text : Text}

/-- The computation comes to an end with this result. All its acts are legal, and `marks` are those
among them that are kept. -/
def Ends (text : Text) (marks : List Act) (x : Watched α) (a : α) : Prop :=
  ∀ before, ∃ acts, x.run.run before = Part.some (.ok a, before ++ acts) ∧
    (∀ e ∈ acts, e.Legal text) ∧ acts.filter Act.isMark = marks

theorem Ends.pure (a : α) : Ends text [] (pure a) a := by
  intro before
  refine ⟨[], ?_, List.forall_mem_nil _, rfl⟩
  rw [List.append_nil]
  rfl

theorem Ends.bind_marked {marks more : List Act} {x : Watched α} {f : α → Watched β} {a : α}
    {b : β} (hx : Ends text marks x a) (hf : Ends text more (f a) b) :
    Ends text (marks ++ more) (x >>= f) b := by
  intro before
  obtain ⟨acts, hrun, hacts, rfl⟩ := hx before
  obtain ⟨acts', hrun', hacts', rfl⟩ := hf (before ++ acts)
  refine ⟨acts ++ acts', ?_, List.forall_mem_append.mpr ⟨hacts, hacts'⟩, List.filter_append ..⟩
  rw [ExceptT.run_bind, StateT.run_bind, hrun, ← List.append_assoc, ← hrun']
  exact Part.bind_some _ _

variable {marks : List Act}

theorem Ends.bind {x : Watched α} {f : α → Watched β} {a : α} {b : β} (hx : Ends text [] x a)
    (hf : Ends text marks (f a) b) : Ends text marks (x >>= f) b := hx.bind_marked hf

theorem Ends.bind_quiet {x : Watched α} {f : α → Watched β} {a : α} {b : β}
    (hx : Ends text marks x a) (hf : Ends text [] (f a) b) : Ends text marks (x >>= f) b := by
  simpa using hx.bind_marked hf

theorem Ends.ite_pos {p : Prop} [Decidable p] {x y : Watched α} {a : α} (h : p)
    (hx : Ends text marks x a) : Ends text marks (if p then x else y) a := by rwa [if_pos h]

theorem Ends.ite_neg {p : Prop} [Decidable p] {x y : Watched α} {a : α} (h : ¬ p)
    (hy : Ends text marks y a) : Ends text marks (if p then x else y) a := by rwa [if_neg h]

section Loop

variable {again : σ → σ → Act} {pass : σ → Watched (σ ⊕ α)} {s next : σ} {a : α}

theorem Ends.loop_over (h : Ends text [] (pass s) (.inr a)) :
    Ends text [] (loop again pass s) a := by
  intro before
  obtain ⟨acts, hrun, hacts, hmarks⟩ := h before
  refine ⟨acts, ?_, hacts, hmarks⟩
  apply Part.eq_some_iff.mpr
  apply PFun.fix_stop
  rw [hrun, Part.map_some]
  exact Part.mem_some _

/-- A pass with another state is recorded and followed by the loop from there. -/
theorem Ends.loop_on (h : Ends text [] (pass s) (.inl next)) (hl : (again s next).Legal text)
    (hn : Ends text marks (loop again pass next) a) :
    Ends text ([again s next].filter Act.isMark ++ marks) (loop again pass s) a := by
  intro before
  obtain ⟨acts, hrun, hacts, hmarks⟩ := h before
  obtain ⟨acts', hrun', hacts', rfl⟩ := hn (before ++ (acts ++ [again s next]))
  refine ⟨acts ++ [again s next] ++ acts', ?_, ?_, ?_⟩
  · rw [← List.append_assoc before, ← hrun', ← List.append_assoc before]
    apply PFun.fix_fwd_eq
    rw [hrun, Part.map_some]
    exact Part.mem_some _
  · have hpassed : ∀ e ∈ acts ++ [again s next], e.Legal text :=
      List.forall_mem_append.mpr ⟨hacts, List.forall_mem_singleton.mpr hl⟩
    exact List.forall_mem_append.mpr ⟨hpassed, hacts'⟩
  · rw [List.filter_append, List.filter_append, hmarks, List.nil_append]

end Loop

theorem ends_act {a : Act} (h : a.Legal text) :
    Ends text ([a].filter Act.isMark) (act a) () := by
  intro before
  refine ⟨[a], ?_, List.forall_mem_singleton.mpr h, rfl⟩
  calc (act a).run.run before
    _ = (Part.some ((), before ++ [a])).bind fun (x, acts) => Part.some (.ok x, acts) := rfl
    _ = Part.some (.ok (), before ++ [a]) := Part.bind_some _ _

section Offsets

variable {kind : NodeKind} {start stop index : Int} {x : Char}

theorem ends_read {source : Text} {n : Nat} (ht : source = text) (hi : index = n)
    (hx : text[n]? = some x) : Ends text [] (read source index) x := by
  subst source index
  have hn : n < text.length := (List.getElem?_eq_some_iff.mp hx).1
  have hlegal : (Act.read n).Legal text := ⟨by omega, by omega⟩
  have hat : characterAt text n = some x := hx
  apply (ends_act hlegal).bind
  rw [hat]
  exact Ends.pure x

theorem ends_stands {n : Nat} (hi : index = n) (hn : n < text.length) :
    Ends text [] (steps.stands text index x) (Cursor.steps.stands text index x) := by
  obtain ⟨y, hy⟩ : ∃ y, text[n]? = some y := ⟨_, List.getElem?_eq_getElem hn⟩
  have hplain : Cursor.steps.stands text index x = decide (y = x) := by
    subst index
    simp [Cursor.steps, hy]
  rw [hplain]
  exact (ends_read rfl hi hy).bind (Ends.pure _)

theorem ends_span (hstart : 0 ≤ start) (hstop : start ≤ stop) :
    Ends text [] (steps.span start stop) (Cursor.steps.span start stop) := by
  have hlegal : (Act.span start stop).Legal text := ⟨hstart, hstop⟩
  have hvalid : Span.ofBounds start stop = .ok ⟨start.toNat, stop.toNat⟩ := by
    apply if_neg
    omega
  apply (ends_act hlegal).bind
  rw [hvalid]
  exact Ends.pure _

theorem ends_node (hstart : 0 ≤ start) (hstop : start ≤ stop) :
    Ends text [] (steps.node kind start stop) (Cursor.steps.node kind start stop) :=
  (ends_span hstart hstop).bind (Ends.pure _)

theorem ends_nodeIf {present : Bool} (h : present = true → 0 ≤ start ∧ start ≤ stop) :
    Ends text [] (steps.nodeIf present kind start stop)
      (Cursor.steps.nodeIf present kind start stop) := by
  cases present with
  | false => exact Ends.pure _
  | true => exact (ends_node (h rfl).1 (h rfl).2).bind (Ends.pure _)

end Offsets

section Runs

variable {c : Cursor}

theorem legal_move {n : Nat} (hc : c.OnLine text) (hn : n ≤ c.left) :
    (Act.move (c.advance n).place.pos).Legal text := by
  have hin := hc.within.advance hn
  exact ⟨Int.ofNat_le.mpr hin.from_le, Int.ofNat_le.mpr hin.le_stop⟩

/-- All that a pass of the loop over a run can do: end where the run is over, or go on behind one
character of it. -/
theorem ends_skipPass (p : Char → Bool) (hc : c.OnLine text) :
    (c.runLength p = 0 ∧ Ends text [] (c.place.skipPass p) (.inr c.place)) ∨
    (1 ≤ c.left ∧ c.runLength p = 1 + (c.advance 1).runLength p ∧
      Ends text [] (c.place.skipPass p) (.inl (c.advance 1).place)) := by
  unfold Place.skipPass
  by_cases hlt : c.pos < c.stop
  · have hgo : c.place.pos < c.place.stop := Int.ofNat_lt.mpr hlt
    have hleft : 1 ≤ c.left := by
      unfold Cursor.left
      omega
    obtain ⟨x, hx, hcons⟩ := hc.next hlt
    rw [if_pos hgo]
    by_cases hclass : p x = true
    · right
      refine ⟨hleft, by simp [Cursor.runLength, hcons, hclass, Nat.add_comm], ?_⟩
      apply (ends_read hc.within.same_text rfl hx).bind
      rw [if_pos hclass]
      exact Ends.pure _
    · left
      refine ⟨by simp [Cursor.runLength, hcons, hclass], ?_⟩
      apply (ends_read hc.within.same_text rfl hx).bind
      rw [if_neg hclass]
      exact Ends.pure _
  · have hend : ¬ c.place.pos < c.place.stop := fun h => hlt (Int.ofNat_lt.mp h)
    have hnil := Cursor.remaining_ended (Nat.le_of_not_lt hlt)
    left
    refine ⟨by simp [Cursor.runLength, hnil], ?_⟩
    rw [if_neg hend]
    exact Ends.pure _

theorem ends_skip (p : Char → Bool) (hc : c.OnLine text) :
    Ends text [] (c.place.skip p) (c.advance (c.runLength p)).place := by
  induction hn : c.runLength p generalizing c with
  | zero =>
    rcases ends_skipPass p hc with ⟨-, hpass⟩ | ⟨-, hrun, -⟩
    · exact hpass.loop_over
    · omega
  | succ n ih =>
    rcases ends_skipPass p hc with ⟨hrun, -⟩ | ⟨hleft, hrun, hpass⟩
    · omega
    · have hnext : (c.advance 1).runLength p = n := by omega
      rw [Nat.add_comm n 1, ← Cursor.advance_advance]
      exact hpass.loop_on (legal_move hc hleft) (ih (hc.advance hleft) hnext)

theorem ends_takeRun (p : Char → Bool) (hc : c.OnLine text) :
    Ends text [] (c.place.takeRun p) (Cursor.placed (c.takeRun p)) := by
  apply (ends_skip p hc).bind
  by_cases hzero : c.runLength p = 0
  · have hnone : c.takeRun p = none := if_pos hzero
    have hstays : ¬ c.place.pos < (c.advance 0).place.pos := Int.lt_irrefl _
    rw [hnone, hzero, if_neg hstays]
    exact Ends.pure _
  · have hsome : c.takeRun p = some (⟨c.pos, c.pos + c.runLength p⟩, c.advance (c.runLength p)) :=
      if_neg hzero
    have hmoves : c.place.pos < (c.advance (c.runLength p)).place.pos := by
      apply Int.ofNat_lt.mpr
      simp only [Cursor.advance_pos]
      omega
    rw [hsome, if_pos hmoves]
    exact (ends_span (Int.natCast_nonneg _) (Int.le_of_lt hmoves)).bind (Ends.pure _)

theorem ends_whitespace (hc : c.OnLine text) :
    Ends text [] (steps.whitespace c.place) (Cursor.placed c.whitespace) :=
  ends_takeRun isInlineSpace hc

theorem ends_token (hc : c.OnLine text) :
    Ends text [] (steps.token c.place) (Cursor.placed c.token) :=
  ends_takeRun isTokenChar hc

theorem ends_rest (hc : c.OnLine text) :
    Ends text [] (steps.rest c.place) (Cursor.placed c.rest) := by
  change Ends text [] c.place.rest (Cursor.placed c.rest)
  unfold Place.rest
  by_cases hend : c.stop ≤ c.pos
  · have hnone : c.rest = none := by
      apply if_pos
      unfold Cursor.left
      omega
    have hle : c.place.stop ≤ c.place.pos := Int.ofNat_le.mpr hend
    rw [hnone, if_pos hle]
    exact Ends.pure _
  · have hstop : c.pos + c.left = c.stop := by
      unfold Cursor.left
      omega
    have hsome : c.rest = some (⟨c.pos, c.stop⟩, c.advance c.left) := by
      rw [← hstop]
      apply if_neg
      omega
    have hlt : ¬ c.place.stop ≤ c.place.pos := fun hle => hend (Int.ofNat_le.mp hle)
    have hmove := legal_move hc (Nat.le_refl c.left)
    have hlast : (c.advance c.left).place = { c.place with pos := c.place.stop } := by
      simp [Cursor.place, hstop]
    rw [hlast] at hmove
    rw [hsome, if_neg hlt]
    apply (ends_span (Int.natCast_nonneg _) (Int.le_of_not_le hlt)).bind
    apply (ends_act hmove).bind
    simp only [Cursor.placed, Option.map_some, Prod.map_apply, hlast]
    exact Ends.pure _

end Runs

end Watched

end Shebang
