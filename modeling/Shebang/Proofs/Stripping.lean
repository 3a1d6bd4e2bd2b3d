import Mathlib.Data.List.Basic
import Shebang.Terminal.Console
import Shebang.Proofs.Cursor

/-!
The removal of control sequences, for any kind of sequence that begins with `ESC [`. A sequence has
its escape character in front and nowhere else, so sequences never overlap, and the removal goes
through an append unless a sequence begins before the seam and ends behind it.
-/

namespace Shebang.Terminal

/-- A kind of control sequences: `ESC [`, parameters, intermediates and a final character. The
three classes are apart and hold neither escape nor line feed, and a switch of style is a
sequence. -/
structure Sequences where
  parameter : Char → Bool
  intermediate : Char → Bool
  final : Char → Bool
  parameter_apart : ∀ c, parameter c = true → intermediate c = false ∧ final c = false
  intermediate_apart : ∀ c, intermediate c = true → final c = false
  escape_apart : parameter escape = false ∧ intermediate escape = false ∧ final escape = false
  newline_apart : parameter '\n' = false ∧ intermediate '\n' = false ∧ final '\n' = false
  digit : ∀ c, c.isDigit = true → parameter c = true
  mark : final 'm' = true

namespace Sequences

variable (g : Sequences)

def Complete (s : Text) : Prop :=
  ∃ parameters intermediates f, s = escape :: '[' :: (parameters ++ (intermediates ++ [f])) ∧
    (∀ c ∈ parameters, g.parameter c = true) ∧ (∀ c ∈ intermediates, g.intermediate c = true) ∧
    g.final f = true

def length? : Text → Option Nat
  | '\x1b' :: '[' :: t =>
    let parameters := t.takeWhile g.parameter
    let afterParameters := t.drop parameters.length
    let intermediates := afterParameters.takeWhile g.intermediate
    match afterParameters.drop intermediates.length with
    | c :: _ =>
      if g.final c then some (2 + parameters.length + intermediates.length + 1) else none
    | [] => none
  | _ => none

def removeFrom : Nat → Text → Text
  | _, [] => []
  | skip + 1, _ :: t => removeFrom skip t
  | 0, c :: t =>
    match g.length? (c :: t) with
    | some n => removeFrom (n - 1) t
    | none => c :: removeFrom 0 t

def remove (t : Text) : Text := g.removeFrom 0 t

/-- A sequence begins in the first text and ends in the second. -/
def Crosses (a b : Text) : Prop :=
  ∃ x p q y, a = x ++ p ∧ b = q ++ y ∧ p ≠ [] ∧ q ≠ [] ∧ g.Complete (p ++ q)

def Separate : List Text → Prop
  | [] => True
  | t :: ts => ¬ g.Crosses t ts.flatten ∧ Separate ts

def Inert (c : Char) : Prop :=
  c ≠ escape ∧ c ≠ '[' ∧ g.parameter c = false ∧ g.intermediate c = false ∧ g.final c = false

instance (c : Char) : Decidable (g.Inert c) := inferInstanceAs (Decidable (_ ∧ _))

theorem inert_newline : g.Inert '\n' := ⟨by decide, by decide, g.newline_apart⟩

variable {g} {s s' t u u' a b : Text} {c : Char}

section Complete

theorem Complete.first (h : g.Complete s) :
    ∃ body, s = escape :: body ∧ body ≠ [] ∧ escape ∉ body := by
  obtain ⟨ps, is, f, rfl, hp, hi, hf⟩ := h
  refine ⟨_, rfl, List.cons_ne_nil _ _, ?_⟩
  have hescape := g.escape_apart
  simp only [List.mem_cons, List.mem_append, List.not_mem_nil, or_false, not_or]
  refine ⟨by decide, ?_, ?_, ?_⟩
  · intro h
    simp [hp _ h] at hescape
  · intro h
    simp [hi _ h] at hescape
  · rintro rfl
    simp [hf] at hescape

theorem Complete.inert (h : g.Complete s) (hc : g.Inert c) : c ∉ s := by
  obtain ⟨ps, is, f, rfl, hp, hi, hf⟩ := h
  obtain ⟨hescape, hbracket, hparameter, hintermediate, hfinal⟩ := hc
  simp only [List.mem_cons, List.mem_append, List.not_mem_nil, or_false, not_or]
  refine ⟨hescape, hbracket, ?_, ?_, ?_⟩
  · intro h
    simp [hp _ h] at hparameter
  · intro h
    simp [hi _ h] at hintermediate
  · rintro rfl
    simp [hf] at hfinal

theorem stops_parameter {is : Text} {f : Char} (hi : ∀ c ∈ is, g.intermediate c = true)
    (hf : g.final f = true) : Text.Stops g.parameter (is ++ f :: u) := by
  intro x hx
  cases is with
  | nil =>
    obtain rfl : f = x := Option.some.inj hx
    by_contra hp
    simp [(g.parameter_apart f (Bool.not_eq_false _ ▸ hp)).2] at hf
  | cons c is =>
    obtain rfl : c = x := Option.some.inj hx
    by_contra hp
    have hc := hi c List.mem_cons_self
    simp [(g.parameter_apart c (Bool.not_eq_false _ ▸ hp)).1] at hc

theorem stops_intermediate {f : Char} (hf : g.final f = true) :
    Text.Stops g.intermediate (f :: u) := by
  intro x hx
  obtain rfl : f = x := Option.some.inj hx
  by_contra hi
  simp [g.intermediate_apart f (Bool.not_eq_false _ ▸ hi)] at hf

theorem Complete.unique (h : g.Complete s) (h' : g.Complete s') (he : s ++ u = s' ++ u') :
    s = s' := by
  obtain ⟨ps, is, f, rfl, hp, hi, hf⟩ := h
  obtain ⟨ps', is', f', rfl, hp', hi', hf'⟩ := h'
  simp only [List.cons_append, List.append_assoc, List.nil_append, List.cons.injEq, true_and] at he
  obtain ⟨rfl, htail⟩ := run_unique hp (stops_parameter hi hf) hp' (stops_parameter hi' hf') he
  obtain ⟨rfl, hlast⟩ := run_unique hi (stops_intermediate hf) hi' (stops_intermediate hf') htail
  rw [(List.cons.inj hlast).1]

theorem length?_complete (h : g.Complete s) : g.length? (s ++ u) = some s.length := by
  obtain ⟨ps, is, f, rfl, hp, hi, hf⟩ := h
  have hparameters := takeWhile_run hp (stops_parameter (u := u) hi hf)
  have hintermediates := takeWhile_run hi (stops_intermediate (u := u) hf)
  simp only [List.cons_append, List.append_assoc, List.nil_append, length?, escape]
  rw [hparameters, List.drop_left, hintermediates, List.drop_left]
  simp [hf]
  omega

theorem complete_of_length? {n : Nat} (h : g.length? t = some n) :
    ∃ s u, t = s ++ u ∧ g.Complete s ∧ s.length = n := by
  unfold length? at h
  split at h
  · next t =>
    simp only [] at h
    have hparameters := List.takeWhile_append_dropWhile (p := g.parameter) (l := t)
    rw [drop_takeWhile] at h
    have hintermediates := List.takeWhile_append_dropWhile (p := g.intermediate)
      (l := t.dropWhile g.parameter)
    rw [drop_takeWhile] at h
    split at h
    · next c rest hc =>
      rw [hc] at hintermediates
      split_ifs at h with hf
      refine ⟨escape :: '[' :: (t.takeWhile g.parameter ++
        ((t.dropWhile g.parameter).takeWhile g.intermediate ++ [c])), rest, ?_,
        ⟨_, _, c, rfl, fun _ => List.mem_takeWhile_imp, fun _ => List.mem_takeWhile_imp, hf⟩, ?_⟩
      · simp [hintermediates, escape]
      · rw [← Option.some.inj h]
        simp
        omega
    · cases h
  · cases h

end Complete

section Remove

@[simp] theorem remove_nil : g.remove [] = [] := rfl

theorem removeFrom_eq (skip : Nat) (t : Text) : g.removeFrom skip t = g.remove (t.drop skip) := by
  induction skip generalizing t with
  | zero => rfl
  | succ skip ih =>
    cases t with
    | nil => rfl
    | cons c t => exact ih t

theorem remove_complete (h : g.Complete s) : g.remove (s ++ u) = g.remove u := by
  have hlength := length?_complete (u := u) h
  obtain ⟨body, rfl, -⟩ := h.first
  rw [List.cons_append] at hlength ⊢
  rw [remove, removeFrom, hlength]
  simp only [removeFrom_eq, List.length_cons, Nat.add_sub_cancel, List.drop_left]

theorem remove_cons (h : ∀ s u, g.Complete s → c :: t ≠ s ++ u) :
    g.remove (c :: t) = c :: g.remove t := by
  have hnone : g.length? (c :: t) = none := by
    cases hl : g.length? (c :: t) with
    | none => rfl
    | some n =>
      obtain ⟨s, u, ht, hs, -⟩ := complete_of_length? hl
      exact absurd ht (h s u hs)
  rw [remove, removeFrom, hnone]
  rfl

theorem remove_plain_append (h : escape ∉ a) : g.remove (a ++ b) = a ++ g.remove b := by
  induction a with
  | nil => rfl
  | cons c a ih =>
    obtain ⟨hc, ha⟩ := not_or.mp (mt List.mem_cons.mpr h)
    rw [List.cons_append, remove_cons, ih ha, List.cons_append]
    rintro s u hs he
    obtain ⟨body, rfl, -⟩ := hs.first
    exact hc (List.cons.inj he).1.symm

theorem remove_plain (h : escape ∉ t) : g.remove t = t := by
  have hr := remove_plain_append (g := g) (b := []) h
  rwa [List.append_nil, remove_nil, List.append_nil] at hr

theorem Crosses.append (h : g.Crosses u b) (s : Text) : g.Crosses (s ++ u) b := by
  obtain ⟨x, p, q, y, rfl, hb, hp, hq, hpq⟩ := h
  exact ⟨s ++ x, p, q, y, (List.append_assoc _ _ _).symm, hb, hp, hq, hpq⟩

/-- The removal goes through a seam that no sequence crosses. -/
theorem remove_append (h : ¬ g.Crosses a b) : g.remove (a ++ b) = g.remove a ++ g.remove b := by
  -- Induction on the length, since what is removed may be longer than one character.
  induction hn : a.length using Nat.strong_induction_on generalizing a with
  | h n ih =>
    subst hn
    cases a with
    | nil => rfl
    | cons c a =>
      by_cases hc : ∃ s u, g.Complete s ∧ (c :: a) ++ b = s ++ u
      · obtain ⟨s, u, hs, he⟩ := hc
        rcases List.append_eq_append_iff.mp he with ⟨q, rfl, rfl⟩ | ⟨v, hv, rfl⟩
        · cases q with
          | nil =>
            rw [List.append_nil] at hs
            have hwhole := remove_complete (u := []) hs
            rw [List.append_nil] at hwhole
            rw [List.nil_append, remove_complete hs, hwhole]
            rfl
          | cons d q =>
            exact absurd ⟨[], _, _, u, rfl, rfl, List.cons_ne_nil _ _, List.cons_ne_nil _ _, hs⟩ h
        · obtain ⟨body, rfl, -⟩ := hs.first
          rw [hv] at h ⊢
          have hlt : v.length < (c :: a).length := by
            rw [hv, List.length_append, List.length_cons]
            omega
          rw [List.append_assoc, remove_complete hs, remove_complete hs]
          exact ih _ hlt (fun hcross => h (hcross.append _)) rfl
      · have hhead : ∀ s u, g.Complete s → c :: (a ++ b) ≠ s ++ u :=
          fun s u hs he => hc ⟨s, u, hs, he⟩
        rw [List.cons_append, remove_cons hhead, remove_cons, List.cons_append,
          ih _ (Nat.lt_succ_self _) (fun hcross => h (hcross.append [c])) rfl]
        intro s u hs he
        refine hhead s (u ++ b) hs ?_
        rw [← List.append_assoc, ← he, List.cons_append]

theorem not_crosses_escape : ¬ g.Crosses a (escape :: t) := by
  rintro ⟨x, p, q, y, -, hb, hp, hq, hpq⟩
  obtain ⟨c, p, rfl⟩ := List.exists_cons_of_ne_nil hp
  obtain ⟨d, q, rfl⟩ := List.exists_cons_of_ne_nil hq
  obtain ⟨body, he, -, hbody⟩ := hpq.first
  rw [List.cons_append, List.cons.injEq] at he hb
  exact hbody (by rw [← he.2, hb.1]; simp)

theorem remove_append_lt (h : g.Crosses a b) :
    (g.remove (a ++ b)).length < (g.remove a ++ g.remove b).length := by
  obtain ⟨x, p, q, y, rfl, rfl, hp, hq, hpq⟩ := h
  obtain ⟨c, p, rfl⟩ := List.exists_cons_of_ne_nil hp
  obtain ⟨body, he, -, hbody⟩ := hpq.first
  rw [List.cons_append, List.cons.injEq] at he
  obtain ⟨rfl, rfl⟩ := he
  rw [List.mem_append, not_or] at hbody
  have hwhole : g.remove (x ++ (escape :: p) ++ (q ++ y)) = g.remove x ++ g.remove y := by
    rw [List.append_assoc, List.cons_append, remove_append not_crosses_escape, ← List.append_assoc,
      ← List.cons_append, ← List.cons_append, remove_complete hpq]
  have hfront : g.remove (x ++ escape :: p) = g.remove x ++ escape :: p := by
    rw [remove_append not_crosses_escape, remove_cons, remove_plain hbody.1]
    intro s u hs hsplit
    -- The sequence that crosses would be this shorter one.
    have hfirst : s ++ (u ++ q) = (escape :: p ++ q) ++ [] := by
      rw [List.append_nil, ← List.append_assoc, ← hsplit]
    have hs' : s = escape :: p ++ q := hs.unique hpq hfirst
    have hlen := congrArg List.length hsplit
    rw [hs'] at hlen
    simp only [List.length_append, List.length_cons] at hlen
    have := List.length_pos_iff.mpr hq
    omega
  rw [hwhole, hfront, remove_plain_append hbody.2]
  simp only [List.length_append, List.length_cons]
  omega

theorem not_crosses_nil : ¬ g.Crosses a [] := by
  rintro ⟨x, p, q, y, -, hb, -, hq, -⟩
  exact hq (List.append_eq_nil_iff.mp hb.symm).1

theorem nil_not_crosses : ¬ g.Crosses [] b := by
  rintro ⟨x, p, q, y, ha, -, hp, -, -⟩
  exact hp (List.append_eq_nil_iff.mp ha.symm).2

theorem not_crosses_inert (h : g.Inert c) : ¬ g.Crosses a (c :: b) := by
  rintro ⟨x, p, q, y, -, hb, -, hq, hpq⟩
  obtain ⟨d, q, rfl⟩ := List.exists_cons_of_ne_nil hq
  obtain ⟨rfl, -⟩ := List.cons.inj hb
  exact hpq.inert h (by simp)

theorem inert_not_crosses (h : g.Inert c) : ¬ g.Crosses (a ++ [c]) b := by
  rintro ⟨x, p, q, y, ha, -, hp, -, hpq⟩
  refine hpq.inert h (List.mem_append_left _ ?_)
  have hlast := congrArg List.getLast? ha
  rw [List.getLast?_append_of_ne_nil _ hp] at hlast
  exact List.mem_of_getLast? (by simpa using hlast.symm)

theorem remove_line (t u : Text) :
    g.remove (t ++ '\n' :: u) = g.remove t ++ '\n' :: g.remove u := by
  have hline : g.remove ('\n' :: u) = '\n' :: g.remove u := by
    refine remove_cons fun s v hs he => ?_
    obtain ⟨body, rfl, -⟩ := hs.first
    exact absurd (List.cons.inj he).1 (by decide)
  rw [remove_append (not_crosses_inert g.inert_newline), hline]

theorem remove_separate {ts : List Text} (h : g.Separate ts) :
    g.remove ts.flatten = ts.flatMap g.remove := by
  induction ts with
  | nil => rfl
  | cons t ts ih => rw [List.flatten_cons, remove_append h.1, ih h.2, List.flatMap_cons]

theorem remove_flatten_lt {ts : List Text} (h : ¬ g.Separate ts) :
    (g.remove ts.flatten).length < (ts.flatMap g.remove).length := by
  induction ts with
  | nil => exact absurd trivial h
  | cons t ts ih =>
    have hrest : (g.remove ts.flatten).length ≤ (ts.flatMap g.remove).length := by
      by_cases hts : g.Separate ts
      · rw [remove_separate hts]
      · exact Nat.le_of_lt (ih hts)
    rw [List.flatten_cons, List.flatMap_cons, List.length_append]
    by_cases hcross : g.Crosses t ts.flatten
    · have hlt := remove_append_lt hcross
      rw [List.length_append] at hlt
      omega
    · have hlt := ih fun hts => h ⟨hcross, hts⟩
      rw [remove_append hcross, List.length_append]
      omega

/-- The removal goes through all seams exactly if no sequence crosses one. -/
theorem remove_flatten_iff {ts : List Text} :
    g.remove ts.flatten = ts.flatMap g.remove ↔ g.Separate ts := by
  refine ⟨fun he => ?_, remove_separate⟩
  by_contra h
  have hlt := remove_flatten_lt h
  rw [he] at hlt
  exact Nat.lt_irrefl _ hlt

end Remove

section Switches

theorem complete_code (n : Nat) : g.Complete (code n) := by
  refine ⟨Text.ofNat n, [], 'm', rfl, ?_, nofun, g.mark⟩
  intro c hc
  exact g.digit c (Nat.isDigit_of_mem_toDigits (Nat.zero_lt_succ 9) (Nat.le_refl 10) hc)

theorem remove_code (n : Nat) (t : Text) : g.remove (code n ++ t) = g.remove t :=
  remove_complete (complete_code n)

theorem remove_switch (on off : Nat) (b : Option Bool) (t : Text) :
    g.remove (switch on off b ++ t) = g.remove t := by
  rcases b with _ | _ | _
  · rfl
  · exact remove_code off t
  · exact remove_code on t

theorem remove_opening (style : Style) (t : Text) : g.remove (style.opening ++ t) = g.remove t := by
  rw [Style.opening, List.append_assoc, List.append_assoc, List.append_assoc]
  cases style.color with
  | none => rw [List.nil_append, remove_switch, remove_switch, remove_switch]
  | some c => rw [remove_code, remove_switch, remove_switch, remove_switch]

theorem opening_first {style : Style} (h : style.opening ≠ []) :
    ∃ t, style.opening = escape :: t := by
  have happend : ∀ u v : Text, (u = [] ∨ ∃ t, u = escape :: t) → (v = [] ∨ ∃ t, v = escape :: t) →
      u ++ v = [] ∨ ∃ t, u ++ v = escape :: t := by
    rintro u v (rfl | ⟨t, rfl⟩) hv
    · exact hv
    · exact Or.inr ⟨t ++ v, rfl⟩
  have hswitch : ∀ on off b, switch on off b = [] ∨ ∃ t, switch on off b = escape :: t := by
    rintro on off (_ | _ | _)
    · exact Or.inl rfl
    · exact Or.inr ⟨_, rfl⟩
    · exact Or.inr ⟨_, rfl⟩
  refine Or.resolve_left ?_ h
  refine happend _ _ (happend _ _ (happend _ _ ?_ (hswitch 1 22 _)) (hswitch 2 22 _))
    (hswitch 4 24 _)
  cases style.color with
  | none => exact Or.inl rfl
  | some c => exact Or.inr ⟨_, rfl⟩

theorem remove_seam (n : Nat) (a b : Text) :
    g.remove (a ++ (code n ++ b)) = g.remove a ++ g.remove b := by
  rw [remove_append, remove_code]
  exact not_crosses_escape

theorem remove_apply {style : Style} (h : style.opening ≠ []) (a t b : Text) :
    g.remove (a ++ (style.apply t ++ b)) = g.remove a ++ (g.remove t ++ g.remove b) := by
  obtain ⟨rest, hrest⟩ := opening_first h
  have hopening : g.remove (a ++ (style.opening ++ (t ++ (code 0 ++ b)))) =
      g.remove a ++ g.remove (style.opening ++ (t ++ (code 0 ++ b))) := by
    refine remove_append ?_
    rw [hrest]
    exact not_crosses_escape
  rw [Style.apply, List.append_assoc, List.append_assoc, hopening, remove_opening, remove_seam]

end Switches

section Kinds

theorem toNat_le (a b : Char) : a ≤ b ↔ a.toNat ≤ b.toNat := by
  rw [Char.le_def, UInt32.le_iff_toNat_le]
  rfl

/-- The sequences that a console without color removes. -/
def control : Sequences where
  parameter := isParameter
  intermediate := isIntermediate
  final := isFinal
  parameter_apart c h := by
    simp only [isParameter, isIntermediate, isFinal, Bool.and_eq_true, decide_eq_true_eq,
      Bool.and_eq_false_iff, decide_eq_false_iff_not, toNat_le] at h ⊢
    have : '0'.toNat = 48 ∧ '?'.toNat = 63 ∧ ' '.toNat = 32 ∧ '/'.toNat = 47 ∧ '@'.toNat = 64 := by
      decide
    omega
  intermediate_apart c h := by
    simp only [isIntermediate, isFinal, Bool.and_eq_true, decide_eq_true_eq, Bool.and_eq_false_iff,
      decide_eq_false_iff_not, toNat_le] at h ⊢
    have : '/'.toNat = 47 ∧ '@'.toNat = 64 := by decide
    omega
  escape_apart := by decide
  newline_apart := by decide
  digit c h := by
    simp only [Char.isDigit, Bool.and_eq_true, decide_eq_true_eq] at h
    simp only [isParameter, Bool.and_eq_true, decide_eq_true_eq]
    exact ⟨h.1, Char.le_trans h.2 (by decide)⟩
  mark := by decide

theorem remove_control (t : Text) : control.remove t = strip t := by
  have hfrom : ∀ skip, control.removeFrom skip t = stripFrom skip t := by
    induction t with
    | nil => exact fun _ => rfl
    | cons c t ih =>
      rintro (_ | skip)
      · have hlength : control.length? (c :: t) = sequenceLength? (c :: t) := rfl
        rw [removeFrom, stripFrom, hlength]
        cases sequenceLength? (c :: t) with
        | none => exact congrArg (c :: ·) (ih 0)
        | some n => exact ih (n - 1)
      · exact ih skip
  exact hfrom 0

theorem not_isAlpha_of_isDigit {c : Char} (h : c.isDigit = true) : c.isAlpha = false := by
  delta Char.isAlpha Char.isUpper Char.isLower
  simp [Char.isDigit, UInt32.le_iff_toNat_le] at h ⊢
  omega

/-- Sequences of digits, `;` and `?` with a letter at their end. -/
def lettered : Sequences where
  parameter c := c.isDigit || c == ';' || c == '?'
  intermediate _ := false
  final c := c.isAlpha
  parameter_apart c h := by
    refine ⟨rfl, ?_⟩
    simp only [Bool.or_eq_true, beq_iff_eq] at h
    rcases h with (h | rfl) | rfl
    · exact not_isAlpha_of_isDigit h
    · rfl
    · rfl
  intermediate_apart c h := nomatch h
  escape_apart := by decide
  newline_apart := by decide
  digit c h := by simp [h]
  mark := by decide

end Kinds

end Sequences

end Shebang.Terminal

namespace Shebang.Console

open Terminal

theorem output_plain (c : Console) {texts : List Text} (h : ∀ t ∈ texts, escape ∉ t) :
    Emission.outputOf (texts.map c.printLine) = texts.flatMap (· ++ ['\n']) := by
  induction texts with
  | nil => rfl
  | cons t texts ih =>
    obtain ⟨ht, htexts⟩ := List.forall_mem_cons.mp h
    have hline : escape ∉ t ++ ['\n'] := by
      rw [List.mem_append, not_or]
      exact ⟨ht, by decide⟩
    have hecho : c.echo t true = t ++ ['\n'] := by
      simp [echo, ← Sequences.remove_control, Sequences.remove_plain hline]
    have hcons : Emission.outputOf ((t :: texts).map c.printLine) =
        c.echo t true ++ Emission.outputOf (texts.map c.printLine) := rfl
    rw [hcons, hecho, ih htexts, List.flatMap_cons]

end Shebang.Console
