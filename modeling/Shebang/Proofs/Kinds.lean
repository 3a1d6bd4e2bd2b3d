import Mathlib.Data.List.Chain
import Shebang.Proofs.RoundTrip

/-!
The kinds of the nodes of a shebang line. They form a word of a regular expression over kinds, which
tells the two forms apart, and no two blanks stand side by side.
-/

namespace Shebang

open Computability Line

def optionally (L : Words NodeKind) : Words NodeKind := 1 + L

def launcherKinds : Words NodeKind :=
  {[.launcherPath]} * {[.whitespace]} * ({[.launcherFlag]} * {[.whitespace]})∗ *
    {[.launcherInterpreter]}

def directKinds : Words NodeKind :=
  {[.interpreterPath]} * optionally {[.interpreterName]} + {[.interpreterName]}

def tailKinds : Words NodeKind :=
  optionally {[.whitespace]} * optionally ({[.arguments]} * optionally {[.whitespace]})

def lineKinds (call : Words NodeKind) : Words NodeKind :=
  {[.marker]} * optionally {[.whitespace]} * call * tailKinds * {[.newline]}

variable {l : Line}

def kindsOf (pieces : List Piece) : List NodeKind := (Piece.present pieces).map Piece.kind

theorem kindsOf_append (left right : List Piece) :
    kindsOf (left ++ right) = kindsOf left ++ kindsOf right := by
  simp [kindsOf]

theorem kindsOf_pieces (l : Line) : kindsOf l.pieces =
    [.marker] ++ kindsOf [⟨.whitespace, l.lead⟩] ++ kindsOf l.call.pieces ++
      kindsOf l.tail.pieces ++ kindsOf [⟨.newline, l.newline⟩] := by
  rw [pieces_eq, kindsOf_append, kindsOf_append, kindsOf_append, kindsOf_append]
  rfl

theorem kindsOf_single {kind : NodeKind} {t : Text} (h : t ≠ []) :
    kindsOf [⟨kind, t⟩] = [kind] := by
  rw [kindsOf, Piece.present_cons h]
  rfl

theorem kindsOf_optional (kind : NodeKind) (t : Text) :
    kindsOf [⟨kind, t⟩] ∈ optionally {[kind]} := by
  rw [optionally, Language.mem_add, Language.mem_one]
  by_cases h : t = []
  · exact Or.inl (by simp [h, kindsOf, Piece.present])
  · exact Or.inr (kindsOf_single h)

def flagKinds (flags : List (Text × Text)) : List NodeKind :=
  flags.flatMap fun _ => [.launcherFlag, .whitespace]

theorem kindsOf_flagPieces {flags : List (Text × Text)} (h : ∀ f ∈ flags, Flag f.1 ∧ Gap f.2) :
    kindsOf (flagPieces flags) = flagKinds flags := by
  induction flags with
  | nil => rfl
  | cons f flags ih =>
    obtain ⟨⟨hf, hg⟩, hflags⟩ := List.forall_mem_cons.mp h
    rw [flagPieces_cons, kindsOf_append, kindsOf_append, kindsOf_single hf.1.1,
      kindsOf_single hg.1, ih hflags]
    rfl

theorem kindsOf_launcher {directory gap interpreter : Text} {flags : List (Text × Text)}
    (h : (Call.viaLauncher directory gap flags interpreter).WellFormed) :
    kindsOf (Call.viaLauncher directory gap flags interpreter).pieces =
      [.launcherPath] ++ [.whitespace] ++ flagKinds flags ++ [.launcherInterpreter] := by
  obtain ⟨hd, hg, hf, hi⟩ := h
  rw [Call.pieces_viaLauncher, kindsOf_append, kindsOf_append, kindsOf_append,
    kindsOf_single (token_env hd).1, kindsOf_single hg.1, kindsOf_flagPieces hf,
    kindsOf_single hi.1.1]

theorem kindsOf_direct {directory name : Text} (h : (Call.direct directory name).WellFormed) :
    kindsOf (Call.direct directory name).pieces = [.interpreterPath, .interpreterName] ∨
      kindsOf (Call.direct directory name).pieces = [.interpreterPath] ∨
      kindsOf (Call.direct directory name).pieces = [.interpreterName] := by
  obtain ⟨-, -, -, hn⟩ := h
  rw [Call.pieces_direct, kindsOf_append]
  by_cases hd : directory = []
  · subst hd
    exact Or.inr (Or.inr (kindsOf_single hn))
  · rw [kindsOf_single hd]
    by_cases he : name = []
    · subst he
      exact Or.inr (Or.inl rfl)
    · rw [kindsOf_single he]
      exact Or.inl rfl

def callKinds : Form → Words NodeKind
  | .viaLauncher => launcherKinds
  | .direct => directKinds

theorem kindsOf_call {c : Call} (h : c.WellFormed) : kindsOf c.pieces ∈ callKinds c.form := by
  cases c with
  | viaLauncher directory gap flags interpreter =>
    rw [kindsOf_launcher h]
    refine Language.append_mem_mul (Language.append_mem_mul
      (Language.append_mem_mul rfl rfl) ?_) rfl
    refine Language.join_mem_kstar fun w hw => ?_
    obtain ⟨f, -, rfl⟩ := List.mem_map.mp hw
    exact ⟨[.launcherFlag], rfl, [.whitespace], rfl, rfl⟩
  | direct directory name =>
    rcases kindsOf_direct h with he | he | he <;> rw [he]
    · exact Or.inl ⟨[.interpreterPath], rfl, [.interpreterName], Or.inr rfl, rfl⟩
    · exact Or.inl ⟨[.interpreterPath], rfl, [], Or.inl rfl, rfl⟩
    · exact Or.inr rfl

theorem kindsOf_tail {tail : Tail} (h : tail.WellFormed) : kindsOf tail.pieces ∈ tailKinds := by
  cases tail with
  | blanks gap =>
    rw [← List.append_nil (kindsOf _)]
    exact Language.append_mem_mul (kindsOf_optional _ gap) (Or.inl rfl)
  | arguments gap text trail =>
    obtain ⟨-, -, hn, -⟩ := h
    rw [Tail.pieces_arguments, kindsOf_append, kindsOf_append, kindsOf_single hn]
    exact Language.append_mem_mul (kindsOf_optional _ gap)
      (Or.inr (Language.append_mem_mul rfl (kindsOf_optional _ trail)))

theorem launcherPath_mem {L : Words NodeKind} {w : List NodeKind} (h : w ∈ lineKinds L) :
    ∃ u ∈ L, .launcherPath ∈ w ↔ .launcherPath ∈ u := by
  obtain ⟨_, ⟨_, ⟨_, ⟨_, rfl, lead, hl, rfl⟩, u, hu, rfl⟩, _, ⟨gap, hg, rest, hr, rfl⟩, rfl⟩,
    _, rfl, rfl⟩ := h
  have hblank : ∀ v ∈ optionally {[.whitespace]}, .launcherPath ∉ v := by
    rintro v (rfl | rfl) <;> decide
  have hrest : .launcherPath ∉ rest := by
    rcases hr with rfl | ⟨_, rfl, trail, ht, rfl⟩
    · simp
    · simp [hblank trail ht]
  refine ⟨u, hu, ?_⟩
  simp [hblank lead hl, hblank gap hg, hrest]

theorem launcherPath_launcher {w : List NodeKind} (h : w ∈ launcherKinds) : .launcherPath ∈ w := by
  obtain ⟨_, ⟨_, ⟨_, rfl, _, rfl, rfl⟩, _, -, rfl⟩, _, -, rfl⟩ := h
  simp

theorem launcherPath_direct {w : List NodeKind} (h : w ∈ directKinds) : .launcherPath ∉ w := by
  rcases h with ⟨_, rfl, _, rfl | rfl, rfl⟩ | rfl <;> decide

def Apart (a b : NodeKind) : Prop := ¬ (a = .whitespace ∧ b = .whitespace)

instance (a b : NodeKind) : Decidable (Apart a b) := inferInstanceAs (Decidable (¬ _))

theorem apart_flags (flags : List (Text × Text)) :
    (NodeKind.whitespace :: (flagKinds flags ++ [.launcherInterpreter])).IsChain Apart := by
  induction flags with
  | nil => decide
  | cons f flags ih => exact .cons_cons (by decide) (.cons_cons (by decide) ih)

theorem apart_call {c : Call} (h : c.WellFormed) : (kindsOf c.pieces).IsChain Apart ∧
    (∃ k, k ≠ .whitespace ∧ (kindsOf c.pieces).head? = some k) ∧
    (∃ k, k ≠ .whitespace ∧ (kindsOf c.pieces).getLast? = some k) := by
  cases c with
  | viaLauncher directory gap flags interpreter =>
    rw [kindsOf_launcher h]
    exact ⟨.cons_cons (by decide) (apart_flags flags), ⟨.launcherPath, by decide, rfl⟩,
      ⟨.launcherInterpreter, by decide, List.getLast?_concat⟩⟩
  | direct directory name =>
    rcases kindsOf_direct h with he | he | he <;> rw [he]
    · exact ⟨by decide, ⟨.interpreterPath, by decide, rfl⟩, ⟨.interpreterName, by decide, rfl⟩⟩
    · exact ⟨by decide, ⟨.interpreterPath, by decide, rfl⟩, ⟨.interpreterPath, by decide, rfl⟩⟩
    · exact ⟨by decide, ⟨.interpreterName, by decide, rfl⟩, ⟨.interpreterName, by decide, rfl⟩⟩

theorem kindsOf_newline (h : l.WellFormed) : kindsOf [⟨.newline, l.newline⟩] = [.newline] :=
  kindsOf_single (newline_ne_nil h)

theorem apart_tail {w : List NodeKind} (h : w ∈ tailKinds) :
    (w ++ [NodeKind.newline]).IsChain Apart := by
  rcases h with ⟨_, rfl | rfl, _, rfl | ⟨_, rfl, _, rfl | rfl, rfl⟩, rfl⟩ <;> decide

/-- No two blanks stand side by side: between them is a call or an argument. -/
theorem apart_line (h : l.WellFormed) : (kindsOf l.pieces).IsChain Apart := by
  obtain ⟨hc, ⟨first, hfirst, hhead⟩, ⟨last, hlast, hend⟩⟩ := apart_call h.call
  have ht := apart_tail (kindsOf_tail h.tail)
  rw [kindsOf_pieces, kindsOf_newline h, List.append_assoc, List.append_assoc, List.append_assoc]
  generalize kindsOf l.tail.pieces ++ [NodeKind.newline] = tail at *
  generalize kindsOf l.call.pieces = call at *
  have hrest : (call ++ tail).IsChain Apart := by
    refine List.isChain_append.mpr ⟨hc, ht, ?_⟩
    rintro a ha b - ⟨rfl, -⟩
    exact hlast (Option.some.inj (hend.symm.trans ha))
  have hfront : ∀ a, ∀ b ∈ (call ++ tail).head?, Apart a b := by
    rintro a b hb ⟨-, rfl⟩
    rw [List.head?_append, hhead] at hb
    exact hfirst (Option.some.inj hb)
  rcases kindsOf_optional .whitespace l.lead with hlead | hlead <;> rw [hlead]
  · exact List.isChain_cons.mpr ⟨hfront _, hrest⟩
  · exact .cons_cons (by decide) (List.isChain_cons.mpr ⟨hfront _, hrest⟩)

theorem kinds_mem (h : l.WellFormed) : kindsOf l.pieces ∈ lineKinds (callKinds l.call.form) := by
  rw [kindsOf_pieces, kindsOf_newline h]
  exact Language.append_mem_mul (Language.append_mem_mul (Language.append_mem_mul
    (Language.append_mem_mul rfl (kindsOf_optional _ l.lead)) (kindsOf_call h.call))
    (kindsOf_tail h.tail)) rfl

/-- The kinds tell the forms apart. -/
theorem form_of_kinds (h : l.WellFormed) (form : Form) :
    kindsOf l.pieces ∈ lineKinds (callKinds form) ↔ l.call.form = form := by
  refine ⟨fun hw => ?_, fun hf => hf ▸ kinds_mem h⟩
  obtain ⟨u, hu, hu'⟩ := launcherPath_mem hw
  obtain ⟨v, hv, hv'⟩ := launcherPath_mem (kinds_mem h)
  cases hform : l.call.form <;> cases form <;> rw [hform] at hv
  · exact absurd (hv'.mp (hu'.mpr (launcherPath_launcher hu))) (launcherPath_direct hv)
  · exact absurd (hu'.mp (hv'.mpr (launcherPath_launcher hv))) (launcherPath_direct hu)

theorem kinds_rendered (l : Line) : l.shebang.nodes.map Node.kind = kindsOf l.pieces := by
  have h := congrArg (List.map Piece.kind) (nodes_read l [])
  rwa [List.map_map] at h

end Shebang
