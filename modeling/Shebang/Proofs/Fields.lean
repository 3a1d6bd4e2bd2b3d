import Shebang.Proofs.Kinds

/-!
The fields of a shebang line and its nodes tell the same story: each field is the text of the nodes
of its kind, and the parts that a field names have the shape that the grammar gives them.
-/

namespace Shebang

open Line

def ShebangLine.texts (s : ShebangLine) (source : Text) (kind : NodeKind) : List Text :=
  (s.nodes.filter (·.kind = kind)).map fun n => n.span.text source

/-- Fields, nodes and source of a shebang line agree. -/
structure ShebangLine.Coherent (s : ShebangLine) (source : Text) : Prop where
  kinds_launcher : s.nodes.map Node.kind ∈ lineKinds launcherKinds ↔ s.form = .viaLauncher
  kinds_direct : s.nodes.map Node.kind ∈ lineKinds directKinds ↔ s.form = .direct
  blanks : ∀ n ∈ s.nodes, n.kind = .whitespace → Blanks (n.span.text source)
  separated : s.nodes.IsChain fun m n => ¬ (m.kind = .whitespace ∧ n.kind = .whitespace)
  launcherPath : s.form = .viaLauncher → s.texts source .launcherPath = [s.pathPrefix ++ "env"]
  launcherInterpreter : s.form = .viaLauncher →
    s.texts source .launcherInterpreter = [s.interpreterToken] ∧
      s.interpreterToken.head? ≠ some '-'
  launcherFlags : s.texts source .launcherFlag = s.launcherFlags ∧
    ∀ f ∈ s.launcherFlags, f.head? = some '-'
  directPath : s.form = .direct →
    s.texts source .interpreterPath = if s.pathPrefix = [] then [] else [s.pathPrefix]
  directName : s.form = .direct → '/' ∉ s.interpreterToken ∧
    s.texts source .interpreterName = if s.interpreterToken = [] then [] else [s.interpreterToken]
  pathPrefix : s.pathPrefix = [] ∨ s.pathPrefix.getLast? = some '/'
  arguments : s.texts source .arguments = s.arguments.toList
  trimmed : ∀ a ∈ s.arguments, a ≠ [] ∧ '\n' ∉ a ∧
    (∀ x ∈ a.head?, isInlineSpace x = false) ∧ (∀ x ∈ a.getLast?, isInlineSpace x = false)
  marker : s.texts source .marker = ["#!"]
  newline : s.texts source .newline = ["\n"] ∨ s.texts source .newline = ["\r\n"]

variable {l : Line}

def textsOf (pieces : List Piece) (kind : NodeKind) : List Text :=
  ((Piece.present pieces).filter (·.kind = kind)).map Piece.text

theorem texts_rendered (l : Line) (body : Text) (kind : NodeKind) :
    l.shebang.texts (l.render ++ body) kind = textsOf l.pieces kind := by
  have h := congrArg (fun ps => (ps.filter (·.kind = kind)).map Piece.text) (nodes_read l body)
  simp only [List.filter_map, List.map_map] at h
  exact h

theorem textsOf_append (left right : List Piece) (kind : NodeKind) :
    textsOf (left ++ right) kind = textsOf left kind ++ textsOf right kind := by
  simp [textsOf]

theorem textsOf_single (kind other : NodeKind) (t : Text) :
    textsOf [⟨other, t⟩] kind = if other = kind ∧ t ≠ [] then [t] else [] := by
  by_cases ht : t = []
  · simp [textsOf, Piece.present, ht]
  · by_cases hk : other = kind <;> simp [textsOf, Piece.present, ht, hk]

theorem textsOf_other {kind other : NodeKind} (t : Text) (h : other ≠ kind) :
    textsOf [⟨other, t⟩] kind = [] := by
  rw [textsOf_single, if_neg fun he => h he.1]

theorem textsOf_same {kind : NodeKind} {t : Text} (h : t ≠ []) :
    textsOf [⟨kind, t⟩] kind = [t] := by
  rw [textsOf_single, if_pos ⟨rfl, h⟩]

theorem textsOf_flagPieces {flags : List (Text × Text)} (h : ∀ f ∈ flags, Flag f.1 ∧ Gap f.2) :
    textsOf (flagPieces flags) .launcherFlag = flags.map Prod.fst := by
  induction flags with
  | nil => rfl
  | cons f flags ih =>
    obtain ⟨⟨hf, -⟩, hflags⟩ := List.forall_mem_cons.mp h
    rw [flagPieces_cons, textsOf_append, textsOf_append, textsOf_same hf.1.1,
      textsOf_other _ (by decide), ih hflags]
    rfl

theorem textsOf_absent {pieces : List Piece} {kind : NodeKind} (h : kind ∉ pieces.map Piece.kind) :
    textsOf pieces kind = [] := by
  simp only [textsOf, List.map_eq_nil_iff, List.filter_eq_nil_iff, decide_eq_true_eq]
  rintro p hp rfl
  exact h (List.mem_map_of_mem (Piece.mem_present.mp hp).1)

theorem textsOf_call {c : Call} {kind : NodeKind}
    (h : kind = .marker ∨ kind = .arguments ∨ kind = .newline) : textsOf c.pieces kind = [] := by
  refine textsOf_absent fun hm => ?_
  obtain ⟨p, hp, rfl⟩ := List.mem_map.mp hm
  have hk := Call.kind_mem hp
  rcases h with h | h | h <;> simp [h] at hk

theorem textsOf_tail {tail : Tail} {kind : NodeKind} (hw : kind ≠ .whitespace)
    (ha : kind ≠ .arguments) : textsOf tail.pieces kind = [] := by
  refine textsOf_absent fun hm => ?_
  obtain ⟨p, hp, rfl⟩ := List.mem_map.mp hm
  have hk := Tail.kind_mem hp
  simp [hw, ha] at hk

theorem textsOf_arguments {tail : Tail} (h : tail.WellFormed) :
    textsOf tail.pieces .arguments = tail.arguments?.toList := by
  cases tail with
  | blanks gap => exact textsOf_other gap (by decide)
  | arguments gap text trail =>
    obtain ⟨-, -, hn, -⟩ := h
    rw [Tail.pieces_arguments, textsOf_append, textsOf_append, textsOf_other gap (by decide),
      textsOf_same hn, textsOf_other trail (by decide)]
    rfl

theorem textsOf_pieces (l : Line) (kind : NodeKind) : textsOf l.pieces kind =
    textsOf [⟨.marker, "#!"⟩] kind ++ textsOf [⟨.whitespace, l.lead⟩] kind ++
      textsOf l.call.pieces kind ++ textsOf l.tail.pieces kind ++
      textsOf [⟨.newline, l.newline⟩] kind := by
  rw [pieces_eq, textsOf_append, textsOf_append, textsOf_append, textsOf_append]

section Rendered

variable (body : Text)

theorem texts_call {kind : NodeKind} (hm : kind ≠ .marker) (hw : kind ≠ .whitespace)
    (ha : kind ≠ .arguments) (hn : kind ≠ .newline) :
    l.shebang.texts (l.render ++ body) kind = textsOf l.call.pieces kind := by
  rw [texts_rendered, textsOf_pieces, textsOf_other _ hm.symm, textsOf_other _ hw.symm,
    textsOf_tail hw ha, textsOf_other _ hn.symm]
  simp

theorem texts_arguments (h : l.WellFormed) :
    l.shebang.texts (l.render ++ body) .arguments = l.tail.arguments?.toList := by
  rw [texts_rendered, textsOf_pieces, textsOf_other _ (by decide), textsOf_other _ (by decide),
    textsOf_call (Or.inr (Or.inl rfl)), textsOf_arguments h.tail, textsOf_other _ (by decide)]
  simp

theorem texts_marker : l.shebang.texts (l.render ++ body) .marker = ["#!"] := by
  rw [texts_rendered, textsOf_pieces, textsOf_same (by decide), textsOf_other _ (by decide),
    textsOf_call (Or.inl rfl), textsOf_tail (by decide) (by decide), textsOf_other _ (by decide)]
  rfl

theorem texts_newline (h : l.WellFormed) :
    l.shebang.texts (l.render ++ body) .newline = [l.newline] := by
  rw [texts_rendered, textsOf_pieces, textsOf_other _ (by decide), textsOf_other _ (by decide),
    textsOf_call (Or.inr (Or.inr rfl)), textsOf_tail (by decide) (by decide),
    textsOf_same (newline_ne_nil h)]
  rfl

end Rendered

theorem textsOf_launcher {directory gap interpreter : Text} {flags : List (Text × Text)}
    (h : (Call.viaLauncher directory gap flags interpreter).WellFormed) :
    textsOf (Call.viaLauncher directory gap flags interpreter).pieces .launcherPath =
        [directory ++ "env"] ∧
      textsOf (Call.viaLauncher directory gap flags interpreter).pieces .launcherFlag =
        flags.map Prod.fst ∧
      textsOf (Call.viaLauncher directory gap flags interpreter).pieces .launcherInterpreter =
        [interpreter] := by
  obtain ⟨hd, -, hf, hi⟩ := h
  have hflags : ∀ kind, kind ≠ .launcherFlag → kind ≠ .whitespace →
      textsOf (flagPieces flags) kind = [] := by
    intro kind hk hw
    refine textsOf_absent fun hm => ?_
    obtain ⟨p, hp, rfl⟩ := List.mem_map.mp hm
    rcases flagPieces_kind hp with he | he
    · exact hk he
    · exact hw he
  simp only [Call.pieces_viaLauncher, textsOf_append]
  refine ⟨?_, ?_, ?_⟩
  · rw [textsOf_same (token_env hd).1, textsOf_other _ (by decide),
      hflags _ (by decide) (by decide), textsOf_other _ (by decide)]
    simp
  · rw [textsOf_other _ (by decide), textsOf_other _ (by decide), textsOf_flagPieces hf,
      textsOf_other _ (by decide)]
    simp
  · rw [textsOf_other _ (by decide), textsOf_other _ (by decide), hflags _ (by decide) (by decide),
      textsOf_same hi.1.1]
    simp

theorem textsOf_direct (directory name : Text) :
    textsOf (Call.direct directory name).pieces .interpreterPath =
        (if directory = [] then [] else [directory]) ∧
      textsOf (Call.direct directory name).pieces .interpreterName =
        (if name = [] then [] else [name]) ∧
      textsOf (Call.direct directory name).pieces .launcherFlag = [] := by
  simp only [Call.pieces_direct, textsOf_append, textsOf_single]
  by_cases hd : directory = [] <;> by_cases hn : name = [] <;> simp [hd, hn]

theorem launcher_fields {c : Call} (h : c.WellFormed) (hf : c.form = .viaLauncher) :
    textsOf c.pieces .launcherPath = [c.directory ++ "env"] ∧
      textsOf c.pieces .launcherInterpreter = [c.interpreter] ∧ c.interpreter.head? ≠ some '-' := by
  cases c with
  | viaLauncher directory gap flags interpreter =>
    obtain ⟨hpath, -, hinterpreter⟩ := textsOf_launcher h
    obtain ⟨-, -, -, hi⟩ := h
    exact ⟨hpath, hinterpreter, hi.2⟩
  | direct directory name => cases hf

theorem flag_fields {c : Call} (h : c.WellFormed) :
    textsOf c.pieces .launcherFlag = c.flags ∧ ∀ f ∈ c.flags, f.head? = some '-' := by
  cases c with
  | viaLauncher directory gap flags interpreter =>
    obtain ⟨-, hflags, -⟩ := textsOf_launcher h
    obtain ⟨-, -, hf, -⟩ := h
    refine ⟨hflags, fun f hm => ?_⟩
    obtain ⟨g, hg, rfl⟩ := List.mem_map.mp hm
    exact (hf g hg).1.2
  | direct directory name =>
    obtain ⟨-, -, hflags⟩ := textsOf_direct directory name
    exact ⟨hflags, fun f hm => nomatch hm⟩

theorem direct_fields {c : Call} (h : c.WellFormed) (hf : c.form = .direct) :
    textsOf c.pieces .interpreterPath = (if c.directory = [] then [] else [c.directory]) ∧
      '/' ∉ c.interpreter ∧
      textsOf c.pieces .interpreterName = (if c.interpreter = [] then [] else [c.interpreter]) := by
  cases c with
  | viaLauncher directory gap flags interpreter => cases hf
  | direct directory name =>
    obtain ⟨hpath, hname, -⟩ := textsOf_direct directory name
    obtain ⟨-, -, hslash, -⟩ := h
    exact ⟨hpath, hslash, hname⟩

theorem call_directory {c : Call} (h : c.WellFormed) : Directory c.directory := by
  cases c <;> exact h.1

theorem blanks_of_call {c : Call} (h : c.WellFormed) {p : Piece} (hp : p ∈ c.pieces)
    (hk : p.kind = .whitespace) : Blanks p.text := by
  cases c with
  | viaLauncher directory gap flags interpreter =>
    obtain ⟨-, hg, hf, -⟩ := h
    simp only [Call.pieces, List.cons_append, List.mem_cons, List.mem_append, List.not_mem_nil,
      or_false] at hp
    rcases hp with rfl | rfl | hp | rfl
    · cases hk
    · exact hg.2
    · obtain ⟨f, hm, hp⟩ := List.mem_flatMap.mp hp
      rcases List.mem_cons.mp hp with rfl | hp
      · cases hk
      · rw [List.mem_singleton.mp hp]
        exact (hf f hm).2.2
    · cases hk
  | direct directory name =>
    simp only [Call.pieces, List.mem_cons, List.not_mem_nil, or_false] at hp
    rcases hp with rfl | rfl <;> cases hk

theorem blanks_of_tail {tail : Tail} (h : tail.WellFormed) {p : Piece} (hp : p ∈ tail.pieces)
    (hk : p.kind = .whitespace) : Blanks p.text := by
  cases tail with
  | blanks gap =>
    rw [List.mem_singleton.mp hp]
    exact h
  | arguments gap text trail =>
    obtain ⟨hg, ht, -⟩ := h
    simp only [Tail.pieces, List.mem_cons, List.not_mem_nil, or_false] at hp
    rcases hp with rfl | rfl | rfl
    · exact hg
    · cases hk
    · exact ht

theorem blanks_of_pieces (h : l.WellFormed) {p : Piece} (hp : p ∈ l.pieces)
    (hk : p.kind = .whitespace) : Blanks p.text := by
  rw [pieces_eq] at hp
  simp only [List.mem_append, List.mem_singleton] at hp
  rcases hp with (((rfl | rfl) | hp) | hp) | rfl
  · cases hk
  · exact h.lead
  · exact blanks_of_call h.call hp hk
  · exact blanks_of_tail h.tail hp hk
  · cases hk

theorem node_blanks (h : l.WellFormed) (body : Text) {n : Node} (hn : n ∈ l.shebang.nodes)
    (hk : n.kind = .whitespace) : Blanks (n.span.text (l.render ++ body)) := by
  have hr : n.read (l.render ++ body) ∈ Piece.present l.pieces := by
    rw [← nodes_read l body]
    exact List.mem_map_of_mem hn
  exact blanks_of_pieces h (Piece.mem_present.mp hr).1 hk

theorem nodes_apart (h : l.WellFormed) :
    l.shebang.nodes.IsChain fun m n => ¬ (m.kind = .whitespace ∧ n.kind = .whitespace) := by
  have hc := apart_line h
  rw [← kinds_rendered] at hc
  exact (List.isChain_map Node.kind).mp hc

theorem tail_trimmed {tail : Tail} (h : tail.WellFormed) : ∀ a ∈ tail.arguments?, a ≠ [] ∧
    '\n' ∉ a ∧ (∀ x ∈ a.head?, isInlineSpace x = false) ∧
      (∀ x ∈ a.getLast?, isInlineSpace x = false) := by
  intro a ha
  cases tail with
  | blanks gap => cases ha
  | arguments gap text trail =>
    obtain rfl := Option.some.inj ha
    obtain ⟨-, -, hn, hline, hfirst, hlast, -⟩ := h
    refine ⟨hn, hline, hfirst, ?_⟩
    rwa [← List.head?_reverse]

theorem coherent_rendered (h : l.WellFormed) (body : Text) :
    l.shebang.Coherent (l.render ++ body) where
  kinds_launcher := kinds_rendered l ▸ form_of_kinds h .viaLauncher
  kinds_direct := kinds_rendered l ▸ form_of_kinds h .direct
  blanks _ hn hk := node_blanks h body hn hk
  separated := nodes_apart h
  launcherPath hf := by
    rw [texts_call body (by decide) (by decide) (by decide) (by decide)]
    exact (launcher_fields h.call hf).1
  launcherInterpreter hf := by
    rw [texts_call body (by decide) (by decide) (by decide) (by decide)]
    exact (launcher_fields h.call hf).2
  launcherFlags := by
    rw [texts_call body (by decide) (by decide) (by decide) (by decide)]
    exact flag_fields h.call
  directPath hf := by
    rw [texts_call body (by decide) (by decide) (by decide) (by decide)]
    exact (direct_fields h.call hf).1
  directName hf := by
    rw [texts_call body (by decide) (by decide) (by decide) (by decide)]
    exact (direct_fields h.call hf).2
  pathPrefix := (call_directory h.call).2
  arguments := texts_arguments body h
  trimmed := tail_trimmed h.tail
  marker := texts_marker body
  newline := by
    rw [texts_newline body h]
    rcases h.newline with ⟨hn, -⟩ | hn <;> simp [hn]

/-- The fields and the nodes of every recognized line agree. -/
theorem recognize_coherent {text : Text} {s : ShebangLine}
    (h : (recognize text).shebang = some s) : s.Coherent text := by
  obtain ⟨l, body, hl, rfl, rfl⟩ := shebang_eq_some_iff.mp h
  exact coherent_rendered hl body

def namelessLine : ShebangLine where
  form := .direct
  span := ⟨0, 19⟩
  nodes := [⟨.marker, ⟨0, 2⟩⟩, ⟨.whitespace, ⟨2, 3⟩⟩, ⟨.interpreterPath, ⟨3, 11⟩⟩,
    ⟨.arguments, ⟨11, 15⟩⟩, ⟨.whitespace, ⟨15, 17⟩⟩, ⟨.newline, ⟨17, 19⟩⟩]
  pathPrefix := "/opt/sh/"
  launcherFlags := []
  interpreterToken := ""
  interpreter := .unrecognized
  arguments := some "\r -x"

theorem recognize_namelessLine :
    (recognize "#! /opt/sh/\r -x \t\r\n").shebang = some namelessLine ∧
    namelessLine.nodes.map Node.kind ∈ lineKinds directKinds ∧
    namelessLine.texts "#! /opt/sh/\r -x \t\r\n" .interpreterPath = ["/opt/sh/"] ∧
    namelessLine.texts "#! /opt/sh/\r -x \t\r\n" .interpreterName = [] ∧
    namelessLine.texts "#! /opt/sh/\r -x \t\r\n" .arguments = ["\r -x"] := by
  have hs : (recognize "#! /opt/sh/\r -x \t\r\n").shebang = some namelessLine := by
    decide +kernel
  have hc := recognize_coherent hs
  exact ⟨hs, hc.kinds_direct.mpr rfl, hc.directPath rfl, (hc.directName rfl).2, hc.arguments⟩

end Shebang
