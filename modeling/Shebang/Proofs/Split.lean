import Shebang.Proofs.Grammar

/-!
Every text that may stand between a marker and a newline splits into the parts of a line. The parts
of the launcher are those that the regular expression of a launcher line names.
-/

namespace Shebang

open Computability

section Characters

theorem isTokenChar_eq_false {x : Char} :
    isTokenChar x = false ↔ isInlineSpace x = true ∨ x = '\r' ∨ x = '\n' := by
  simp only [isTokenChar, isInlineSpace, Bool.not_eq_false', Bool.or_eq_true, beq_iff_eq, or_assoc]

theorem isInlineSpace_of_token {x : Char} (h : isTokenChar x = true) : isInlineSpace x = false := by
  by_contra hb
  have := isTokenChar_eq_false.mpr (Or.inl (Bool.not_eq_false _ ▸ hb))
  simp [h] at this

theorem solid_env : Solid "env" := by decide

variable {t u v : Text}

theorem solid_append : Solid (u ++ v) ↔ Solid u ∧ Solid v := List.forall_mem_append

theorem solid_newline (h : Solid t) : '\n' ∉ t := fun hm => by
  have := h _ hm
  simp [isTokenChar] at this

theorem blanks_newline (h : Blanks t) : '\n' ∉ t := fun hm => by
  have := h _ hm
  simp [isInlineSpace] at this

theorem gap_stops (h : Gap t) : Text.Stops isTokenChar (t ++ v) := by
  rw [Text.stops_append h.1]
  intro x hx
  exact isTokenChar_eq_false.mpr (Or.inl (h.2 x (List.mem_of_head? hx)))

theorem token_stops (h : Token t) : Text.Stops isInlineSpace (t ++ v) := by
  rw [Text.stops_append h.1]
  intro x hx
  exact isInlineSpace_of_token (h.2 x (List.mem_of_head? hx))

end Characters

section Segments

variable {t d n : Text}

theorem directory_stops (h : Directory d) : Text.Stops (· != '/') d.reverse := by
  intro x hx
  rcases h.2 with rfl | h
  · simp at hx
  · rw [List.head?_reverse, h] at hx
    simp [← Option.some.inj hx]

theorem segments_append (hd : Directory d) (hn : '/' ∉ n) :
    (d ++ n).throughLastSlash = d ∧ (d ++ n).lastSegment = n := by
  have hr : ∀ x ∈ n.reverse, (x != '/') = true := by
    intro x hx
    have hx := List.mem_reverse.mp hx
    simp only [bne_iff_ne, ne_eq]
    rintro rfl
    exact hn hx
  constructor
  · rw [Text.throughLastSlash, List.reverse_append, dropWhile_run hr (directory_stops hd),
      List.reverse_reverse]
  · rw [Text.lastSegment, List.reverse_append, takeWhile_run hr (directory_stops hd),
      List.reverse_reverse]

theorem directory_throughLastSlash (h : Solid t) : Directory t.throughLastSlash := by
  constructor
  · rw [← t.throughLastSlash_append_lastSegment] at h
    exact (solid_append.mp h).1
  · have hs := Text.stops_dropWhile (p := (· != '/')) t.reverse
    rw [Text.throughLastSlash, List.getLast?_reverse]
    cases hd : t.reverse.dropWhile (· != '/') with
    | nil => exact Or.inl rfl
    | cons x rest =>
      rw [hd, Text.stops_cons] at hs
      simp at hs
      simp [hs]

theorem slash_notMem_lastSegment (t : Text) : '/' ∉ t.lastSegment := by
  intro h
  have := List.mem_takeWhile_imp (List.mem_reverse.mp h)
  simp at this

end Segments

namespace Line

section Tails

variable {tail : Tail} {t : Text}

theorem tail_stops (h : tail.WellFormed) : Text.Stops isTokenChar tail.text := by
  have hb : ∀ gap v : Text, Blanks gap → (gap = [] → Text.Stops isTokenChar v) →
      Text.Stops isTokenChar (gap ++ v) := by
    intro gap v hg hv
    by_cases he : gap = []
    · subst he
      exact hv rfl
    · exact gap_stops ⟨he, hg⟩
  cases tail with
  | blanks gap => exact hb gap [] h fun _ => Text.stops_nil
  | arguments gap text trail =>
    obtain ⟨hg, -, hn, -, -, -, hcr⟩ := h
    rw [Tail.text_arguments]
    refine hb gap _ hg fun he => ?_
    rw [Text.stops_append hn]
    intro x hx
    rw [hcr he] at hx
    exact isTokenChar_eq_false.mpr (Or.inr (Or.inl (Option.some.inj hx).symm))

theorem tail_newline (h : tail.WellFormed) : '\n' ∉ tail.text := by
  cases tail with
  | blanks gap => simpa using blanks_newline h
  | arguments gap text trail =>
    obtain ⟨hg, ht, -, hn, -⟩ := h
    simp [blanks_newline hg, blanks_newline ht, hn]

theorem exists_tail (hs : Text.Stops isTokenChar t) (hn : '\n' ∉ t) :
    ∃ tail : Tail, tail.WellFormed ∧ tail.text = t := by
  have hg : Blanks (t.takeWhile isInlineSpace) := fun x hx => List.mem_takeWhile_imp hx
  have ht : t.takeWhile isInlineSpace ++ t.dropWhile isInlineSpace = t :=
    List.takeWhile_append_dropWhile
  have hr := Text.stops_dropWhile (p := isInlineSpace) t
  generalize t.takeWhile isInlineSpace = gap at *
  generalize t.dropWhile isInlineSpace = raw at *
  subst ht
  cases raw with
  | nil => exact ⟨.blanks gap, hg, by simp⟩
  | cons x raw =>
    have hx := Text.stops_cons.mp hr
    have he : Text.trimEnd isInlineSpace (x :: raw) ++
        ((x :: raw).reverse.takeWhile isInlineSpace).reverse = x :: raw := by
      rw [Text.trimEnd, ← List.reverse_append, List.takeWhile_append_dropWhile,
        List.reverse_reverse]
    have hb : Blanks ((x :: raw).reverse.takeWhile isInlineSpace).reverse :=
      fun y hy => List.mem_takeWhile_imp (List.mem_reverse.mp hy)
    have hl : Text.Stops isInlineSpace (Text.trimEnd isInlineSpace (x :: raw)).reverse := by
      rw [Text.trimEnd, List.reverse_reverse]
      exact Text.stops_dropWhile _
    generalize Text.trimEnd isInlineSpace (x :: raw) = text at *
    generalize ((x :: raw).reverse.takeWhile isInlineSpace).reverse = trail at *
    -- The text begins with `x`: were it empty, `x` would be one of the blanks behind it.
    cases text with
    | nil =>
      have := hb x (by simp [show trail = x :: raw from he])
      simp [hx] at this
    | cons y text =>
      obtain ⟨rfl, rfl⟩ := List.cons.inj he
      refine ⟨.arguments gap (y :: text) trail, ⟨hg, hb, by simp, ?_, ?_, hl, ?_⟩, ?_⟩
      · intro hm
        exact hn (List.mem_append_right _ (List.mem_append_left trail hm))
      · exact Text.stops_cons.mpr hx
      · rintro rfl
        have := isTokenChar_eq_false.mp (hs y rfl)
        rcases this with hy | rfl | rfl
        · simp [hx] at hy
        · rfl
        · simp at hn
      · simp

end Tails

section Patterns

theorem mem_one_star {p : Char → Bool} {t : Text} : t ∈ (one p)∗ ↔ ∀ x ∈ t, p x = true := by
  constructor
  · rintro ⟨words, rfl, hw⟩ x hx
    obtain ⟨word, hm, hx⟩ := List.mem_flatten.mp hx
    obtain ⟨y, hy, rfl⟩ := hw word hm
    rwa [List.mem_singleton.mp hx]
  · intro h
    refine ⟨t.map fun x => [x], (List.flatMap_singleton' t).symm, ?_⟩
    intro word hm
    obtain ⟨x, hx, rfl⟩ := List.mem_map.mp hm
    exact ⟨x, h x hx, rfl⟩

theorem mem_gaps {t : Text} : t ∈ gaps ↔ Gap t := by
  rw [gaps, Language.mem_mul]
  constructor
  · rintro ⟨_, ⟨x, hx, rfl⟩, v, hv, rfl⟩
    exact ⟨List.cons_ne_nil x v, List.forall_mem_cons.mpr ⟨hx, mem_one_star.mp hv⟩⟩
  · rintro ⟨hn, hb⟩
    obtain ⟨x, v, rfl⟩ := List.exists_cons_of_ne_nil hn
    obtain ⟨hx, hv⟩ := List.forall_mem_cons.mp hb
    exact ⟨[x], ⟨x, hx, rfl⟩, v, mem_one_star.mpr hv, rfl⟩

theorem mem_operands {t : Text} : t ∈ operands ↔ Operand t := by
  rw [operands, Language.mem_mul]
  constructor
  · rintro ⟨_, ⟨x, hx, rfl⟩, v, hv, rfl⟩
    simp only [Bool.and_eq_true, bne_iff_ne] at hx
    refine ⟨⟨List.cons_ne_nil x v, ?_⟩, by simpa using hx.1⟩
    exact List.forall_mem_cons.mpr ⟨hx.2, mem_one_star.mp hv⟩
  · rintro ⟨⟨hn, hs⟩, hd⟩
    obtain ⟨x, v, rfl⟩ := List.exists_cons_of_ne_nil hn
    obtain ⟨hx, hv⟩ := List.forall_mem_cons.mp hs
    refine ⟨[x], ⟨x, ?_, rfl⟩, v, mem_one_star.mpr hv, rfl⟩
    simp only [Bool.and_eq_true, bne_iff_ne]
    exact ⟨by simpa using hd, hx⟩

theorem mem_flagged {t : Text} : t ∈ flagged ↔ ∃ f g, Flag f ∧ Gap g ∧ f ++ g = t := by
  simp only [flagged, Language.mem_mul]
  constructor
  · rintro ⟨_, ⟨_, rfl, s, hs, rfl⟩, g, hg, rfl⟩
    refine ⟨'-' :: s, g, ⟨⟨List.cons_ne_nil _ s, ?_⟩, rfl⟩, mem_gaps.mp hg, rfl⟩
    exact List.forall_mem_cons.mpr ⟨by decide, mem_one_star.mp hs⟩
  · rintro ⟨f, g, ⟨⟨hn, hs⟩, hd⟩, hg, rfl⟩
    obtain ⟨x, s, rfl⟩ := List.exists_cons_of_ne_nil hn
    obtain rfl : x = '-' := by simpa using hd
    refine ⟨'-' :: s, ⟨['-'], rfl, s, ?_, rfl⟩, g, mem_gaps.mpr hg, rfl⟩
    exact mem_one_star.mpr (List.forall_mem_cons.mp hs).2

@[simp] theorem join_flagPieces_nil : Piece.join (flagPieces []) = [] := rfl

@[simp] theorem join_flagPieces_cons (f : Text × Text) (flags : List (Text × Text)) :
    Piece.join (flagPieces (f :: flags)) = f.1 ++ (f.2 ++ Piece.join (flagPieces flags)) := rfl

theorem mem_flagged_star {t : Text} : t ∈ flagged∗ ↔
    ∃ flags, (∀ f ∈ flags, Flag f.1 ∧ Gap f.2) ∧ Piece.join (flagPieces flags) = t := by
  constructor
  · rintro ⟨words, rfl, hw⟩
    induction words with
    | nil => exact ⟨[], by simp, rfl⟩
    | cons word words ih =>
      obtain ⟨hword, hwords⟩ := List.forall_mem_cons.mp hw
      obtain ⟨f, g, hf, hg, rfl⟩ := mem_flagged.mp hword
      obtain ⟨flags, hflags, he⟩ := ih hwords
      exact ⟨(f, g) :: flags, List.forall_mem_cons.mpr ⟨⟨hf, hg⟩, hflags⟩, by simp [he]⟩
  · rintro ⟨flags, hflags, rfl⟩
    refine ⟨flags.map fun f => f.1 ++ f.2, ?_, ?_⟩
    · induction flags with
      | nil => rfl
      | cons f flags ih => simp [ih (List.forall_mem_cons.mp hflags).2]
    · intro word hm
      obtain ⟨f, hf, rfl⟩ := List.mem_map.mp hm
      exact mem_flagged.mpr ⟨f.1, f.2, (hflags f hf).1, (hflags f hf).2, rfl⟩

theorem mem_launched {t : Text} : t ∈ launched ↔
    ∃ gap flags interpreter, Gap gap ∧ (∀ f ∈ flags, Flag f.1 ∧ Gap f.2) ∧ Operand interpreter ∧
      gap ++ Piece.join (flagPieces flags) ++ interpreter = t := by
  simp only [launched, Language.mem_mul]
  constructor
  · rintro ⟨_, ⟨gap, hg, fs, hfs, rfl⟩, interpreter, hi, rfl⟩
    obtain ⟨flags, hf, rfl⟩ := mem_flagged_star.mp hfs
    exact ⟨gap, flags, interpreter, mem_gaps.mp hg, hf, mem_operands.mp hi, rfl⟩
  · rintro ⟨gap, flags, interpreter, hg, hf, hi, rfl⟩
    exact ⟨_, ⟨gap, mem_gaps.mpr hg, _, mem_flagged_star.mpr ⟨flags, hf, rfl⟩, rfl⟩,
      interpreter, mem_operands.mpr hi, rfl⟩

theorem mem_directory {t : Text} :
    t ∈ 1 + solids * ({['/']} : Words Char) ↔ Directory t := by
  rw [Language.mem_add, Language.mem_one, Language.mem_mul]
  constructor
  · rintro (rfl | ⟨s, hs, _, rfl, rfl⟩)
    · exact ⟨by simp [Solid], Or.inl rfl⟩
    · exact ⟨solid_append.mpr ⟨mem_one_star.mp hs, by decide⟩, Or.inr (by simp)⟩
  · rintro ⟨hs, hd⟩
    refine hd.imp id fun hd => ?_
    have ht := List.dropLast_append_getLast? '/' (Option.mem_def.mpr hd)
    rw [← ht] at hs
    exact ⟨t.dropLast, mem_one_star.mpr (solid_append.mp hs).1, ['/'], rfl, ht⟩

theorem mem_launcherPrefix {t : Text} : t ∈ launcherPrefix ↔
    ∃ lead d operands, Blanks lead ∧ Directory d ∧ operands ∈ launched ∧
      lead ++ (d ++ "env") ++ operands = t := by
  simp only [launcherPrefix, Language.mem_mul]
  constructor
  · rintro ⟨_, ⟨_, ⟨lead, hl, d, hd, rfl⟩, _, rfl, rfl⟩, operands, ho, rfl⟩
    exact ⟨lead, d, operands, mem_one_star.mp hl, mem_directory.mp hd, ho, by simp⟩
  · rintro ⟨lead, d, operands, hl, hd, ho, rfl⟩
    exact ⟨_, ⟨_, ⟨lead, mem_one_star.mpr hl, d, mem_directory.mpr hd, rfl⟩, "env", rfl, rfl⟩,
      operands, ho, by simp⟩

end Patterns

section Lines

theorem operand_append {u v : Text} (hu : Operand u) (hv : Solid v) : Operand (u ++ v) := by
  obtain ⟨⟨hn, hs⟩, hd⟩ := hu
  refine ⟨⟨List.append_ne_nil_of_left_ne_nil hn v, solid_append.mpr ⟨hs, hv⟩⟩, ?_⟩
  rwa [List.head?_append_of_ne_nil u hn]

theorem token_env {d : Text} (h : Directory d) : Token (d ++ "env") :=
  ⟨List.append_ne_nil_of_right_ne_nil d (by decide), solid_append.mpr ⟨h.1, solid_env⟩⟩

theorem launched_split {t : Text} (h : Matches launched t) : ∃ gap flags interpreter v,
    Gap gap ∧ (∀ f ∈ flags, Flag f.1 ∧ Gap f.2) ∧ Operand interpreter ∧
      Text.Stops isTokenChar v ∧ gap ++ Piece.join (flagPieces flags) ++ interpreter ++ v = t := by
  obtain ⟨_, hl, v, rfl⟩ := h
  obtain ⟨gap, flags, interpreter, hg, hf, hi, rfl⟩ := mem_launched.mp hl
  have hs : Solid (v.takeWhile isTokenChar) := fun x hx => List.mem_takeWhile_imp hx
  refine ⟨gap, flags, interpreter ++ v.takeWhile isTokenChar, v.dropWhile isTokenChar,
    hg, hf, operand_append hi hs, Text.stops_dropWhile v, ?_⟩
  simp [List.takeWhile_append_dropWhile]

variable {l : Line} {c newline : Text}

theorem call_path (h : l.WellFormed) : ∃ path v, Token path ∧ Text.Stops isTokenChar v ∧
    Piece.join l.call.pieces ++ l.tail.text = path ++ v := by
  obtain ⟨lead, call, tail, newline⟩ := l
  cases call with
  | viaLauncher d gap flags interpreter =>
    obtain ⟨hd, hg, -, -⟩ := h.call
    exact ⟨d ++ "env", gap ++ (Piece.join (flagPieces flags) ++ interpreter ++ tail.text),
      token_env hd, gap_stops hg, by simp [Call.pieces]⟩
  | direct d name =>
    obtain ⟨hd, hs, -, hn⟩ := h.call
    exact ⟨d ++ name, tail.text, ⟨hn, solid_append.mpr ⟨hd.1, hs⟩⟩, tail_stops h.tail,
      by simp [Call.pieces]⟩

theorem flags_newline {flags : List (Text × Text)} (h : ∀ f ∈ flags, Flag f.1 ∧ Gap f.2) :
    '\n' ∉ Piece.join (flagPieces flags) := by
  induction flags with
  | nil => simp
  | cons f flags ih =>
    obtain ⟨⟨hf, hg⟩, hflags⟩ := List.forall_mem_cons.mp h
    simp [solid_newline hf.1.2, blanks_newline hg.2, ih hflags]

theorem content_newline (h : l.WellFormed) : '\n' ∉ l.content := by
  obtain ⟨lead, call, tail, newline⟩ := l
  have hl := blanks_newline h.lead
  have ht := tail_newline h.tail
  cases call with
  | viaLauncher d gap flags interpreter =>
    obtain ⟨hd, hg, hf, hi⟩ := h.call
    simp [content, Call.pieces, hl, solid_newline hd.1, blanks_newline hg.2, flags_newline hf,
      solid_newline hi.1.2, ht]
  | direct d name =>
    obtain ⟨hd, hs, -, -⟩ := h.call
    simp [content, Call.pieces, hl, solid_newline hd.1, solid_newline hs, ht]

theorem content_begins (h : l.WellFormed) :
    ∃ x, (l.content.dropWhile isInlineSpace).head? = some x ∧ x ≠ '\r' := by
  obtain ⟨path, v, hp, -, he⟩ := call_path h
  obtain ⟨x, rest, rfl⟩ := List.exists_cons_of_ne_nil hp.1
  have hx : isTokenChar x = true := hp.2 x List.mem_cons_self
  refine ⟨x, ?_, ?_⟩
  · rw [content, List.append_assoc, he, dropWhile_run h.lead (token_stops hp)]
    rfl
  · rintro rfl
    simp [isTokenChar] at hx

/-- The pattern of the launcher fits the content of those lines alone that are read as its lines. -/
theorem content_launched (h : l.WellFormed) :
    Matches launcherPrefix l.content ↔ l.call.form = .viaLauncher := by
  obtain ⟨lead, call, tail, newline⟩ := l
  cases call with
  | viaLauncher d gap flags interpreter =>
    obtain ⟨hd, hg, hf, hi⟩ := h.call
    have ho := mem_launched.mpr ⟨gap, flags, interpreter, hg, hf, hi, rfl⟩
    refine ⟨fun _ => rfl, fun _ =>
      ⟨_, mem_launcherPrefix.mpr ⟨lead, d, _, h.lead, hd, ho, rfl⟩, tail.text, ?_⟩⟩
    simp [content, Call.pieces]
  | direct d name =>
    obtain ⟨hd, hs, hslash, hn⟩ := h.call
    refine ⟨fun hm => ?_, fun hf => by simp [Call.form] at hf⟩
    obtain ⟨_, hu, v, he⟩ := hm
    obtain ⟨lead', d', operands, hlead, hd', ho, rfl⟩ := mem_launcherPrefix.mp hu
    have hgap : Text.Stops isTokenChar (operands ++ v) := by
      obtain ⟨gap, flags, interpreter, hg, -, -, rfl⟩ := mem_launched.mp ho
      simpa using gap_stops hg
    have hpath : Token (d ++ name) := ⟨hn, solid_append.mpr ⟨hd.1, hs⟩⟩
    have hsplit : lead ++ ((d ++ name) ++ tail.text) =
        lead' ++ ((d' ++ "env") ++ (operands ++ v)) := by
      simpa [content, Call.pieces] using he.symm
    -- Blanks, path and rest are found in the same places by both readings.
    obtain ⟨-, hrest⟩ := run_unique h.lead (token_stops hpath) hlead
      (token_stops (token_env hd')) hsplit
    obtain ⟨hsame, htail⟩ := run_unique hpath.2 (tail_stops h.tail) (token_env hd').2 hgap hrest
    have hname : name = "env" := by
      rw [← (segments_append hd hslash).2, hsame, (segments_append hd' (by decide)).2]
    subst hname
    exact absurd ⟨operands, ho, v, htail.symm⟩ (h.unlaunched d rfl)

theorem content_split (hn : '\n' ∉ c)
    (hb : ∃ x, (c.dropWhile isInlineSpace).head? = some x ∧ x ≠ '\r') : ∃ lead path after,
    Blanks lead ∧ Token path ∧ Text.Stops isTokenChar after ∧ lead ++ (path ++ after) = c := by
  obtain ⟨x, hx, hcr⟩ := hb
  have hlf : x ≠ '\n' := by
    rintro rfl
    exact hn ((List.dropWhile_sublist _).mem (List.mem_of_head? hx))
  have hblank := Text.stops_dropWhile c x hx
  have htoken : isTokenChar x = true := by
    by_contra hf
    rcases isTokenChar_eq_false.mp (Bool.not_eq_true _ ▸ hf) with h | h | h
    · simp [hblank] at h
    · exact hcr h
    · exact hlf h
  refine ⟨c.takeWhile isInlineSpace, (c.dropWhile isInlineSpace).takeWhile isTokenChar,
    (c.dropWhile isInlineSpace).dropWhile isTokenChar, fun y hy => List.mem_takeWhile_imp hy,
    ⟨?_, fun y hy => List.mem_takeWhile_imp hy⟩, Text.stops_dropWhile _, ?_⟩
  · cases hr : c.dropWhile isInlineSpace with
    | nil => simp [hr] at hx
    | cons y rest =>
      obtain rfl : y = x := by simpa [hr] using hx
      simp [htoken]
  · rw [List.takeWhile_append_dropWhile, List.takeWhile_append_dropWhile]

theorem path_split {path : Text} (h : Solid path) : ∃ d name,
    Directory d ∧ Solid name ∧ '/' ∉ name ∧ d ++ name = path := by
  have he := Text.throughLastSlash_append_lastSegment path
  refine ⟨_, _, directory_throughLastSlash h, ?_, slash_notMem_lastSegment path, he⟩
  rw [← he] at h
  exact (solid_append.mp h).2

/-- Every content that begins with a word is the content of a line. -/
theorem exists_line (hn : '\n' ∉ c)
    (hb : ∃ x, (c.dropWhile isInlineSpace).head? = some x ∧ x ≠ '\r')
    (ht : Terminated c newline) :
    ∃ l : Line, l.WellFormed ∧ l.content = c ∧ l.newline = newline := by
  obtain ⟨lead, path, after, hlead, hpath, hafter, rfl⟩ := content_split hn hb
  obtain ⟨d, name, hd, hs, hname, rfl⟩ := path_split hpath.2
  by_cases hl : name = "env" ∧ Matches launched after
  · obtain ⟨rfl, hl⟩ := hl
    obtain ⟨gap, flags, interpreter, v, hg, hf, hi, hv, rfl⟩ := launched_split hl
    obtain ⟨tail, htail, rfl⟩ := exists_tail hv fun hm => hn (by simp [hm])
    have hcontent : content ⟨lead, .viaLauncher d gap flags interpreter, tail, newline⟩ =
        lead ++ (d ++ "env" ++
          (gap ++ Piece.join (flagPieces flags) ++ interpreter ++ tail.text)) := by
      simp [content, Call.pieces]
    exact ⟨⟨lead, .viaLauncher d gap flags interpreter, tail, newline⟩,
      ⟨hlead, ⟨hd, hg, hf, hi⟩, htail, by simp, hcontent ▸ ht⟩, hcontent, rfl⟩
  · obtain ⟨tail, htail, rfl⟩ := exists_tail hafter fun hm => hn (by simp [hm])
    have hcontent : content ⟨lead, .direct d name, tail, newline⟩ =
        lead ++ (d ++ name ++ tail.text) := by
      simp [content, Call.pieces]
    refine ⟨⟨lead, .direct d name, tail, newline⟩,
      ⟨hlead, ⟨hd, hs, hname, hpath.1⟩, htail, ?_, hcontent ▸ ht⟩, hcontent, rfl⟩
    intro d' hdirect hm
    exact hl ⟨(Call.direct.inj hdirect).2, hm⟩

end Lines

end Line

section Texts

/-- The text between a marker and the first line feed, without a carriage return before it. -/
def Text.firstContent (text : Text) : Text :=
  let line := (text.drop 2).takeWhile (· != '\n')
  if line.getLast? = some '\r' then line.dropLast else line

variable {content newline text : Text}

theorem terminated_line (hn : '\n' ∉ content) (ht : Line.Terminated content newline) :
    ∃ line, '\n' ∉ line ∧ content ++ newline = line ++ ['\n'] ∧
      (if line.getLast? = some '\r' then line.dropLast else line) = content := by
  rcases ht with ⟨rfl, hcr⟩ | rfl
  · exact ⟨content, hn, rfl, if_neg hcr⟩
  · exact ⟨content ++ ['\r'], by simp [hn], by simp, by simp⟩

theorem firstContent_terminated (body : Text) (hn : '\n' ∉ content)
    (ht : Line.Terminated content newline) :
    Text.firstContent ("#!" ++ content ++ newline ++ body) = content := by
  obtain ⟨line, hl, hs, he⟩ := terminated_line hn ht
  have hline : (line ++ '\n' :: body).takeWhile (· != '\n') = line := by
    refine takeWhile_run (fun x hx => ?_) (Text.stops_cons.mpr (by simp))
    simp only [bne_iff_ne, ne_eq]
    rintro rfl
    exact hl hx
  have hdrop : ("#!" ++ content ++ newline ++ body : Text).drop 2 = line ++ '\n' :: body := by
    rw [List.append_assoc "#!".toList, hs]
    simp
  rw [Text.firstContent, hdrop, hline]
  exact he

theorem marked_split (hm : text.take 2 = "#!") (hf : '\n' ∈ text) : ∃ content newline body,
    text = "#!" ++ content ++ newline ++ body ∧ '\n' ∉ content ∧
      Line.Terminated content newline := by
  have ht : text = "#!" ++ text.drop 2 := by rw [← hm, List.take_append_drop]
  have hline : '\n' ∉ (text.drop 2).takeWhile (· != '\n') := by
    intro hl
    have := List.mem_takeWhile_imp hl
    simp at this
  have hstop := Text.stops_dropWhile (p := (· != '\n')) (text.drop 2)
  have hs : (text.drop 2).takeWhile (· != '\n') ++ (text.drop 2).dropWhile (· != '\n') =
    text.drop 2 := List.takeWhile_append_dropWhile
  generalize (text.drop 2).takeWhile (· != '\n') = line at *
  generalize (text.drop 2).dropWhile (· != '\n') = after at *
  rw [← hs] at ht
  subst ht
  cases after with
  | nil => simp [hline] at hf
  | cons x body =>
    obtain rfl : x = '\n' := by simpa using Text.stops_cons.mp hstop
    by_cases hcr : line.getLast? = some '\r'
    · refine ⟨line.dropLast, "\r\n", body, ?_, fun h => hline (List.mem_of_mem_dropLast h),
        Or.inr rfl⟩
      conv_lhs => rw [← List.dropLast_append_getLast? '\r' (Option.mem_def.mpr hcr)]
      simp
    · exact ⟨line, "\n", body, by simp, hline, Or.inl ⟨rfl, hcr⟩⟩

end Texts

end Shebang
