import Shebang.Proofs.Split
import Shebang.Recognize

/-!
The cursor reads the parts of a line. Each reader finds exactly the part that the grammar gives to
it, so a line that is well formed is recognized with its own fields and nodes.
-/

namespace Shebang

open Line

namespace Cursor

variable {c d : Cursor} {launcher : Text}

@[simp] theorem advance_zero (c : Cursor) : c.advance 0 = c := rfl

theorem rest_remaining {u : Text} (h : c.remaining = u) (hs : c.stop ≤ c.text.length) :
    c.rest = c.takeSpan u.length := by
  have hl : c.left = u.length := by
    rw [← h, left, remaining, List.length_drop, List.length_take, Nat.min_eq_left hs]
  rw [rest, hl]

section Flags

variable {flags next : Flags Cursor} {ending : Except LauncherFailure (Flags Cursor × Text)}

theorem flagPass_eq_ok {r : Flags Cursor × Text}
    (h : steps.flagPass launcher flags = .inr (.ok r)) :
    ∃ word c, flags.place.token = some (word, c) ∧
      (word.text flags.place.text).head? ≠ some '-' ∧
      r = (⟨flags.nodes ++ [⟨.launcherInterpreter, word⟩], flags.texts, c⟩,
        word.text flags.place.text) := by
  rcases flagPass_cases launcher flags with
    ⟨-, hpass⟩ | ⟨word, c, hw, ⟨ht, hpass⟩ | ⟨-, ⟨-, hpass⟩ | ⟨gap, d, -, hpass⟩⟩⟩
  · cases h.symm.trans hpass
  · cases h.symm.trans hpass
    exact ⟨word, c, hw, ht, rfl⟩
  · cases h.symm.trans hpass
  · cases h.symm.trans hpass

theorem readFlags_over (h : steps.flagPass launcher flags = .inr ending) :
    readFlags launcher flags = ending := by
  rw [readFlags]
  split
  · next h' => cases h.symm.trans h'
  · next h' =>
    cases h.symm.trans h'
    rfl

theorem readFlags_on (h : steps.flagPass launcher flags = .inl next) :
    readFlags launcher flags = readFlags launcher next := by
  rw [readFlags]
  split
  · next h' =>
    cases h.symm.trans h'
    rfl
  · next h' => cases h.symm.trans h'

theorem flags_stops {flags : List (Text × Text)} {interpreter v : Text}
    (hf : ∀ f ∈ flags, Flag f.1 ∧ Gap f.2) (hi : Operand interpreter) :
    Text.Stops isInlineSpace (Piece.join (flagPieces flags) ++ (interpreter ++ v)) := by
  cases flags with
  | nil => simpa using token_stops hi.1
  | cons f flags =>
    obtain ⟨⟨hf, -⟩, -⟩ := List.forall_mem_cons.mp hf
    simpa using token_stops hf.1

/-- The loop over the flags reads every flag with its blanks and stops behind the interpreter. -/
theorem readFlags_rendered {flags : List (Text × Text)} {interpreter v : Text}
    (hf : ∀ f ∈ flags, Flag f.1 ∧ Gap f.2) (hi : Operand interpreter)
    (hv : Text.Stops isTokenChar v)
    (h : c.remaining = Piece.join (flagPieces flags) ++ (interpreter ++ v)) (nodes : List Node)
    (texts : List Text) :
    readFlags launcher ⟨nodes, texts, c⟩ = .ok
      (⟨nodes ++ Piece.layOut c.pos (flagPieces flags ++ [⟨.launcherInterpreter, interpreter⟩]),
        texts ++ flags.map Prod.fst,
        c.advance (Piece.join (flagPieces flags) ++ interpreter).length⟩, interpreter) := by
  induction flags generalizing c nodes texts with
  | nil =>
    rw [join_flagPieces_nil, List.nil_append] at h
    have ht : Span.text ⟨c.pos, c.pos + interpreter.length⟩ c.text = interpreter :=
      text_of_remaining h
    have hpass : steps.flagPass launcher ⟨nodes, texts, c⟩ = _ :=
      flagPass_operand (takeRun_some h hi.1.1 hi.1.2 hv) (by rw [ht]; exact hi.2)
    rw [readFlags_over hpass, ht]
    simp [flagPieces, Piece.layOut_cons hi.1.1]
  | cons f flags ih =>
    obtain ⟨⟨hflag, hgap⟩, hflags⟩ := List.forall_mem_cons.mp hf
    rw [join_flagPieces_cons, List.append_assoc, List.append_assoc] at h
    have hrest := remaining_advance h
    have hafter := remaining_advance hrest
    have ht := text_of_remaining h
    have hpass : steps.flagPass launcher ⟨nodes, texts, c⟩ = _ :=
      flagPass_flag (takeRun_some h hflag.1.1 hflag.1.2 (gap_stops hgap))
        (by rw [ht]; exact hflag.2) (takeRun_some hrest hgap.1 hgap.2 (flags_stops hflags hi))
    rw [readFlags_on hpass, ih hflags hafter, ht]
    simp [flagPieces_cons, Piece.layOut_cons hflag.1.1, Piece.layOut_cons hgap.1,
      advance_advance, Nat.add_assoc]

/-- When the loop finds an interpreter, flags and an interpreter are what remained. -/
theorem readFlags_launched {flags : Flags Cursor} {r : Flags Cursor × Text}
    (h : readFlags launcher flags = .ok r) : ∃ found interpreter v,
      (∀ f ∈ found, Flag f.1 ∧ Gap f.2) ∧ Operand interpreter ∧
        flags.place.remaining = Piece.join (flagPieces found) ++ (interpreter ++ v) := by
  fun_induction readFlags launcher flags with
  | case1 flags next hpass ih =>
    obtain ⟨word, c, gap, d, hw, ht, hg, rfl⟩ := flagPass_eq_inl hpass
    obtain ⟨f, u, hu, hfn, hfs, -, rfl, rfl⟩ := takeRun_split hw
    obtain ⟨g, v, hv, hgn, hgs, -, rfl, rfl⟩ := takeRun_split hg
    rw [remaining_advance hu] at hv
    obtain ⟨rest, operand, w, hrest, hi, hw⟩ := ih h
    rw [remaining_advance (hv ▸ remaining_advance hu)] at hw
    rw [text_of_remaining hu] at ht
    refine ⟨(f, g) :: rest, operand, w, ?_, hi, ?_⟩
    · exact List.forall_mem_cons.mpr ⟨⟨⟨⟨hfn, hfs⟩, ht⟩, hgn, hgs⟩, hrest⟩
    · simp [hu, hv, hw]
  | case2 flags ending hpass =>
    subst h
    obtain ⟨word, c, hw, ht, rfl⟩ := flagPass_eq_ok hpass
    obtain ⟨operand, v, hv, hn, hs, -, rfl, rfl⟩ := takeRun_split hw
    rw [text_of_remaining hv] at ht
    exact ⟨[], operand, v, by simp, ⟨⟨hn, hs⟩, ht⟩, by simp [hv]⟩

end Flags

/-- What either form finds when the call stands at the cursor. -/
def found (c : Cursor) (call : Call) : Invocation Cursor where
  form := call.form
  nodes := Piece.layOut c.pos call.pieces
  pathPrefix := call.directory
  launcherFlags := call.flags
  interpreterToken := call.interpreter
  place := c.advance (Piece.join call.pieces).length

theorem viaLauncher_rendered {directory gap interpreter v : Text} {flags : List (Text × Text)}
    (hc : (Call.viaLauncher directory gap flags interpreter).WellFormed)
    (hv : Text.Stops isTokenChar v)
    (h : c.remaining = Piece.join (Call.viaLauncher directory gap flags interpreter).pieces ++ v) :
    scanner.viaLauncher c = .ok (c.found (.viaLauncher directory gap flags interpreter)) := by
  obtain ⟨hd, hg, hf, hi⟩ := hc
  have hp := token_env hd
  have hs := segments_append hd (by decide : '/' ∉ ("env" : Text))
  have h : c.remaining = directory ++ "env" ++
      (gap ++ (Piece.join (flagPieces flags) ++ (interpreter ++ v))) := by
    simpa [Call.pieces] using h
  have hrest := remaining_advance h
  have hafter := remaining_advance hrest
  have htoken : c.token = _ := takeRun_some h hp.1 hp.2 (gap_stops hg)
  have hgap : (c.advance (directory ++ "env").length).whitespace = _ :=
    takeRun_some hrest hg.1 hg.2 (flags_stops hf hi)
  simp only [Scanner.viaLauncher, scanner_steps, scanner_readFlags, steps_token, steps_text,
    steps_whitespace, plain_bind, plain_pure, htoken, text_of_remaining h, hs.1, hs.2, if_true,
    hgap, readFlags_rendered hf hi hv hafter]
  simp only [found, Call.pieces, Call.form, Call.directory, Call.flags, Call.interpreter]
  generalize directory ++ ("env" : Text) = path at hp ⊢
  simp [Piece.layOut_cons hp.1, Piece.layOut_cons hg.1, advance_advance, Nat.add_assoc]

/-- What stands at a cursor where the launcher form is found, and what it finds there. -/
theorem viaLauncher_eq_ok {i : Invocation Cursor} (h : scanner.viaLauncher c = .ok i) :
    ∃ path d gap e flags interpreter, c.token = some (path, d) ∧
      (path.text c.text).lastSegment = "env" ∧ d.whitespace = some (gap, e) ∧
      readFlags (path.text c.text) ⟨[⟨.launcherPath, path⟩, ⟨.whitespace, gap⟩], [], e⟩ =
        .ok (flags, interpreter) ∧
      i = {
        form := .viaLauncher
        nodes := flags.nodes
        pathPrefix := (path.text c.text).throughLastSlash
        launcherFlags := flags.texts
        interpreterToken := interpreter
        place := flags.place } := by
  simp only [Scanner.viaLauncher, scanner_steps, scanner_readFlags, steps_token, steps_text,
    steps_whitespace, plain_bind, plain_pure] at h
  cases hw : c.token with
  | none =>
    rw [hw] at h
    cases h
  | some found =>
    obtain ⟨path, d⟩ := found
    by_cases henv : (path.text c.text).lastSegment = "env"
    · cases hg : d.whitespace with
      | none =>
        simp only [hw, if_pos henv, hg] at h
        cases h
      | some found =>
        obtain ⟨gap, e⟩ := found
        cases hr : readFlags (path.text c.text)
            ⟨[⟨.launcherPath, path⟩, ⟨.whitespace, gap⟩], [], e⟩ with
        | error failure =>
          simp only [hw, if_pos henv, hg, hr] at h
          cases h
        | ok found =>
          simp only [hw, if_pos henv, hg, hr] at h
          cases h
          exact ⟨path, d, gap, e, _, _, rfl, henv, hg, hr, rfl⟩
    · simp only [hw, henv, if_false] at h
      cases h

theorem viaLauncher_launched {i : Invocation Cursor} {path v : Text} (hp : Token path)
    (hv : Text.Stops isTokenChar v) (h : c.remaining = path ++ v)
    (hi : scanner.viaLauncher c = .ok i) : path.lastSegment = "env" ∧ Matches launched v := by
  obtain ⟨word, d, gap, e, flags, interpreter, hw, henv, hg, hr, -⟩ := viaLauncher_eq_ok hi
  cases hw.symm.trans (takeRun_some h hp.1 hp.2 hv)
  have hrest := remaining_advance h
  rw [text_of_remaining h] at henv
  refine ⟨henv, ?_⟩
  obtain ⟨g, u, hu, hgn, hgs, -, rfl, rfl⟩ := takeRun_split hg
  rw [hrest] at hu
  obtain ⟨found, operand, w, hf, ho, hw⟩ := readFlags_launched hr
  rw [remaining_advance (hrest.trans hu)] at hw
  refine ⟨_, mem_launched.mpr ⟨g, found, operand, ⟨hgn, hgs⟩, hf, ho, rfl⟩, w, ?_⟩
  simp [hu, hw]

section Offsets

variable {kind : NodeKind} {a b : Nat} {start stop : Int} {present : Bool}

theorem steps_node (ha : start = a) (hb : stop = b) :
    steps.node kind start stop = (⟨kind, ⟨a, b⟩⟩ : Node) := by
  subst ha hb
  rfl

/-- A node is made exactly if its span has a character. -/
theorem steps_nodeIf (ha : start = a) (hb : stop = b) (hab : a ≤ b)
    (hp : present = true ↔ a < b) :
    steps.nodeIf present kind start stop = Node.unlessEmpty kind ⟨a, b⟩ := by
  rw [Steps.nodeIf, Node.unlessEmpty, Span.isEmpty]
  by_cases hlt : a < b
  · simp [hp.mpr hlt, steps_node ha hb, Nat.ne_of_lt hlt]
  · have heq : a = b := Nat.le_antisymm hab (Nat.le_of_not_lt hlt)
    simp [Bool.eq_false_iff.mpr (mt hp.mp hlt), heq]

end Offsets

theorem throughLastSlash_length_le (u : Text) : u.throughLastSlash.length ≤ u.length := by
  have hlen := congrArg List.length u.throughLastSlash_append_lastSegment
  rw [List.length_append] at hlen
  omega

/-- The direct form takes the next word, whatever it is. -/
theorem direct_word {u : Text} (hw : c.token = some (⟨c.pos, c.pos + u.length⟩, d))
    (ht : Span.text ⟨c.pos, c.pos + u.length⟩ c.text = u) :
    steps.direct c = (some {
      form := .direct
      nodes := Node.unlessEmpty .interpreterPath ⟨c.pos, c.pos + u.throughLastSlash.length⟩ ++
        Node.unlessEmpty .interpreterName
          ⟨c.pos + u.throughLastSlash.length, c.pos + u.length⟩
      pathPrefix := u.throughLastSlash
      launcherFlags := []
      interpreterToken := u.lastSegment
      place := d } : Option (Invocation Cursor)) := by
  have hcut := throughLastSlash_length_le u
  have hmiddle : (c.pos : Int) + u.throughLastSlash.length =
      (c.pos + u.throughLastSlash.length : Nat) := (Int.natCast_add _ _).symm
  simp only [Steps.direct, steps_token, steps_text, plain_bind, plain_pure, hw, ht]
  rw [steps_nodeIf rfl hmiddle (Nat.le_add_right _ _) (by simp),
    steps_nodeIf hmiddle rfl (Nat.add_le_add_left hcut _) (by simp)]

theorem direct_rendered {directory name v : Text} (hc : (Call.direct directory name).WellFormed)
    (hv : Text.Stops isTokenChar v)
    (h : c.remaining = Piece.join (Call.direct directory name).pieces ++ v) :
    steps.direct c = some (c.found (.direct directory name)) := by
  obtain ⟨hd, hs, hslash, hn⟩ := hc
  have hseg := segments_append hd hslash
  have h : c.remaining = directory ++ name ++ v := by
    simpa [Call.pieces] using h
  have htoken : c.token = _ := takeRun_some h hn (solid_append.mpr ⟨hd.1, hs⟩) hv
  rw [direct_word htoken (text_of_remaining h), hseg.1, hseg.2]
  simp [found, Call.form, Call.directory, Call.flags, Call.interpreter, Call.pieces, Piece.layOut,
    Nat.add_assoc]

theorem skipBlanks_rendered {gap v : Text} (hg : Blanks gap) (hv : Text.Stops isInlineSpace v)
    (h : c.remaining = gap ++ v) :
    steps.skipBlanks c = (Piece.layOut c.pos [⟨.whitespace, gap⟩], c.advance gap.length) := by
  have hw : c.whitespace = _ := takeRun_run h hg hv
  simp only [Steps.skipBlanks, steps_whitespace, plain_bind, plain_pure, hw, Piece.layOut_single]
  by_cases hn : gap = []
  · subst gap
    simp [takeSpan, Node.unlessEmpty, Span.isEmpty]
  · rw [takeSpan_of_ne_nil hn]
    simp [Node.unlessEmpty, Span.isEmpty, hn]

theorem readTail_arguments {blanks : List Node} {e : Cursor} {n : Nat} {arguments : Text}
    (hskip : steps.skipBlanks c = (blanks, d)) (hrest : d.rest = some (⟨d.pos, d.pos + n⟩, e))
    (hraw : (Span.text ⟨d.pos, d.pos + n⟩ d.text).trimEnd isInlineSpace = arguments)
    (hle : arguments.length ≤ n) : steps.readTail c =
      (blanks ++ ⟨.arguments, ⟨d.pos, d.pos + arguments.length⟩⟩ ::
        Node.unlessEmpty .whitespace ⟨d.pos + arguments.length, d.pos + n⟩, some arguments) := by
  have hmiddle : (d.pos : Int) + arguments.length = (d.pos + arguments.length : Nat) :=
    (Int.natCast_add _ _).symm
  simp only [Steps.readTail, plain_bind, plain_pure, hskip, steps_rest, hrest, steps_text, hraw]
  rw [steps_node rfl hmiddle, steps_nodeIf rfl rfl (Nat.add_le_add_left hle _) (by simp)]

theorem readTail_rendered {tail : Tail} (ht : tail.WellFormed) (h : c.remaining = tail.text)
    (hs : c.stop ≤ c.text.length) :
    steps.readTail c = (Piece.layOut c.pos tail.pieces, tail.arguments?) := by
  cases tail with
  | blanks gap =>
    rw [Tail.text_blanks, ← List.append_nil gap] at h
    have hrest := rest_remaining (remaining_advance h) hs
    simp [Steps.readTail, skipBlanks_rendered ht Text.stops_nil h, hrest, takeSpan, Tail.pieces,
      Tail.arguments?]
  | arguments gap text trail =>
    obtain ⟨hg, hb, hn, -, hfirst, hlast, -⟩ := ht
    rw [Tail.text_arguments] at h
    have hafter := remaining_advance h
    have hskip := skipBlanks_rendered hg ((Text.stops_append hn).mpr hfirst) h
    have hrest := rest_remaining hafter hs
    rw [takeSpan_of_ne_nil (List.append_ne_nil_of_left_ne_nil hn trail)] at hrest
    have hraw := text_of_remaining (hafter.trans (List.append_nil _).symm)
    rw [readTail_arguments hskip hrest (hraw ▸ trimEnd_run hlast hb) (by simp),
      Tail.pieces_arguments, Piece.layOut_append, List.singleton_append, Piece.layOut_cons hn,
      Piece.layOut_single, Piece.layOut_single]
    simp [Tail.arguments?, Nat.add_assoc]

theorem steps_contentEnd (text : Text) (newline : Nat) : steps.contentEnd text newline =
    ((if 2 < newline ∧ text[newline - 1]? = some '\r' then newline - 1 else newline : Nat) :
      Int) := by
  have hindex : ((newline : Int) - 1).toNat = newline - 1 := by omega
  have hstands : steps.stands text (newline - 1) '\r' =
      decide (text[newline - 1]? = some '\r') := by
    rw [← hindex]
    rfl
  by_cases hlong : 2 < newline
  · have hlong' : (2 : Int) < newline := by omega
    by_cases hcr : text[newline - 1]? = some '\r'
    · have hless : ((newline - 1 : Nat) : Int) = newline - 1 := by omega
      simp only [Steps.contentEnd, if_pos hlong', plain_bind, plain_pure, hstands, hcr, hlong,
        decide_true, if_true, and_self]
      exact hless.symm
    · simp [Steps.contentEnd, hlong', hstands, hcr]
  · have hshort : ¬ (2 : Int) < newline := by omega
    simp [Steps.contentEnd, hshort, hlong]

/-- A carriage return at the end of a line is no part of its content. -/
theorem contentEnd_line (line rest : Text) :
    steps.contentEnd ("#!" ++ line ++ rest) ((2 + line.length : Nat)) =
      ((2 + (if line.getLast? = some '\r' then line.dropLast else line).length : Nat) : Int) := by
  rw [steps_contentEnd]
  rcases List.eq_nil_or_concat line with rfl | ⟨front, x, rfl⟩
  · simp
  · have hs : ("#!" ++ (front ++ [x]) ++ rest : Text) = ("#!" ++ front) ++ x :: rest := by simp
    have hl : 2 + (front ++ [x]).length - 1 = ("#!" ++ front : Text).length := by simp; omega
    have hx : ("#!" ++ (front ++ [x]) ++ rest : Text)[2 + (front ++ [x]).length - 1]? = some x := by
      rw [hs, hl, List.getElem?_append_right (Nat.le_refl _), Nat.sub_self]
      rfl
    rw [List.concat_eq_append, hx]
    by_cases hcr : x = '\r' <;> simp [hcr]

section Line

variable {l : Line} {text content newline : Text} {n : Nat}

theorem findIdx_none {u : Text} (h : '\n' ∉ u) : u.findIdx? (· == '\n') = none := by
  simp only [List.findIdx?_eq_none_iff, beq_eq_false_iff_ne]
  rintro x hx rfl
  exact h hx

theorem findIdx_newline {u v : Text} (h : '\n' ∉ u) :
    (u ++ '\n' :: v).findIdx? (· == '\n') = some u.length := by
  simp [List.findIdx?_append, findIdx_none h, List.findIdx?_cons]

/-- The line feed of a line, and what stands in front of it. -/
theorem findIdx_terminated (body : Text) (hn : '\n' ∉ content) (ht : Terminated content newline) :
    ("#!" ++ content ++ newline ++ body : Text).findIdx? (· == '\n') =
      some (1 + content.length + newline.length) ∧
    steps.contentEnd ("#!" ++ content ++ newline ++ body)
      (1 + content.length + newline.length : Nat) = ((2 + content.length : Nat) : Int) := by
  obtain ⟨line, hl, hs, he⟩ := terminated_line hn ht
  have hsplit : ("#!" ++ content ++ newline ++ body : Text) = "#!" ++ line ++ '\n' :: body := by
    rw [List.append_assoc "#!".toList, hs]
    simp
  have hlen : 1 + content.length + newline.length = 2 + line.length := by
    have := congrArg List.length hs
    simp only [List.length_append, List.length_singleton] at this
    omega
  have hfirst : '\n' ∉ ("#!" ++ line : Text) := by simp [hl]
  have hpos : ("#!" ++ line : Text).length = 2 + line.length := by simp; omega
  rw [hsplit, hlen, findIdx_newline hfirst, contentEnd_line, he, hpos]
  exact ⟨rfl, rfl⟩

theorem ofText_terminated (body : Text) (hn : '\n' ∉ content) (ht : Terminated content newline) :
    Reading.ofText ("#!" ++ content ++ newline ++ body) =
      scanner.readLine ("#!" ++ content ++ newline ++ body)
        (1 + content.length + newline.length : Nat) := by
  have hmark : ("#!" ++ content ++ newline ++ body : Text).take 2 = "#!" := rfl
  rw [Reading.ofText, Scanner.readText, if_pos hmark, (findIdx_terminated body hn ht).1]
  rfl

/-- The line is read on behind its marker and the blanks that follow it. -/
theorem readLine_opened {stop newline : Nat} {lead : List Node}
    (he : steps.contentEnd text newline = (stop : Int))
    (hlead : steps.skipBlanks ⟨text, 2, stop⟩ = (lead, c)) : scanner.readLine text newline =
      scanner.readContent stop newline (⟨.marker, ⟨0, 2⟩⟩ :: lead) c := by
  have hplace : steps.skipBlanks (steps.enter text stop newline) = (lead, c) := hlead
  have hopening : steps.opening text newline =
      ((stop : Int), (⟨.marker, ⟨0, 2⟩⟩ : Node) :: lead, c) := by
    simp only [Steps.opening, plain_bind, plain_pure, he, hplace]
    rfl
  simp only [Scanner.readLine, scanner_steps, plain_bind, hopening]

theorem remaining_content (content rest : Text) :
    Cursor.remaining ⟨"#!" ++ content ++ rest, 2, 2 + content.length⟩ = content := by
  have hl : 2 + content.length = ("#!" ++ content : Text).length := by simp; omega
  rw [Cursor.remaining, hl, List.take_left]
  rfl

theorem steps_assemble {stop newline : Nat} {front tail : List Node} {arguments : Option Text}
    {i : Invocation Cursor} (h : steps.readTail i.place = (tail, arguments)) :
    steps.assemble stop newline front i = ({
      form := i.form
      span := ⟨0, newline + 1⟩
      nodes := front ++ i.nodes ++ tail ++ [⟨.newline, ⟨stop, newline + 1⟩⟩]
      pathPrefix := i.pathPrefix
      launcherFlags := i.launcherFlags
      interpreterToken := i.interpreterToken
      interpreter := .ofToken i.interpreterToken
      arguments } : ShebangLine) := by
  simp only [Steps.assemble, plain_bind, plain_pure, h]
  rfl

/-- Behind the call a line is put together from the readings of its parts. -/
theorem assemble_rendered (h : l.WellFormed) (hs : 2 + l.content.length ≤ text.length)
    (hc : Cursor.remaining ⟨text, 2 + l.lead.length, 2 + l.content.length⟩ =
      Piece.join l.call.pieces ++ l.tail.text) :
    steps.assemble (2 + l.content.length : Nat) (1 + l.content.length + l.newline.length : Nat)
      (⟨.marker, ⟨0, 2⟩⟩ :: Piece.layOut 2 [⟨.whitespace, l.lead⟩])
      (Cursor.found ⟨text, 2 + l.lead.length, 2 + l.content.length⟩ l.call) = l.shebang := by
  have htail : steps.readTail (Cursor.found ⟨text, 2 + l.lead.length, 2 + l.content.length⟩
      l.call).place = _ := readTail_rendered h.tail (Cursor.remaining_advance hc) hs
  have hcontent : l.content.length =
      l.lead.length + (Piece.join l.call.pieces).length + (Piece.join l.tail.pieces).length := by
    simp [content, Tail.text]
    omega
  have hrender : l.render.length = 1 + l.content.length + l.newline.length + 1 := by
    simp [render_eq]
    omega
  have hnodes : Piece.layOut 0 l.pieces =
      ⟨.marker, ⟨0, 2⟩⟩ :: Piece.layOut 2 ([⟨.whitespace, l.lead⟩] ++ l.call.pieces ++
        l.tail.pieces ++ [⟨.newline, l.newline⟩]) := rfl
  simp only [Piece.layOut_append, Piece.layOut_cons (newline_ne_nil h), Piece.layOut_nil] at hnodes
  rw [steps_assemble htail]
  change @Eq ShebangLine _ _
  simp only [Line.shebang, hnodes, hrender]
  simp only [found, hcontent]
  simp [Nat.add_assoc]
  omega

theorem readContent_rendered (h : l.WellFormed) (hs : 2 + l.content.length ≤ text.length)
    (hc : Cursor.remaining ⟨text, 2 + l.lead.length, 2 + l.content.length⟩ =
      Piece.join l.call.pieces ++ l.tail.text) :
    Reading.shebang? (scanner.readContent (2 + l.content.length : Nat)
      (1 + l.content.length + l.newline.length : Nat)
      (⟨.marker, ⟨0, 2⟩⟩ :: Piece.layOut 2 [⟨.whitespace, l.lead⟩])
      ⟨text, 2 + l.lead.length, 2 + l.content.length⟩) = some l.shebang := by
  have hline := assemble_rendered h hs hc
  have hwf := h.call
  simp only [Scanner.readContent, scanner_steps, plain_bind, plain_pure]
  cases hl : l.call with
  | viaLauncher directory gap flags interpreter =>
    rw [hl] at hc hwf hline
    rw [viaLauncher_rendered hwf (tail_stops h.tail) hc]
    exact congrArg some hline
  | direct directory name =>
    rw [hl] at hc hwf hline
    cases hfound : scanner.viaLauncher ⟨text, 2 + l.lead.length, 2 + l.content.length⟩ with
    | ok i =>
      obtain ⟨hd, hsolid, hslash, hn⟩ := hwf
      have hp : Token (directory ++ name) := ⟨hn, solid_append.mpr ⟨hd.1, hsolid⟩⟩
      have hrest : Piece.join (Call.direct directory name).pieces = directory ++ name := by
        simp [Call.pieces]
      rw [hrest] at hc
      obtain ⟨henv, hm⟩ := viaLauncher_launched hp (tail_stops h.tail) hc hfound
      rw [(segments_append hd hslash).2] at henv
      subst henv
      exact absurd hm (h.unlaunched directory hl)
    | error failure =>
      simp only [direct_rendered hwf (tail_stops h.tail) hc]
      exact congrArg some hline

/-- Without a word at the cursor there is neither form. -/
theorem readContent_wordless (hw : c.token = none) (stop newline : Int) (front : List Node) :
    Reading.shebang? (scanner.readContent stop newline front c) = none := by
  simp [Scanner.readContent, Scanner.viaLauncher, Steps.direct, hw, Reading.shebang?]

end Line

end Cursor

namespace Reading

open Cursor

/-- A well-formed line is recognized as itself, whatever follows it. -/
theorem ofText_rendered {l : Line} (h : l.WellFormed) (body : Text) :
    (ofText (l.render ++ body)).shebang? = some l.shebang := by
  have hc := remaining_content l.content (l.newline ++ body)
  have hsplit : l.content = l.lead ++ (Piece.join l.call.pieces ++ l.tail.text) := by
    rw [content, List.append_assoc]
  obtain ⟨path, v, hpath, hv, hcall⟩ := call_path h
  have hblank : Text.Stops isInlineSpace (Piece.join l.call.pieces ++ l.tail.text) := by
    rw [hcall]
    exact token_stops hpath
  have hlead := skipBlanks_rendered h.lead hblank (hc.trans hsplit)
  have hend := (findIdx_terminated body (content_newline h) h.newline).2
  rw [render_eq, ofText_terminated body (content_newline h) h.newline]
  rw [List.append_assoc] at hend ⊢
  rw [readLine_opened hend hlead]
  exact readContent_rendered h (by simp; omega) (remaining_advance (hc.trans hsplit))

/-- Without a word behind its blanks a content has neither form. -/
theorem ofText_blank {content newline : Text} (body : Text) (hn : '\n' ∉ content)
    (ht : Terminated content newline)
    (hb : Text.Stops isTokenChar (content.dropWhile isInlineSpace)) :
    (ofText ("#!" ++ content ++ newline ++ body)).shebang? = none := by
  have hc := remaining_content content (newline ++ body)
  have hsplit := hc.trans (List.takeWhile_append_dropWhile (p := isInlineSpace)).symm
  have hlead := skipBlanks_rendered (fun x hx => List.mem_takeWhile_imp hx)
    (Text.stops_dropWhile content) hsplit
  have hend := (findIdx_terminated body hn ht).2
  rw [← remaining_advance hsplit] at hb
  rw [ofText_terminated body hn ht]
  rw [List.append_assoc] at hend ⊢
  rw [readLine_opened hend hlead]
  exact readContent_wordless (takeRun_none hb) _ _ _

end Reading

theorem recognize_eq {shebang : Option ShebangLine} {text : Text}
    (h : (Reading.ofText text).shebang? = shebang) : recognize text =
      ⟨text, shebang, ⟨bodyStart shebang, text.length⟩, tagOf shebang⟩ := by
  subst h
  rfl

/-- A text begins with a shebang line when it has a marker and a line feed, and behind the blanks
that follow the marker another character than a carriage return. -/
structure Begins (text : Text) : Prop where
  marker : text.take 2 = "#!"
  terminated : '\n' ∈ text
  word : ∃ x, (text.firstContent.dropWhile isInlineSpace).head? = some x ∧ x ≠ '\r'

variable {text : Text}

theorem begins_rendered {l : Line} (h : l.WellFormed) (body : Text) :
    Begins (l.render ++ body) := by
  have hc := firstContent_terminated body (content_newline h) h.newline
  rw [render_eq]
  refine ⟨rfl, ?_, ?_⟩
  · rcases h.newline with ⟨hn, -⟩ | hn <;> simp [hn]
  · rw [hc]
    exact content_begins h

theorem exists_line_of_begins (h : Begins text) : ∃ (l : Line) (body : Text),
    l.WellFormed ∧ l.content = text.firstContent ∧ text = l.render ++ body := by
  obtain ⟨content, newline, body, hs, hn, ht⟩ := marked_split h.marker h.terminated
  have hc : text.firstContent = content := by rw [hs, firstContent_terminated body hn ht]
  obtain ⟨l, hl, rfl, rfl⟩ := exists_line hn (hc ▸ h.word) ht
  exact ⟨l, body, hl, hc.symm, by rw [render_eq, hs]⟩

theorem shebang_none (h : ¬ Begins text) : (recognize text).shebang = none := by
  change (Reading.ofText text).shebang? = none
  by_cases hm : text.take 2 = "#!"
  · by_cases hf : '\n' ∈ text
    · obtain ⟨content, newline, body, rfl, hn, ht⟩ := marked_split hm hf
      refine Reading.ofText_blank body hn ht fun x hx => ?_
      by_contra hx'
      refine h ⟨hm, hf, x, by rwa [firstContent_terminated body hn ht], ?_⟩
      rintro rfl
      exact hx' rfl
    · rw [Reading.ofText, Scanner.readText, if_pos hm, Cursor.findIdx_none hf]
      rfl
  · rw [Reading.ofText, Scanner.readText, if_neg hm]
    rfl

theorem recognize_rendered {l : Line} (h : l.WellFormed) (body : Text) :
    recognize (l.render ++ body) = ⟨l.render ++ body, some l.shebang,
      ⟨l.render.length, (l.render ++ body).length⟩, l.shebang.interpreter.tag⟩ := by
  rw [recognize_eq (Reading.ofText_rendered h body)]
  rfl

theorem recognize_unbegun (h : ¬ Begins text) :
    recognize text = ⟨text, none, ⟨0, text.length⟩, .none⟩ := by
  rw [recognize_eq (shebang_none h)]
  rfl

/-- All there is to a recognized text: either the grammar finds a line at its beginning, and the
shebang line is this line, or there is no shebang line. -/
theorem recognize_cases (text : Text) :
    (∃ (l : Line) (body : Text), l.WellFormed ∧ text = l.render ++ body ∧
      recognize text = ⟨text, some l.shebang, ⟨l.render.length, text.length⟩,
        l.shebang.interpreter.tag⟩) ∨
    (¬ Begins text ∧ recognize text = ⟨text, none, ⟨0, text.length⟩, .none⟩) := by
  by_cases h : Begins text
  · obtain ⟨l, body, hl, -, rfl⟩ := exists_line_of_begins h
    exact Or.inl ⟨l, body, hl, rfl, recognize_rendered hl body⟩
  · exact Or.inr ⟨h, recognize_unbegun h⟩

theorem shebang_eq_some_iff {s : ShebangLine} : (recognize text).shebang = some s ↔
    ∃ (l : Line) (body : Text), l.WellFormed ∧ text = l.render ++ body ∧ s = l.shebang := by
  constructor
  · intro hs
    rcases recognize_cases text with ⟨l, body, hl, ht, hr⟩ | ⟨-, hr⟩
    · rw [hr] at hs
      exact ⟨l, body, hl, ht, (Option.some.inj hs).symm⟩
    · simp [hr] at hs
  · rintro ⟨l, body, hl, rfl, rfl⟩
    rw [recognize_rendered hl body]

/-- The tag that is kept with the body is that of the line. -/
theorem recognize_tag (text : Text) : (recognize text).tag = tagOf (recognize text).shebang := rfl

/-- The interpreter that is kept with a line is what its token stands for. -/
theorem recognize_interpreter {s : ShebangLine} (h : (recognize text).shebang = some s) :
    s.interpreter = .ofToken s.interpreterToken := by
  obtain ⟨l, -, -, -, rfl⟩ := shebang_eq_some_iff.mp h
  rfl

end Shebang
