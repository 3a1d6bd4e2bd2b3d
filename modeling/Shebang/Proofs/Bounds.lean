import Shebang.Proofs.Recognition
import Shebang.Proofs.Scanning

/-!
Recognition stays within its bounds. Watched, it comes to an end without a fault for every text,
with what recognition finds: each character that is read is one of the text, no span ends before
its start, the cursor stays in the content of the first line, and each pass of the loop over flags
that is followed by another one has moved it on.
-/

namespace Shebang

def Flags.placed (flags : Flags Cursor) : Flags Watched.Place :=
  ⟨flags.nodes, flags.texts, flags.place.place⟩

def Invocation.placed (i : Invocation Cursor) : Invocation Watched.Place where
  form := i.form
  nodes := i.nodes
  pathPrefix := i.pathPrefix
  launcherFlags := i.launcherFlags
  interpreterToken := i.interpreterToken
  place := i.place.place

namespace Cursor

variable {c : Cursor} {launcher text : Text}

theorem readFlags_onLine {flags : Flags Cursor} {r : Flags Cursor × Text}
    (hc : flags.place.OnLine text) (h : readFlags launcher flags = .ok r) :
    r.1.place.OnLine text := by
  fun_induction readFlags launcher flags with
  | case1 flags next hpass ih =>
    obtain ⟨word, d, gap, e, hw, -, hg, rfl⟩ := flagPass_eq_inl hpass
    exact ih ((hc.takeRun hw).1.takeRun hg).1 h
  | case2 flags ending hpass =>
    subst h
    obtain ⟨word, d, hw, -, rfl⟩ := flagPass_eq_ok hpass
    exact (hc.takeRun hw).1

theorem viaLauncher_onLine {i : Invocation Cursor} (hc : c.OnLine text)
    (h : scanner.viaLauncher c = .ok i) : i.place.OnLine text := by
  obtain ⟨path, d, gap, e, flags, interpreter, hw, -, hg, hr, rfl⟩ := viaLauncher_eq_ok h
  exact readFlags_onLine ((hc.takeRun hw).1.takeRun hg).1 hr

theorem direct_eq_some {i : Invocation Cursor} (h : steps.direct c = some i) :
    i.form = .direct ∧ ∃ word, c.token = some (word, i.place) := by
  simp only [Steps.direct, steps_token, plain_bind, plain_pure] at h
  cases hw : c.token with
  | none =>
    rw [hw] at h
    cases h
  | some found =>
    rw [hw] at h
    cases h
    exact ⟨rfl, found.1, rfl⟩

end Cursor

namespace Watched

variable {text : Text} {c : Cursor}

section Launcher

variable {flags : Flags Cursor}

def ended : Except LauncherFailure (Flags Cursor × Text) →
    Except LauncherFailure (Flags Place × Text) :=
  Except.map (Prod.map Flags.placed id)

theorem ends_flagPass (launcher : Text) (hc : flags.place.OnLine text) :
    Ends text [] (steps.flagPass launcher flags.placed)
      (Sum.map Flags.placed ended (Cursor.steps.flagPass launcher flags)) := by
  have htoken := ends_token hc
  rcases Cursor.flagPass_cases launcher flags with
    ⟨hw, hpass⟩ | ⟨word, d, hw, ⟨ht, hpass⟩ | ⟨ht, hpass⟩⟩
  · rw [hw] at htoken
    rw [hpass]
    exact htoken.bind (Ends.pure _)
  · rw [hw] at htoken
    rw [hpass]
    exact htoken.bind (Ends.ite_neg ht (Ends.pure _))
  · have hgap := ends_whitespace (hc.takeRun hw).1
    rw [hw] at htoken
    rcases hpass with ⟨hg, hpass⟩ | ⟨gap, e, hg, hpass⟩
    · rw [hg] at hgap
      rw [hpass]
      exact htoken.bind (Ends.ite_pos ht (hgap.bind (Ends.pure _)))
    · rw [hg] at hgap
      rw [hpass]
      exact htoken.bind (Ends.ite_pos ht (hgap.bind (Ends.pure _)))

/-- A pass is recorded for each flag that is gathered behind the first `n`, and nothing else. -/
structure Passes (n : Nat) (agains : List Act) (texts : Option (List Text)) : Prop where
  again : ∀ a ∈ agains, a.isAgain = true
  each : ∀ gathered, texts = some gathered → gathered.length = n + agains.length

theorem passes_none (n : Nat) : Passes n [] none := ⟨List.forall_mem_nil _, by simp⟩

theorem Passes.unfound {n : Nat} {agains : List Act} {texts : Option (List Text)}
    (h : Passes n agains texts) : Passes n agains none := ⟨h.again, by simp⟩

theorem Passes.on {n : Nat} {agains : List Act} {texts : Option (List Text)} {before after : Int}
    (h : Passes (n + 1) agains texts) : Passes n (.again before after :: agains) texts := by
  refine ⟨List.forall_mem_cons.mpr ⟨rfl, h.again⟩, ?_⟩
  intro gathered hg
  rw [h.each gathered hg, List.length_cons, Nat.add_assoc, Nat.add_comm 1]

def gathered (found : Except LauncherFailure (Flags Cursor × Text)) : Option (List Text) :=
  found.toOption.map fun r => r.1.texts

theorem readFlags_loop (launcher : Text) : scanner.readFlags launcher =
    loop (fun last next => .again last.place.pos next.place.pos) (steps.flagPass launcher) := rfl

/-- The loop over flags ends, as it does on cursors. -/
theorem ends_readFlags (launcher : Text) (flags : Flags Cursor) (hc : flags.place.OnLine text) :
    ∃ agains,
    Passes flags.texts.length agains (gathered (Cursor.readFlags launcher flags)) ∧
    Ends text agains (scanner.readFlags launcher flags.placed)
      (ended (Cursor.readFlags launcher flags)) := by
  rw [readFlags_loop]
  -- Each pass on cursors is a pass of the watched loop, so one induction is enough for both.
  fun_induction Cursor.readFlags launcher flags with
  | case1 flags next h ih =>
    have hpass := ends_flagPass launcher hc
    rw [h] at hpass
    obtain ⟨word, d, gap, e, hw, -, hg, rfl⟩ := Cursor.flagPass_eq_inl h
    obtain ⟨hd, hforth⟩ := hc.takeRun hw
    obtain ⟨he, hforth'⟩ := hd.takeRun hg
    have hlegal : (Act.again flags.place.pos e.pos).Legal text :=
      ⟨Int.ofNat_lt.mpr (hforth.trans hforth'), Int.ofNat_le.mpr he.within.le_stop⟩
    obtain ⟨agains, hpasses, hloop⟩ := ih he
    rw [List.length_append] at hpasses
    exact ⟨_, hpasses.on, hpass.loop_on hlegal hloop⟩
  | case2 flags ending h =>
    have hpass := ends_flagPass launcher hc
    rw [h] at hpass
    refine ⟨[], ⟨List.forall_mem_nil _, ?_⟩, hpass.loop_over⟩
    intro texts htexts
    cases ending with
    | error failure => cases htexts
    | ok r =>
      obtain ⟨word, d, -, -, rfl⟩ := Cursor.flagPass_eq_ok h
      cases htexts
      rfl

theorem ends_viaLauncher (hc : c.OnLine text) : ∃ agains,
    Passes 0 agains ((Cursor.scanner.viaLauncher c).toOption.map Invocation.launcherFlags) ∧
    Ends text agains (scanner.viaLauncher c.place)
      ((Cursor.scanner.viaLauncher c).map Invocation.placed) := by
  have htoken := ends_token hc
  simp only [Scanner.viaLauncher, Cursor.scanner_steps, Cursor.scanner_readFlags,
    Cursor.steps_token, Cursor.steps_text, Cursor.steps_whitespace, Cursor.plain_bind,
    Cursor.plain_pure]
  cases hw : c.token with
  | none =>
    rw [hw] at htoken
    exact ⟨[], passes_none 0, htoken.bind (Ends.pure _)⟩
  | some found =>
    obtain ⟨path, d⟩ := found
    have hd := (hc.takeRun hw).1
    have hgap := ends_whitespace hd
    rw [hw] at htoken
    by_cases henv : (path.text c.text).lastSegment = "env"
    · simp only [henv, if_true]
      cases hg : d.whitespace with
      | none =>
        rw [hg] at hgap
        exact ⟨[], passes_none 0, htoken.bind (Ends.ite_pos henv (hgap.bind (Ends.pure _)))⟩
      | some found =>
        obtain ⟨gap, e⟩ := found
        obtain ⟨agains, hpasses, hloop⟩ := ends_readFlags (path.text c.text)
          ⟨[⟨.launcherPath, path⟩, ⟨.whitespace, gap⟩], [], e⟩ (hd.takeRun hg).1
        rw [hg] at hgap
        simp only
        cases hr : Cursor.readFlags (path.text c.text)
            ⟨[⟨.launcherPath, path⟩, ⟨.whitespace, gap⟩], [], e⟩ with
        | error failure =>
          rw [hr] at hloop hpasses
          refine ⟨agains, hpasses, htoken.bind (Ends.ite_pos henv (hgap.bind ?_))⟩
          exact hloop.bind_quiet (Ends.pure _)
        | ok found =>
          rw [hr] at hloop hpasses
          refine ⟨agains, hpasses, htoken.bind (Ends.ite_pos henv (hgap.bind ?_))⟩
          exact hloop.bind_quiet (Ends.pure _)
    · simp only [henv, if_false]
      exact ⟨[], passes_none 0, htoken.bind (Ends.ite_neg henv (Ends.pure _))⟩

end Launcher

section Parts

theorem ends_direct (hc : c.OnLine text) : Ends text [] (steps.direct c.place)
    (Option.map Invocation.placed (Cursor.steps.direct c)) := by
  have htoken := ends_token hc
  simp only [Steps.direct, Cursor.steps_token, Cursor.steps_text, Cursor.plain_bind,
    Cursor.plain_pure]
  cases hw : c.token with
  | none =>
    rw [hw] at htoken
    exact htoken.bind (Ends.pure _)
  | some found =>
    obtain ⟨path, d⟩ := found
    have hlen : path.start + (path.text c.text).length = path.stop := by
      obtain ⟨u, v, hsplit, -, -, -, rfl, -⟩ := Cursor.takeRun_split hw
      rw [Cursor.text_of_remaining hsplit]
    have hcut := Cursor.throughLastSlash_length_le (path.text c.text)
    have hpath : (path.start : Int) ≤ path.start + (path.text c.text).throughLastSlash.length := by
      omega
    have hname : path.start + (path.text c.text).throughLastSlash.length ≤ (path.stop : Int) := by
      omega
    rw [hw] at htoken
    apply htoken.bind
    refine (ends_nodeIf fun _ => ⟨Int.natCast_nonneg _, hpath⟩).bind ?_
    refine (ends_nodeIf fun _ => ⟨(Int.natCast_nonneg _).trans hpath, hname⟩).bind ?_
    exact Ends.pure _

/-- The place behind blanks is in the line again. -/
theorem ends_skipBlanks (hc : c.OnLine text) : (Cursor.steps.skipBlanks c).2.OnLine text ∧
    Ends text [] (steps.skipBlanks c.place)
      (Prod.map id Cursor.place (Cursor.steps.skipBlanks c)) := by
  have hgap := ends_whitespace hc
  simp only [Steps.skipBlanks, Cursor.steps_whitespace, Cursor.plain_bind, Cursor.plain_pure]
  cases hg : c.whitespace with
  | none =>
    rw [hg] at hgap
    exact ⟨hc, hgap.bind (Ends.pure _)⟩
  | some found =>
    rw [hg] at hgap
    exact ⟨(hc.takeRun hg).1, hgap.bind (Ends.pure _)⟩

theorem length_trimEnd_le (u : Text) : (u.trimEnd isInlineSpace).length ≤ u.length := by
  have hdrop := (u.reverse.dropWhile_sublist isInlineSpace).length_le
  simpa [Text.trimEnd] using hdrop

theorem ends_readTail (hc : c.OnLine text) :
    Ends text [] (steps.readTail c.place) (Cursor.steps.readTail c) := by
  obtain ⟨hd, hblanks⟩ := ends_skipBlanks hc
  simp only [Steps.readTail, Cursor.plain_bind, Cursor.plain_pure]
  generalize Cursor.steps.skipBlanks c = skipped at hd hblanks
  obtain ⟨blanks, d⟩ := skipped
  have hrest : Ends text [] (steps.rest d.place) (Cursor.placed d.rest) := ends_rest hd
  apply hblanks.bind
  simp only [Cursor.steps_rest]
  cases hr : d.rest with
  | none =>
    rw [hr] at hrest
    exact hrest.bind (Ends.pure _)
  | some found =>
    obtain ⟨rest, e⟩ := found
    rw [hr] at hrest
    obtain ⟨-, rfl, -⟩ := Cursor.takeSpan_eq_some hr
    have hraw : (Span.text ⟨d.pos, d.pos + d.left⟩ d.text).length ≤ d.left := by
      simp only [Span.text, List.length_drop, List.length_take]
      omega
    have hcut := (length_trimEnd_le _).trans hraw
    have hlast : (d.pos : Int) ≤ d.pos +
        ((Span.text ⟨d.pos, d.pos + d.left⟩ d.text).trimEnd isInlineSpace).length := by omega
    have htrail : ((d.pos + ((Span.text ⟨d.pos, d.pos + d.left⟩ d.text).trimEnd
        isInlineSpace).length : Int).toNat : Int) ≤ (d.pos + d.left : Nat) := by omega
    apply hrest.bind
    refine (ends_node (Int.natCast_nonneg _) hlast).bind ?_
    refine (ends_nodeIf fun _ => ⟨Int.natCast_nonneg _, htrail⟩).bind ?_
    exact Ends.pure _

end Parts

section FirstLine

variable {stop newline : Int} {i : Invocation Cursor}

theorem ends_contentEnd {n : Nat} (h : n < text.length) :
    Ends text [] (steps.contentEnd text n) (Cursor.steps.contentEnd text n) := by
  unfold Steps.contentEnd
  by_cases hlong : (2 : Int) < n
  · have hindex : (n : Int) - 1 = (n - 1 : Nat) := by omega
    have hbefore : n - 1 < text.length := by omega
    rw [if_pos hlong, if_pos hlong]
    apply (ends_stands hindex hbefore).bind
    rw [Cursor.plain_bind]
    cases Cursor.steps.stands text (n - 1) '\r' <;> exact Ends.pure _
  · rw [if_neg hlong, if_neg hlong]
    exact Ends.pure _

theorem contentStop_bounds (h : 2 ≤ text.idxOf '\n') :
    2 ≤ contentStop text ∧ contentStop text ≤ text.idxOf '\n' := by
  unfold contentStop
  split <;> omega

/-- Behind its marker the line is entered, and this is recorded. -/
theorem ends_opening (hmark : 2 ≤ text.idxOf '\n') (hin : '\n' ∈ text) : ∃ lead c,
    Cursor.OnLine text c ∧
    Cursor.steps.skipBlanks ⟨text, 2, contentStop text⟩ = (lead, c) ∧
    Ends text [.line (contentStop text) (text.idxOf '\n')]
      (steps.opening text (text.idxOf '\n'))
      ((contentStop text : Int), ⟨.marker, ⟨0, 2⟩⟩ :: lead, c.place) := by
  have hlt : text.idxOf '\n' < text.length := List.idxOf_lt_length_iff.mpr hin
  obtain ⟨hfrom, hle⟩ := contentStop_bounds hmark
  have hplain : Cursor.steps.contentEnd text (text.idxOf '\n') = (contentStop text : Int) :=
    Cursor.steps_contentEnd text _
  have hend := hplain ▸ ends_contentEnd hlt
  have hline : (Act.line (contentStop text) (text.idxOf '\n')).Legal text :=
    ⟨Int.ofNat_le.mpr hfrom, Int.ofNat_le.mpr hle, rfl, rfl, hin⟩
  have hentered : Ends text [.line (contentStop text) (text.idxOf '\n')]
      (steps.enter text (contentStop text) (text.idxOf '\n')) ⟨text, 2, contentStop text⟩ :=
    (ends_act hline).bind_quiet (Ends.pure _)
  have hstart : Cursor.OnLine text ⟨text, 2, contentStop text⟩ :=
    ⟨Nat.le_trans hle (Nat.le_of_lt hlt), rfl, rfl, Nat.le_refl 2, hfrom⟩
  obtain ⟨hc, hlead⟩ := ends_skipBlanks hstart
  refine ⟨_, _, hc, rfl, hend.bind <| (ends_node (by decide) (by decide)).bind ?_⟩
  exact hentered.bind_quiet (hlead.bind (Ends.pure _))

theorem ends_assemble (front : List Node) (hi : i.place.OnLine text) (hstop : 0 ≤ stop)
    (hle : stop ≤ newline) :
    Ends text [] (steps.assemble stop newline front i.placed)
      (Cursor.steps.assemble stop newline front i) := by
  have hend : stop ≤ newline + 1 := Int.le_add_one hle
  apply (ends_readTail hi).bind
  refine (ends_node hstop hend).bind ?_
  refine (ends_span (Int.le_refl 0) (hstop.trans hend)).bind ?_
  exact Ends.pure _

def launched (shebang : Option ShebangLine) : Option (List Text) :=
  (shebang.filter fun s => s.form = .viaLauncher).map ShebangLine.launcherFlags

theorem ends_readContent (front : List Node) (hc : c.OnLine text) (hstop : 0 ≤ stop)
    (hle : stop ≤ newline) : ∃ agains,
      Passes 0 agains
        (launched (Reading.shebang? (Cursor.scanner.readContent stop newline front c))) ∧
      Ends text agains (scanner.readContent stop newline front c.place)
        (Cursor.scanner.readContent stop newline front c) := by
  obtain ⟨agains, hpasses, hlauncher⟩ := ends_viaLauncher hc
  refine ⟨agains, ?_⟩
  simp only [Scanner.readContent, Cursor.scanner_steps, Cursor.plain_bind, Cursor.plain_pure]
  cases hv : Cursor.scanner.viaLauncher c with
  | ok found =>
    have hfound := Cursor.viaLauncher_onLine hc hv
    rw [hv] at hlauncher hpasses
    refine ⟨⟨hpasses.again, ?_⟩,
      hlauncher.bind_quiet ((ends_assemble front hfound hstop hle).bind (Ends.pure _))⟩
    intro gathered hg
    obtain ⟨line, hline, rfl⟩ := Option.map_eq_some_iff.mp hg
    obtain ⟨hshebang, -⟩ := Option.filter_eq_some_iff.mp hline
    cases hshebang
    exact hpasses.each _ rfl
  | error failure =>
    -- The passes of the launcher form stay recorded, though the line is read without it.
    have hdirect := ends_direct hc
    rw [hv] at hlauncher
    cases hd : Cursor.steps.direct c with
    | none =>
      rw [hd] at hdirect
      exact ⟨hpasses.unfound, hlauncher.bind_quiet (hdirect.bind (Ends.pure _))⟩
    | some found =>
      obtain ⟨hform, word, hw⟩ := Cursor.direct_eq_some hd
      have hfound := ends_assemble front (hc.takeRun hw).1 hstop hle
      have hnone : launched (some (Cursor.steps.assemble stop newline front found)) = none := by
        simp [launched, Steps.assemble, hform]
      rw [hd] at hdirect
      refine ⟨hnone ▸ hpasses.unfound, ?_⟩
      exact hlauncher.bind_quiet (hdirect.bind (hfound.bind (Ends.pure _)))

theorem ends_readLine (hmark : 2 ≤ text.idxOf '\n') (hin : '\n' ∈ text) : ∃ agains,
    Passes 0 agains
      (launched (Reading.shebang? (Cursor.scanner.readLine text (text.idxOf '\n')))) ∧
    Ends text (.line (contentStop text) (text.idxOf '\n') :: agains)
      (scanner.readLine text (text.idxOf '\n'))
      (Cursor.scanner.readLine text (text.idxOf '\n')) := by
  obtain ⟨lead, c, hc, hlead, hopening⟩ := ends_opening hmark hin
  have hread := Cursor.readLine_opened (Cursor.steps_contentEnd text (text.idxOf '\n')) hlead
  obtain ⟨agains, hpasses, hcontent⟩ := ends_readContent (⟨.marker, ⟨0, 2⟩⟩ :: lead) hc
    (Int.natCast_nonneg _) (Int.ofNat_le.mpr (contentStop_bounds hmark).2)
  rw [hread]
  exact ⟨agains, hpasses, hopening.bind_marked hcontent⟩

theorem idxOf_marked (h : text.take 2 = "#!") : 2 ≤ text.idxOf '\n' := by
  have hsplit : text = '#' :: '!' :: text.drop 2 := by
    calc text = text.take 2 ++ text.drop 2 := (List.take_append_drop 2 text).symm
      _ = '#' :: '!' :: text.drop 2 := by rw [h]; rfl
  rw [hsplit]
  simp

/-- What is kept of the recognition of a text: its line if it has a marker and a line feed, and the
passes that the loop over flags has gone on from. -/
def Recorded (text : Text) (shebang : Option ShebangLine) (marks : List Act) : Prop :=
  ∃ agains, Passes 0 agains (launched shebang) ∧
    marks = (if text.take 2 = "#!" ∧ '\n' ∈ text
      then [.line (contentStop text) (text.idxOf '\n')] else []) ++ agains

theorem recorded_nil (h : ¬ (text.take 2 = "#!" ∧ '\n' ∈ text)) : Recorded text none [] := by
  refine ⟨[], passes_none 0, ?_⟩
  rw [if_neg h]
  rfl

theorem Recorded.lines {shebang : Option ShebangLine} {marks : List Act}
    (h : Recorded text shebang marks) : marks.filter Act.isLine =
      if text.take 2 = "#!" ∧ '\n' ∈ text
        then [.line (contentStop text) (text.idxOf '\n')] else [] := by
  obtain ⟨agains, hpasses, rfl⟩ := h
  have hnone : agains.filter Act.isLine = [] := by
    apply List.filter_eq_nil_iff.mpr
    intro a ha
    have hagain := hpasses.again a ha
    cases a <;> simp_all [Act.isLine, Act.isAgain]
  rw [List.filter_append, hnone, List.append_nil]
  split <;> rfl

theorem Recorded.agains {shebang : Option ShebangLine} {marks : List Act} {flags : List Text}
    (h : Recorded text shebang marks) (hs : launched shebang = some flags) :
    marks.countP Act.isAgain = flags.length := by
  obtain ⟨agains, hpasses, rfl⟩ := h
  rw [List.countP_append, List.countP_eq_length.mpr hpasses.again, hpasses.each flags hs]
  split <;> simp [Act.isAgain]

theorem ends_readText (text : Text) : ∃ marks, Recorded text (Reading.ofText text).shebang? marks ∧
    Ends text marks (scanner.readText text) (Reading.ofText text) := by
  unfold Reading.ofText Scanner.readText
  by_cases hmark : text.take 2 = "#!"
  · rw [if_pos hmark, if_pos hmark]
    cases hf : text.findIdx? (· == '\n') with
    | none =>
      have hnone : '\n' ∉ text := fun hin => by
        simpa using List.findIdx?_eq_none_iff.mp hf '\n' hin
      exact ⟨[], recorded_nil fun h => hnone h.2, Ends.pure _⟩
    | some newline =>
      obtain ⟨hlt, rfl⟩ := List.findIdx?_eq_some_iff_findIdx_eq.mp hf
      have hin : '\n' ∈ text := List.idxOf_lt_length_iff.mp hlt
      obtain ⟨agains, hpasses, hline⟩ := ends_readLine (idxOf_marked hmark) hin
      refine ⟨_, ⟨agains, hpasses, ?_⟩, hline⟩
      rw [if_pos ⟨hmark, hin⟩]
      rfl
  · rw [if_neg hmark, if_neg hmark]
    exact ⟨[], recorded_nil fun h => hmark h.1, Ends.pure _⟩

end FirstLine

theorem bodyStart_le_length (text : Text) :
    bodyStart (Shebang.recognize text).shebang ≤ text.length := by
  rcases recognize_cases text with ⟨l, body, -, rfl, hr⟩ | ⟨-, hr⟩
  · rw [hr, List.length_append]
    exact Nat.le_add_right _ _
  · rw [hr]
    exact Nat.zero_le _

theorem ends_recognize (text : Text) : ∃ marks,
    Recorded text (Shebang.recognize text).shebang marks ∧
    Ends text marks (scanner.recognize text) (Shebang.recognize text) := by
  obtain ⟨marks, hrecorded, hread⟩ := ends_readText text
  have hstart : (bodyStart (Reading.ofText text).shebang? : Int) ≤ text.length :=
    Int.ofNat_le.mpr (bodyStart_le_length text)
  exact ⟨marks, hrecorded,
    hread.bind_quiet ((ends_span (Int.natCast_nonneg _) hstart).bind (Ends.pure _))⟩

/-- No text makes recognition fail or go on for ever, and nothing that it does is out of bounds. The
one line that it delimits is recorded, and each pass of the loop over flags that another one
follows. -/
theorem recognize_bounded (text : Text) : ∃ acts,
    (recognizeInjection text).run.run [] =
      Part.some
        (.ok (Shebang.recognize text, Shebang.findInjection (Shebang.recognize text)), acts) ∧
    (∀ a ∈ acts, a.Legal text) ∧
    (acts.filter Act.isLine = if text.take 2 = "#!" ∧ '\n' ∈ text
      then [.line (contentStop text) (text.idxOf '\n')] else []) ∧
    ∀ s, (Shebang.recognize text).shebang = some s → s.form = .viaLauncher →
      acts.countP Act.isAgain = s.launcherFlags.length := by
  obtain ⟨marks, hrecorded, hrecognize⟩ := ends_recognize text
  have hends : Ends text marks (recognizeInjection text)
      (Shebang.recognize text, Shebang.findInjection (Shebang.recognize text)) :=
    hrecognize.bind_quiet (Ends.pure _)
  obtain ⟨acts, hrun, hlegal, hkept⟩ := hends []
  refine ⟨acts, hrun, hlegal, ?_, ?_⟩
  · rw [← hrecorded.lines, ← hkept, List.filter_filter]
    exact List.filter_congr fun a _ => by cases a <;> rfl
  · intro s hs hform
    have hflags : launched (Shebang.recognize text).shebang = some s.launcherFlags := by
      simp [hs, launched, hform]
    rw [← hrecorded.agains hflags, ← hkept, List.countP_filter]
    exact List.countP_congr fun a _ => by cases a <;> simp [Act.isMark, Act.isAgain, Act.isLine]

end Watched

end Shebang
