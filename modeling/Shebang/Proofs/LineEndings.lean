import Shebang.Proofs.FirstLine
import Shebang.Proofs.RoundTrip

/-!
What the recognition of a shebang line does not look at: the text behind the first line feed, and
whether a carriage return stands before it.
-/

namespace Shebang

open Line

section FirstLine

variable {u : Text} {s : ShebangLine}

theorem shebang_terminated (hu : '\n' ∉ u) (body : Text) :
    (recognize (u ++ '\n' :: body)).shebang = some s ↔
      ∃ l : Line, l.WellFormed ∧ l.render = u ++ ['\n'] ∧ s = l.shebang := by
  rw [shebang_eq_some_iff]
  constructor
  · rintro ⟨l, rest, hl, ht, hs⟩
    exact ⟨l, hl, (render_eq_firstLine hl hu ht).1, hs⟩
  · rintro ⟨l, hl, hr, hs⟩
    refine ⟨l, body, hl, ?_, hs⟩
    rw [hr, List.append_assoc]
    rfl

theorem bodyText_terminated (hu : '\n' ∉ u) (body : Text)
    (h : (recognize (u ++ '\n' :: body)).shebang = some s) :
    (recognize (u ++ '\n' :: body)).bodyText = body := by
  obtain ⟨l, hl, hr, -⟩ := (shebang_terminated hu body).mp h
  have ht : u ++ '\n' :: body = l.render ++ body := by
    rw [hr, List.append_assoc]
    rfl
  rw [ht]
  exact bodyText_rendered hl body

end FirstLine

/-- Recognition is local to the first line: what follows it is the body, and makes no difference to
the shebang line or to its absence. -/
theorem recognize_local {line : Text} (hlast : line.getLast? = some '\n')
    (honly : '\n' ∉ line.dropLast) (body body' : Text) :
    (recognize (line ++ body)).shebang = (recognize (line ++ body')).shebang ∧
    (recognize (line ++ body)).tag = (recognize (line ++ body')).tag ∧
    ∀ s, (recognize (line ++ body)).shebang = some s →
      (recognize (line ++ body)).bodyText = body ∧
      (recognize (line ++ body')).bodyText = body' := by
  have hsplit : ∀ body : Text, line ++ body = line.dropLast ++ '\n' :: body := by
    intro body
    rw [← List.singleton_append, ← List.append_assoc,
      List.dropLast_append_getLast? '\n' (Option.mem_def.mpr hlast)]
  rw [hsplit, hsplit]
  have hsame := shebang_firstLine honly body body'
  refine ⟨hsame, tag_firstLine honly body body', ?_⟩
  intro s hs
  constructor
  · exact bodyText_terminated honly body hs
  · exact bodyText_terminated honly body' (hsame.symm.trans hs)

def flagLine : Text := "#!/usr/bin/env -S\n"

theorem recognize_local_flag : flagLine.getLast? = some '\n' ∧ '\n' ∉ flagLine.dropLast ∧
    (recognize (flagLine ++ "zsh\n".toList)).shebang = (recognize (flagLine ++ [])).shebang ∧
    (recognize (flagLine ++ "zsh\n".toList)).hasShebang = true := by
  have hlast : flagLine.getLast? = some '\n' := by decide
  have honly : '\n' ∉ flagLine.dropLast := by decide
  exact ⟨hlast, honly, (recognize_local hlast honly _ _).1, by decide +kernel⟩

namespace Line

variable {l : Line} {u newline : Text}

def ending (l : Line) (newline : Text) : Line := { l with newline }

def front (l : Line) : List Piece :=
  [⟨.marker, "#!"⟩] ++ [⟨.whitespace, l.lead⟩] ++ l.call.pieces ++ l.tail.pieces

theorem join_front (l : Line) : Piece.join l.front = "#!" ++ l.content := by
  simp [front, content, Tail.text]

theorem pieces_ending (l : Line) (newline : Text) :
    (l.ending newline).pieces = l.front ++ [⟨.newline, newline⟩] := pieces_eq _

theorem render_ending (l : Line) (newline : Text) :
    (l.ending newline).render = "#!" ++ l.content ++ newline := render_eq _

theorem WellFormed.ending (h : l.WellFormed) (ht : Terminated l.content newline) :
    (l.ending newline).WellFormed :=
  ⟨h.lead, h.call, h.tail, h.unlaunched, ht⟩

theorem getLast?_of_crlf {v w : Text} (h : v ++ ['\n'] = w ++ ['\r', '\n']) :
    v.getLast? = some '\r' := by
  have hv : v = w ++ ['\r'] := by
    have hsplit : v ++ ['\n'] = (w ++ ['\r']) ++ ['\n'] := by
      rw [h, List.append_assoc]
      rfl
    exact List.append_cancel_right hsplit
  rw [hv, List.getLast?_concat]

theorem getLast?_marked {content : Text} (h : content.getLast? ≠ some '\r') :
    ("#!" ++ content : Text).getLast? ≠ some '\r' := by
  rw [List.getLast?_append]
  cases hc : content.getLast? with
  | none => decide
  | some x =>
    rw [hc] at h
    exact h

/-- Where a line ends in one of the two newlines, this is its own: a carriage return before the line
feed belongs neither to the content nor, by assumption, to the text in front. -/
theorem WellFormed.render_ended (h : l.WellFormed) (hn : newline = ['\n'] ∨ newline = ['\r', '\n'])
    (hcr : u.getLast? ≠ some '\r') (hr : l.render = u ++ newline) :
    l.newline = newline ∧ u = "#!" ++ l.content := by
  rw [render_eq] at hr
  have hsame : l.newline = newline → l.newline = newline ∧ u = "#!" ++ l.content := by
    intro he
    rw [he] at hr
    exact ⟨he, (List.append_cancel_right hr).symm⟩
  rcases h.newline with ⟨hl, hc⟩ | hl
  · rcases hn with rfl | rfl
    · exact hsame hl
    · rw [hl] at hr
      exact absurd (getLast?_of_crlf hr) (getLast?_marked hc)
  · rcases hn with rfl | rfl
    · rw [hl] at hr
      exact absurd (getLast?_of_crlf hr.symm) hcr
    · exact hsame hl

theorem nodes_ending (l : Line) (h : newline ≠ []) : (l.ending newline).shebang.nodes =
    Piece.layOut 0 l.front ++ [⟨.newline, ⟨("#!" ++ l.content : Text).length,
      ("#!" ++ l.content : Text).length + newline.length⟩⟩] := by
  have hpieces : (l.ending newline).shebang.nodes = Piece.layOut 0 (l.ending newline).pieces := rfl
  rw [hpieces, pieces_ending, Piece.layOut_append, join_front, Nat.zero_add, Piece.layOut_cons h,
    Piece.layOut_nil]

theorem read_ending (l : Line) (h : newline ≠ []) (body : Text) :
    (l.ending newline).shebang.nodes.map (Node.read ((l.ending newline).render ++ body)) =
      Piece.present l.front ++ [⟨.newline, newline⟩] := by
  rw [nodes_read, pieces_ending, Piece.present_append, Piece.present_cons h]
  rfl

end Line

/-- Two readings of a line of `n` characters and its newline. They differ in the newline alone: it
is a line feed in the first text, and a carriage return and a line feed in the second. -/
structure ShebangLine.EndsAlike (n : Nat) (text text' : Text) (s s' : ShebangLine) : Prop where
  form : s.form = s'.form
  pathPrefix : s.pathPrefix = s'.pathPrefix
  launcherFlags : s.launcherFlags = s'.launcherFlags
  interpreterToken : s.interpreterToken = s'.interpreterToken
  interpreter : s.interpreter = s'.interpreter
  arguments : s.arguments = s'.arguments
  span : s.span = ⟨0, n + 1⟩ ∧ s'.span = ⟨0, n + 2⟩
  nodes : ∃ nodes, s.nodes = nodes ++ [⟨.newline, ⟨n, n + 1⟩⟩] ∧
    s'.nodes = nodes ++ [⟨.newline, ⟨n, n + 2⟩⟩]
  texts : ∃ pieces, s.nodes.map (Node.read text) = pieces ++ [⟨.newline, ['\n']⟩] ∧
    s'.nodes.map (Node.read text') = pieces ++ [⟨.newline, ['\r', '\n']⟩]

theorem endsAlike_ending (l : Line) (body : Text) :
    ShebangLine.EndsAlike ("#!" ++ l.content : Text).length
      ((l.ending ['\n']).render ++ body) ((l.ending ['\r', '\n']).render ++ body)
      (l.ending ['\n']).shebang (l.ending ['\r', '\n']).shebang where
  form := rfl
  pathPrefix := rfl
  launcherFlags := rfl
  interpreterToken := rfl
  interpreter := rfl
  arguments := rfl
  span := by
    have hspan : ∀ newline : Text, (l.ending newline).shebang.span =
        ⟨0, ("#!" ++ l.content : Text).length + newline.length⟩ := by
      intro newline
      rw [← List.length_append, ← render_ending]
      rfl
    exact ⟨hspan _, hspan _⟩
  nodes := ⟨_, nodes_ending l (List.cons_ne_nil _ _), nodes_ending l (List.cons_ne_nil _ _)⟩
  texts := ⟨_, read_ending l (List.cons_ne_nil _ _) body, read_ending l (List.cons_ne_nil _ _) body⟩

section Endings

variable {u newline : Text} {s : ShebangLine}

theorem shebang_ended (hu : '\n' ∉ u) (hcr : u.getLast? ≠ some '\r')
    (hn : newline = ['\n'] ∨ newline = ['\r', '\n']) (body : Text) :
    (recognize (u ++ newline ++ body)).shebang = some s ↔
      ∃ l : Line, (l.ending ['\r', '\n']).WellFormed ∧ u = "#!" ++ l.content ∧
        s = (l.ending newline).shebang := by
  obtain ⟨v, hv, hsplit⟩ : ∃ v, '\n' ∉ v ∧ u ++ newline = v ++ ['\n'] := by
    rcases hn with rfl | rfl
    · exact ⟨u, hu, rfl⟩
    · exact ⟨u ++ ['\r'], by simp [hu], by simp⟩
  rw [hsplit, List.append_assoc, List.singleton_append, shebang_terminated hv, ← hsplit]
  constructor
  · rintro ⟨l, hl, hr, rfl⟩
    obtain ⟨rfl, hc⟩ := hl.render_ended hn hcr hr
    exact ⟨l, hl.ending (Or.inr rfl), hc, rfl⟩
  · rintro ⟨l, hl, rfl, rfl⟩
    have hended : Terminated l.content newline := by
      rcases hn with rfl | rfl
      · refine Or.inl ⟨rfl, fun hc => hcr ?_⟩
        rw [List.getLast?_append, show l.content.getLast? = some '\r' from hc]
        rfl
      · exact Or.inr rfl
    exact ⟨l.ending newline, hl.ending hended, render_ending l newline, rfl⟩

end Endings

/-- A line that ends in a line feed and the line that ends in a carriage return and a line feed are
recognized alike. -/
theorem recognize_crlf {u : Text} (hu : '\n' ∉ u) (hcr : u.getLast? ≠ some '\r') (body : Text) :
    let lf := u ++ ['\n'] ++ body
    let crlf := u ++ ['\r', '\n'] ++ body
    (recognize lf).tag = (recognize crlf).tag ∧
    ((recognize lf).shebang = none ∧ (recognize crlf).shebang = none ∨
      ∃ s s', (recognize lf).shebang = some s ∧ (recognize crlf).shebang = some s' ∧
        s.EndsAlike u.length lf crlf s' ∧
        (recognize lf).bodyText = body ∧ (recognize crlf).bodyText = body) := by
  intro lf crlf
  have hlf : ∀ s, (recognize lf).shebang = some s ↔ _ := fun s =>
    shebang_ended hu hcr (Or.inl rfl) body
  have hcrlf : ∀ s, (recognize crlf).shebang = some s ↔ _ := fun s =>
    shebang_ended hu hcr (Or.inr rfl) body
  cases hs : (recognize lf).shebang with
  | none =>
    have hnone : (recognize crlf).shebang = none := by
      refine Option.eq_none_iff_forall_ne_some.mpr fun s hs' => ?_
      obtain ⟨l, hl, hc, -⟩ := (hcrlf s).mp hs'
      have hsome := (hlf _).mpr ⟨l, hl, hc, rfl⟩
      rw [hs] at hsome
      cases hsome
    refine ⟨?_, Or.inl ⟨rfl, hnone⟩⟩
    rw [recognize_tag, recognize_tag, hs, hnone]
  | some s =>
    obtain ⟨l, hl, rfl, rfl⟩ := (hlf s).mp hs
    have hs' := (hcrlf _).mpr ⟨l, hl, rfl, rfl⟩
    have htag : (recognize lf).tag = (recognize crlf).tag := by
      rw [recognize_tag, recognize_tag, hs, hs']
      rfl
    refine ⟨htag, Or.inr ⟨_, _, rfl, hs', ?_, ?_, ?_⟩⟩
    · have halike := endsAlike_ending l body
      rw [render_ending, render_ending] at halike
      exact halike
    · have hsplit : lf = ("#!" ++ l.content) ++ '\n' :: body := List.append_assoc _ ['\n'] body
      rw [hsplit] at hs ⊢
      exact bodyText_terminated hu body hs
    · have hsplit : crlf = ("#!" ++ l.content ++ ['\r']) ++ '\n' :: body := by
        simp [crlf]
      rw [hsplit] at hs' ⊢
      refine bodyText_terminated (fun hm => ?_) body hs'
      rcases List.mem_append.mp hm with hm | hm
      · exact hu hm
      · exact absurd hm (by decide)

def returningLine : Text := "#!env\tzsh\r-f "

theorem recognize_crlf_returning : '\n' ∉ returningLine ∧ returningLine.getLast? ≠ some '\r' ∧
    (recognize (returningLine ++ ['\n'] ++ ['x'])).tag = .zsh ∧
    (recognize (returningLine ++ ['\r', '\n'] ++ ['x'])).tag = .zsh := by
  have hu : '\n' ∉ returningLine := by decide
  have hcr : returningLine.getLast? ≠ some '\r' := by decide
  have htag : (recognize (returningLine ++ ['\n'] ++ ['x'])).tag = .zsh := by decide +kernel
  exact ⟨hu, hcr, htag, (recognize_crlf hu hcr ['x']).1.symm.trans htag⟩

end Shebang
