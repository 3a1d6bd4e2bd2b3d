import Shebang.Proofs.Recognition

/-!
Recognition splits a text and loses nothing: the shebang line ends with the first line feed, its
nodes tile it, and the body is the rest. Without a shebang line all is body.
-/

namespace Shebang

open Line

variable {l : Line} {body : Text}

theorem render_first (h : l.WellFormed) : ∃ first, '\n' ∉ first ∧ l.render = first ++ ['\n'] := by
  obtain ⟨line, hn, hs, -⟩ := terminated_line (content_newline h) h.newline
  refine ⟨"#!" ++ line, by simp [hn], ?_⟩
  rw [render_eq, List.append_assoc, hs, List.append_assoc]

theorem render_newline (h : l.WellFormed) (body : Text) :
    '\n' ∈ l.render ++ body ∧ l.render.length = (l.render ++ body).idxOf '\n' + 1 := by
  obtain ⟨first, hfirst, hr⟩ := render_first h
  rw [hr, List.append_assoc, List.idxOf_append_of_notMem hfirst]
  simp

theorem shebang_tiles (l : Line) :
    Span.Tiles 0 (l.shebang.nodes.map Node.span) l.render.length := by
  have ht := Piece.layOut_tiles 0 l.pieces
  rwa [Nat.zero_add] at ht

theorem kind_of_node {n : Node} (h : n ∈ l.shebang.nodes) : n.kind ≠ .shebangLine := by
  obtain ⟨p, hp, hk⟩ := List.mem_map.mp (Piece.kind_of_layOut h)
  rw [← hk]
  rw [pieces_eq] at hp
  simp only [List.mem_append, List.mem_singleton] at hp
  rcases hp with (((rfl | rfl) | hp) | hp) | rfl
  · decide
  · simp
  · rintro he
    simpa [he] using Call.kind_mem hp
  · rintro he
    simpa [he] using Tail.kind_mem hp
  · simp

/-- The nodes of a script that lie below the node of its line. -/
def Script.leaves (s : Script) : List Node := s.nodes.filter (·.kind ≠ .shebangLine)

theorem leaves_rendered (text : Text) (stop : Nat) (tag : Tag) :
    Script.leaves ⟨text, some l.shebang, ⟨l.render.length, stop⟩, tag⟩ =
      l.shebang.nodes ++ Node.unlessEmpty .scriptContent ⟨l.render.length, stop⟩ := by
  have hf : l.shebang.nodes.filter (·.kind ≠ .shebangLine) = l.shebang.nodes := by
    simpa using fun n hn => kind_of_node hn
  have hb : (Node.unlessEmpty .scriptContent ⟨l.render.length, stop⟩).filter
      (·.kind ≠ .shebangLine) = Node.unlessEmpty .scriptContent ⟨l.render.length, stop⟩ := by
    unfold Node.unlessEmpty
    split <;> rfl
  rw [Script.leaves, Script.nodes]
  change List.filter _ ((⟨.shebangLine, l.shebang.span⟩ :: l.shebang.nodes) ++
    Node.unlessEmpty .scriptContent ⟨l.render.length, stop⟩) = _
  rw [List.cons_append, List.filter_cons_of_neg (by simp), List.filter_append, hf, hb]

theorem leaves_unbegun (text : Text) (stop : Nat) (tag : Tag) :
    Script.leaves ⟨text, none, ⟨0, stop⟩, tag⟩ = Node.unlessEmpty .scriptContent ⟨0, stop⟩ := by
  rw [Script.leaves, Script.nodes]
  change List.filter _ (Node.unlessEmpty .scriptContent ⟨0, stop⟩) = _
  unfold Node.unlessEmpty
  split <;> rfl

theorem leaves_tile (text : Text) :
    Span.Tiles 0 ((recognize text).leaves.map Node.span) text.length := by
  rcases recognize_cases text with ⟨l, body, hl, rfl, hr⟩ | ⟨-, hr⟩
  · have hlen : l.render.length ≤ (l.render ++ body).length := by simp
    rw [hr, leaves_rendered, List.map_append]
    exact Span.tiles_append (shebang_tiles l) (Node.unlessEmpty_tiles hlen)
  · rw [hr, leaves_unbegun]
    exact Node.unlessEmpty_tiles (Nat.zero_le _)

theorem leaves_text (text : Text) :
    (recognize text).leaves.flatMap (recognize text).textOf = text := by
  have hs := Span.tiles_text (leaves_tile text) text
  rw [List.flatMap_map, Span.text_whole] at hs
  exact hs

theorem recognize_reconstruct (text : Text) : (recognize text).reconstruct = text := by
  rcases recognize_cases text with ⟨l, body, hl, rfl, hr⟩ | ⟨-, hr⟩
  · have hlen : l.render.length ≤ (l.render ++ body).length := by simp
    rw [hr, Script.reconstruct]
    exact (Span.text_append _ (Nat.zero_le _) hlen).trans (Span.text_whole _)
  · rw [hr]
    exact Span.text_whole text

/-- The lossless partition. -/
theorem recognize_partition (text : Text) :
    (match (recognize text).shebang with
      | none => (recognize text).body = ⟨0, text.length⟩
      | some s =>
        '\n' ∈ text ∧ s.span = ⟨0, text.idxOf '\n' + 1⟩ ∧
        (recognize text).body = ⟨text.idxOf '\n' + 1, text.length⟩ ∧
        Span.Tiles 0 (s.nodes.map Node.span) (text.idxOf '\n' + 1)) ∧
    (recognize text).reconstruct = text ∧
    (recognize text).leaves.flatMap (recognize text).textOf = text := by
  refine ⟨?_, recognize_reconstruct text, leaves_text text⟩
  · rcases recognize_cases text with ⟨l, body, hl, rfl, hr⟩ | ⟨-, hr⟩
    · obtain ⟨hm, hn⟩ := render_newline hl body
      rw [hr, ← hn]
      exact ⟨hm, rfl, rfl, shebang_tiles l⟩
    · rw [hr]

end Shebang
