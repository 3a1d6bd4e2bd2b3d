import Shebang.Proofs.Recognition

/-!
Rendering a line and recognizing it gives the line back: its form, its fields, its pieces as nodes,
and what follows it as the body.
-/

namespace Shebang

open Line

theorem nodes_read (l : Line) (body : Text) :
    l.shebang.nodes.map (Node.read (l.render ++ body)) = Piece.present l.pieces :=
  Piece.layOut_read [] body l.pieces

theorem bodyText_rendered {l : Line} (h : l.WellFormed) (body : Text) :
    (recognize (l.render ++ body)).bodyText = body := by
  rw [recognize_rendered h body, Script.bodyText, Span.text, List.take_length, List.drop_left]

/-- Every part of a rendered line comes back, whatever follows the line. -/
theorem recognize_render {l : Line} (h : l.WellFormed) (body : Text) :
    ∃ s, (recognize (l.render ++ body)).shebang = some s ∧
      s.form = l.call.form ∧ s.pathPrefix = l.call.directory ∧
      s.launcherFlags = l.call.flags ∧ s.interpreterToken = l.call.interpreter ∧
      s.arguments = l.tail.arguments? ∧
      (recognize (l.render ++ body)).bodyText = body ∧
      s.nodes.map (Node.read (l.render ++ body)) = l.pieces.filter (!·.text.isEmpty) := by
  refine ⟨l.shebang, ?_, rfl, rfl, rfl, rfl, rfl, bodyText_rendered h body, nodes_read l body⟩
  rw [recognize_rendered h body]

def launcherLine : Line where
  lead := " "
  call := .viaLauncher "/usr/bin/" " \t" [("-i", " "), ("-S", "\t")] "zsh"
  tail := .arguments " " "--foo  bar" " "
  newline := "\r\n"

theorem launcherLine_wellFormed : launcherLine.WellFormed where
  lead := by decide
  call := by decide
  tail := by decide
  unlaunched := by simp [launcherLine]
  newline := Or.inr rfl

theorem recognize_launcherLine : launcherLine.WellFormed ∧
    ∃ s, (recognize (launcherLine.render ++ "#!/bin/sh\n")).shebang = some s ∧
      s.form = .viaLauncher ∧ s.pathPrefix = "/usr/bin/" ∧ s.launcherFlags = ["-i", "-S"] ∧
      s.interpreterToken = "zsh" ∧ s.arguments = some "--foo  bar" ∧
      (recognize (launcherLine.render ++ "#!/bin/sh\n")).bodyText = "#!/bin/sh\n" ∧
      s.nodes.map (Node.read (launcherLine.render ++ "#!/bin/sh\n")) =
        [⟨.marker, "#!"⟩, ⟨.whitespace, " "⟩, ⟨.launcherPath, "/usr/bin/env"⟩,
          ⟨.whitespace, " \t"⟩, ⟨.launcherFlag, "-i"⟩, ⟨.whitespace, " "⟩, ⟨.launcherFlag, "-S"⟩,
          ⟨.whitespace, "\t"⟩, ⟨.launcherInterpreter, "zsh"⟩, ⟨.whitespace, " "⟩,
          ⟨.arguments, "--foo  bar"⟩, ⟨.whitespace, " "⟩, ⟨.newline, "\r\n"⟩] :=
  ⟨launcherLine_wellFormed, recognize_render launcherLine_wellFormed "#!/bin/sh\n"⟩

end Shebang
