import Shebang.Proofs.Recognition

/-!
Which texts have a shebang line, and in which form it is read. The regular expression of a launcher
line decides the form; a line that it does not fit is read as if there were no launchers.
-/

namespace Shebang

open Line

/-- Recognition with the direct form alone. -/
def Reading.directly (text : Text) : Option ShebangLine := Id.run do
  if text.take 2 = "#!" then
    match text.findIdx? (· == '\n') with
    | none => return none
    | some newline =>
      let (stop, front, place) ← Cursor.steps.opening text newline
      match ← Cursor.steps.direct place with
      | none => return none
      | some found => return some (← Cursor.steps.assemble stop newline front found)
  else return none

namespace Cursor

theorem viaLauncher_form {c : Cursor} {i : Invocation Cursor}
    (h : scanner.viaLauncher c = .ok i) : i.form = .viaLauncher := by
  obtain ⟨path, d, gap, e, flags, interpreter, -, -, -, -, rfl⟩ := viaLauncher_eq_ok h
  rfl

theorem readContent_direct {stop newline : Int} {front : List Node} {c : Cursor} {s : ShebangLine}
    (h : Reading.shebang? (scanner.readContent stop newline front c) = some s)
    (hf : s.form = .direct) :
    ∃ i, steps.direct c = some i ∧ steps.assemble stop newline front i = s := by
  simp only [Scanner.readContent, scanner_steps, plain_bind, plain_pure] at h
  cases hl : scanner.viaLauncher c with
  | ok i =>
    simp only [hl] at h
    obtain rfl := Option.some.inj h
    cases (viaLauncher_form hl).symm.trans hf
  | error failure =>
    cases hd : steps.direct c with
    | none =>
      simp only [hl, hd] at h
      cases h
    | some i =>
      simp only [hl, hd] at h
      exact ⟨i, rfl, Option.some.inj h⟩

end Cursor

/-- A line in direct form is the line that is read without the launcher form. -/
theorem Reading.directly_of_form {text : Text} {s : ShebangLine}
    (h : (ofText text).shebang? = some s) (hf : s.form = .direct) : directly text = some s := by
  unfold ofText Scanner.readText at h
  unfold directly
  split at h
  · next hm =>
    rw [if_pos hm]
    cases hn : text.findIdx? (· == '\n') with
    | none =>
      rw [hn] at h
      cases h
    | some newline =>
      rw [hn] at h
      generalize hopening : Cursor.steps.opening text newline = opened
      obtain ⟨stop, front, c⟩ := opened
      have hread : Reading.shebang? (Cursor.scanner.readContent stop newline front c) = some s := by
        rw [← h]
        simp only [Scanner.readLine, Cursor.scanner_steps, Cursor.plain_bind, hopening]
        rfl
      obtain ⟨i, hdirect, rfl⟩ := Cursor.readContent_direct hread hf
      simp only [Cursor.plain_bind, hopening, hdirect]
      rfl
  · cases h

theorem form_launcher {text : Text} {s : ShebangLine} (h : (recognize text).shebang = some s) :
    s.form = .viaLauncher ↔ Matches launcherPrefix text.firstContent := by
  obtain ⟨l, body, hl, rfl, rfl⟩ := shebang_eq_some_iff.mp h
  rw [render_eq, firstContent_terminated body (content_newline hl) hl.newline]
  exact (content_launched hl).symm

theorem shebang_isSome_iff (text : Text) : (recognize text).shebang.isSome ↔ Begins text := by
  rcases recognize_cases text with ⟨l, body, hl, rfl, hr⟩ | ⟨hb, hr⟩
  · simpa [hr] using begins_rendered hl body
  · simp [hr, hb]

/-- Acceptance and the choice between the forms, as the grammar has them. -/
theorem recognize_grammar (text : Text) :
    ((recognize text).shebang.isSome ↔
      text.take 2 = "#!" ∧ '\n' ∈ text ∧
        ∃ x, (text.firstContent.dropWhile isInlineSpace).head? = some x ∧ x ≠ '\r') ∧
    ∀ s, (recognize text).shebang = some s →
      (s.form = .viaLauncher ↔ ∃ u ∈ launcherPrefix, u <+: text.firstContent) ∧
      (s.form = .direct ↔ ¬ ∃ u ∈ launcherPrefix, u <+: text.firstContent) ∧
      (s.form = .direct → Reading.directly text = some s) := by
  constructor
  · rw [shebang_isSome_iff]
    exact ⟨fun h => ⟨h.marker, h.terminated, h.word⟩, fun ⟨hm, hf, hw⟩ => ⟨hm, hf, hw⟩⟩
  · intro s hs
    have hform := form_launcher hs
    refine ⟨hform, ?_, Reading.directly_of_form hs⟩
    rw [← show _ ↔ ∃ u ∈ launcherPrefix, u <+: text.firstContent from hform]
    cases s.form <;> simp

def flagsAlone : ShebangLine where
  form := .direct
  span := ⟨0, 21⟩
  nodes := [⟨.marker, ⟨0, 2⟩⟩, ⟨.interpreterPath, ⟨2, 11⟩⟩, ⟨.interpreterName, ⟨11, 14⟩⟩,
    ⟨.whitespace, ⟨14, 15⟩⟩, ⟨.arguments, ⟨15, 20⟩⟩, ⟨.newline, ⟨20, 21⟩⟩]
  pathPrefix := "/usr/bin/"
  launcherFlags := []
  interpreterToken := "env"
  interpreter := .unrecognized
  arguments := some "-S -i"

theorem recognize_flagsAlone :
    (recognize "#!/usr/bin/env -S -i\n").shebang = some flagsAlone ∧
    ¬ (∃ u ∈ launcherPrefix, u <+: Text.firstContent "#!/usr/bin/env -S -i\n") ∧
    Reading.directly "#!/usr/bin/env -S -i\n" = some flagsAlone := by
  have hs : (recognize "#!/usr/bin/env -S -i\n").shebang = some flagsAlone := by decide +kernel
  obtain ⟨-, hform, hdirect⟩ := (recognize_grammar _).2 _ hs
  exact ⟨hs, hform.mp rfl, hdirect rfl⟩

end Shebang
