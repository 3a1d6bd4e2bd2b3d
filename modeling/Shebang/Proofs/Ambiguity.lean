import Shebang.Proofs.Files
import Shebang.Proofs.FirstLine

/-!
Files whose extension belongs to several languages. The first line decides between them by the name
of its tag, and a file without a known interpreter has a tag as well: a language that is called like
that tag is preferred to those before it.
-/

namespace Shebang

variable {r : Registry} {fs : FileSystem} {path : Path} {first second : Language}
  {others : List Language}

/-- The language that a tag chooses: the candidate of its name, if it is the tag of an interpreter
and there is one, and else the first candidate. -/
def preferred (tag : Tag) (first : Language) (others : List Language) : Language :=
  if tag = .none then first
  else ((first :: others).find? (·.name == tag.name)).getD first

theorem exists_tag (hn : '\x00' ∉ path.display) :
    ∃ tag, (shebangTag fs path).outcome = .ok tag := by
  rw [shebangTag_outcome, readShebangLine_outcome]
  cases hr : fs.read path with
  | ok content => exact ⟨_, rfl⟩
  | error e =>
    cases e with
    | embeddedNul => exact absurd (read_nul.mp hr) hn
    | refused why name => exact ⟨_, rfl⟩

theorem tag_nul (hn : '\x00' ∈ path.display) :
    (shebangTag fs path).outcome = .error .embeddedNul := by
  rw [shebangTag_outcome, readShebangLine_outcome, read_nul.mpr hn]
  rfl

theorem detect_several (hx : path.extension ≠ [])
    (hc : r.forExtension path.extension = first :: second :: others) :
    (r.detect fs path).outcome =
      ((shebangTag fs path).outcome.mapError .notOpened).map fun tag =>
        ((first :: second :: others).find? (·.name == tag.name)).getD first := by
  rw [Registry.detect, if_neg hx, hc]
  simp only [Registry.detectAmong, Registry.tagAt, Attempt.outcome_bind, Attempt.outcome_adapt]
  cases (shebangTag fs path).outcome with
  | error e => rfl
  | ok tag =>
    rw [Attempt.mapError_ok, Attempt.ok_bind, Except.map]
    cases (first :: second :: others).find? (·.name == tag.name) with
    | none => rfl
    | some l => rfl

/-- The choice by name is the preferred one unless the tag is no interpreter's and a language behind
the first is called like it. -/
theorem find_eq_preferred (tag : Tag) :
    ((first :: others).find? (·.name == tag.name)).getD first = preferred tag first others ↔
      (tag = .none → (∃ l ∈ others, l.name = Tag.none.name) → first.name = Tag.none.name) := by
  rw [preferred]
  by_cases ht : tag = .none
  · subst ht
    rw [if_pos rfl]
    by_cases hfirst : first.name = Tag.none.name
    · simp [hfirst]
    · rw [List.find?_cons_of_neg (by simpa using hfirst)]
      constructor
      · rintro hget - ⟨l, hl, hname⟩
        have hsome : (others.find? (·.name == Tag.none.name)).isSome :=
          List.find?_isSome.mpr ⟨l, hl, beq_iff_eq.mpr hname⟩
        obtain ⟨found, hf⟩ := Option.isSome_iff_exists.mp hsome
        rw [hf, Option.getD_some] at hget
        have hnamed := List.find?_some hf
        rw [hget] at hnamed
        exact beq_iff_eq.mp hnamed
      · intro h
        have hnone : others.find? (·.name == Tag.none.name) = none := by
          refine List.find?_eq_none.mpr fun l hl hname => ?_
          exact hfirst (h rfl ⟨l, hl, beq_iff_eq.mp hname⟩)
        rw [hnone, Option.getD_none]
  · simp [ht]

/-- Detection answers with the preferred language exactly when the path can be asked for and, for a
file without a known interpreter, no language behind the first has the name of the tag that stands
for none. -/
theorem detect_preferred_iff (hx : path.extension ≠ [])
    (hc : r.forExtension path.extension = first :: second :: others) :
    (∃ tag, (shebangTag fs path).outcome = .ok tag ∧
      (r.detect fs path).outcome = .ok (preferred tag first (second :: others))) ↔
    '\x00' ∉ path.display ∧ ((shebangTag fs path).outcome = .ok .none →
      (∃ l ∈ second :: others, l.name = Tag.none.name) → first.name = Tag.none.name) := by
  rw [detect_several hx hc]
  by_cases hn : '\x00' ∈ path.display
  · rw [tag_nul hn]
    simp [hn]
  · obtain ⟨tag, ht⟩ := exists_tag hn
    rw [ht]
    simp only [Attempt.mapError_ok, Except.map, Except.ok.injEq, exists_eq_left', find_eq_preferred,
      hn, not_false_eq_true, true_and]

def shadowing : Registry := .ofList [⟨"sh", ["x"], []⟩, ⟨"none", ["x"], []⟩]

def holding (text : Text) : FileSystem := ⟨fun _ => .regular (Utf8.encode text)⟩

theorem detect_preferred_zsh :
    Registry.builtin.forExtension (Path.ofText "a.sh").extension = Language.builtins ∧
    (shebangTag (holding "#!/bin/zsh\n") (.ofText "a.sh")).outcome = .ok .zsh ∧
    ∃ tag, (shebangTag (holding "#!/bin/zsh\n") (.ofText "a.sh")).outcome = .ok tag ∧
      (Registry.builtin.detect (holding "#!/bin/zsh\n") (.ofText "a.sh")).outcome =
        .ok (preferred tag ⟨"bash", ["bash", "sh"], "Bash scripts (*.bash, *.sh)"⟩
          [⟨"zsh", ["zsh", "sh"], "Zsh scripts (*.zsh, *.sh)"⟩]) := by
  have hx : (Path.ofText "a.sh").extension ≠ [] := by decide
  have hc : Registry.builtin.forExtension (Path.ofText "a.sh").extension = Language.builtins := by
    decide
  have ht : (shebangTag (holding "#!/bin/zsh\n") (.ofText "a.sh")).outcome = .ok .zsh := by
    decide +kernel
  refine ⟨hc, ht, (detect_preferred_iff hx hc).mpr ⟨by decide, fun h => ?_⟩⟩
  rw [ht] at h
  cases h

/-- A text file that is no script is taken for the language called like the missing interpreter,
and not for the first of its extension. -/
theorem detect_shadowed :
    shadowing.forExtension (Path.ofText "a.x").extension =
      [⟨"sh", ["x"], []⟩, ⟨"none", ["x"], []⟩] ∧
    (shebangTag (holding "echo\n") (.ofText "a.x")).outcome = .ok .none ∧
    (shadowing.detect (holding "echo\n") (.ofText "a.x")).outcome = .ok ⟨"none", ["x"], []⟩ ∧
    preferred .none ⟨"sh", ["x"], []⟩ [⟨"none", ["x"], []⟩] = ⟨"sh", ["x"], []⟩ := by
  decide +kernel

end Shebang
