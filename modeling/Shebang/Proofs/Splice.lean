import Shebang.Injection
import Shebang.Proofs.Attempt
import Shebang.Proofs.Partition
import Shebang.Proofs.RoundTrip

/-!
Formatting a body below its shebang line. The line is copied, so the formatted text is recognized
with the same line and the same tag, and formatting once more sees the formatted body.
-/

namespace Shebang

open Line

variable {ε : Type}

def recorded (format : Text → Tag → Except ε Text) (body : Text) (tag : Tag) :
    ExceptT ε (Recorded (Text × Tag)) Text :=
  ExceptT.mk ⟨format body tag, [(body, tag)]⟩

def splice (format : Text → Tag → Except ε Text) (text : Text) :
    Recorded (Text × Tag) (Except ε Text) :=
  (applyInjection (fun _ => pure ()) (recorded format) text).run

def formatBody (format : Text → Tag → Text) (text : Text) : Text :=
  Id.run (applyInjection (fun _ => pure ()) (fun body tag => pure (format body tag)) text)

def Script.Names (s : Script) (tag : Tag) : Prop :=
  ∃ line, s.shebang = some line ∧
    (line.interpreterToken = "bash" ∧ tag = .bash ∨ line.interpreterToken = "zsh" ∧ tag = .zsh)

theorem names_iff (text : Text) (tag : Tag) :
    (recognize text).Names tag ↔ (recognize text).tag = tag ∧ tag ≠ .none := by
  rw [Script.Names, recognize_tag]
  cases hs : (recognize text).shebang with
  | none => simp [tagOf, eq_comm]
  | some line =>
    simp only [Option.some.injEq, exists_eq_left', tagOf, recognize_interpreter hs,
      Interpreter.ofToken]
    by_cases hb : line.interpreterToken = "bash"
    · cases tag <;> simp [hb, Interpreter.tag]
    · by_cases hz : line.interpreterToken = "zsh"
      · cases tag <;> simp [hz, Interpreter.tag]
      · rw [if_neg hb, if_neg hz]
        cases tag <;> simp only [hb, hz] <;> simp [Interpreter.tag]

theorem findInjection_eq (s : Script) :
    findInjection s =
      if tagOf s.shebang = .none then none else some ⟨tagOf s.shebang, s.body⟩ := by
  rw [findInjection]
  cases tagOf s.shebang <;> rfl

section Equations

variable {m : Type → Type} [Monad m] [LawfulMonad m]

theorem forM_quiet (log : List Diagnostic) :
    log.forM (fun _ => (pure () : m Unit)) = pure () := by
  induction log with
  | nil => rfl
  | cons d log ih =>
    change (pure () >>= fun _ => log.forM fun _ => pure ()) = (pure () : m Unit)
    rw [pure_bind, ih]

theorem applyInjection_quiet (format : Text → Tag → m Text) (text : Text) :
    applyInjection (fun _ => pure ()) format text =
      if (recognize text).tag = .none then pure text
      else ((recognize text).headerText ++ ·) <$>
        format (recognize text).bodyText (recognize text).tag := by
  simp only [applyInjection, recognizeTraced, findInjectionTraced, forM_quiet, pure_bind,
    findInjection_eq, ← recognize_tag]
  by_cases ht : (recognize text).tag = .none
  · simp [ht]
  · simp [ht]
    rfl

end Equations

theorem splice_eq (format : Text → Tag → Except ε Text) (text : Text) :
    splice format text =
      if (recognize text).tag = .none then ⟨.ok text, []⟩
      else ⟨(format (recognize text).bodyText (recognize text).tag).map
          ((recognize text).headerText ++ ·),
        [((recognize text).bodyText, (recognize text).tag)]⟩ := by
  rw [splice, applyInjection_quiet]
  split
  · rfl
  · rw [ExceptT.run_map, recorded]
    cases format (recognize text).bodyText (recognize text).tag <;> rfl

theorem formatBody_eq (format : Text → Tag → Text) (text : Text) :
    formatBody format text =
      if (recognize text).tag = .none then text
      else (recognize text).headerText ++
        format (recognize text).bodyText (recognize text).tag := by
  rw [formatBody, applyInjection_quiet]
  split <;> rfl

section Respliced

variable {text : Text}

theorem headerText_rendered {l : Line} (h : l.WellFormed) (body : Text) :
    (recognize (l.render ++ body)).headerText = l.render := by
  rw [recognize_rendered h body]
  exact List.take_left

/-- Below the header of a text any body will do: the line is recognized again, and nothing else. -/
theorem recognize_respliced {line : ShebangLine} (h : (recognize text).shebang = some line)
    (body : Text) :
    (recognize ((recognize text).headerText ++ body)).shebang = some line ∧
      (recognize ((recognize text).headerText ++ body)).headerText =
        (recognize text).headerText ∧
      (recognize ((recognize text).headerText ++ body)).bodyText = body := by
  obtain ⟨l, old, hl, rfl, rfl⟩ := shebang_eq_some_iff.mp h
  rw [headerText_rendered hl old]
  refine ⟨?_, headerText_rendered hl body, bodyText_rendered hl body⟩
  rw [recognize_rendered hl body]

theorem shebang_of_tag (h : (recognize text).tag ≠ .none) :
    ∃ line, (recognize text).shebang = some line := by
  rw [← Option.isSome_iff_exists]
  by_contra hn
  rw [Option.not_isSome_iff_eq_none] at hn
  exact h (by rw [recognize_tag, hn, tagOf])

theorem tag_respliced (h : (recognize text).tag ≠ .none) (body : Text) :
    (recognize ((recognize text).headerText ++ body)).tag = (recognize text).tag := by
  obtain ⟨line, hline⟩ := shebang_of_tag h
  rw [recognize_tag, recognize_tag, (recognize_respliced hline body).1, hline]

/-- Formatting twice is formatting once with the formatters one after the other. -/
theorem formatBody_comp (f g : Text → Tag → Text) (text : Text) :
    formatBody g (formatBody f text) = formatBody (fun body tag => g (f body tag) tag) text := by
  by_cases ht : (recognize text).tag = .none
  · have hsame : ∀ f, formatBody f text = text := fun f => by rw [formatBody_eq, if_pos ht]
    rw [hsame, hsame, hsame]
  · obtain ⟨line, hline⟩ := shebang_of_tag ht
    obtain ⟨-, hheader, hbody⟩ :=
      recognize_respliced hline (f (recognize text).bodyText (recognize text).tag)
    have htag := tag_respliced ht (f (recognize text).bodyText (recognize text).tag)
    rw [formatBody_eq f, if_neg ht, formatBody_eq g, htag, if_neg ht, hheader, hbody,
      formatBody_eq _ text, if_neg ht]

theorem formatBody_id (text : Text) : formatBody (fun body _ => body) text = text := by
  rw [formatBody_eq]
  split
  · rfl
  · exact recognize_reconstruct text

end Respliced

/-- What formatting does to a text: the body of a known interpreter is formatted, once and with its
tag, and put behind the same line; any other text stays as it is. -/
structure Splicing (text : Text) : Prop where
  formats : ∀ tag, (recognize text).Names tag → ∀ (ε : Type) (f : Text → Tag → Except ε Text),
    splice f text = ⟨(f (recognize text).bodyText tag).map ((recognize text).headerText ++ ·),
      [((recognize text).bodyText, tag)]⟩
  recognized : ∀ tag, (recognize text).Names tag → ∀ body,
    (recognize ((recognize text).headerText ++ body)).shebang = (recognize text).shebang ∧
    (recognize ((recognize text).headerText ++ body)).tag = tag ∧
    (recognize ((recognize text).headerText ++ body)).bodyText = body
  untouched : (∀ tag, ¬ (recognize text).Names tag) →
    ∀ (ε : Type) (f : Text → Tag → Except ε Text), splice f text = ⟨.ok text, []⟩
  tag_eq : (recognize text).tag = tagOf (recognize text).shebang
  interpreter : ∀ line, (recognize text).shebang = some line →
    line.interpreter = .ofToken line.interpreterToken
  injection : findInjection (recognize text) =
    if (recognize text).tag = .none then none
    else some ⟨(recognize text).tag, (recognize text).body⟩
  comp : ∀ f g, formatBody g (formatBody f text) =
    formatBody (fun body tag => g (f body tag) tag) text
  id : formatBody (fun body _ => body) text = text
  idempotent : ∀ f, (∀ body tag, f (f body tag) tag = f body tag) →
    formatBody f (formatBody f text) = formatBody f text

theorem applyInjection_splices (text : Text) : Splicing text where
  formats tag hn ε f := by
    obtain ⟨rfl, ht⟩ := (names_iff _ tag).mp hn
    rw [splice_eq, if_neg ht]
  recognized tag hn body := by
    obtain ⟨rfl, ht⟩ := (names_iff _ tag).mp hn
    obtain ⟨line, hline⟩ := shebang_of_tag ht
    obtain ⟨hs, -, hb⟩ := recognize_respliced hline body
    exact ⟨hs.trans hline.symm, tag_respliced ht body, hb⟩
  untouched hn ε f := by
    have ht : (recognize text).tag = .none := by
      by_contra ht
      exact hn _ ((names_iff _ _).mpr ⟨rfl, ht⟩)
    rw [splice_eq, if_pos ht]
  tag_eq := recognize_tag text
  interpreter _ := recognize_interpreter
  injection := findInjection_eq _
  comp f g := formatBody_comp f g text
  id := formatBody_id text
  idempotent f hf := by
    rw [formatBody_comp]
    simp only [hf]

/-- A body that looks like another script, and a formatter that refuses it. -/
theorem splice_refused : (recognize "#!/bin/bash\n#!/bin/zsh\n").Names .bash ∧
    splice (fun body _ => (.error body : Except Text Text)) "#!/bin/bash\n#!/bin/zsh\n" =
      ⟨.error "#!/bin/zsh\n", [("#!/bin/zsh\n", .bash)]⟩ ∧
    (recognize (("#!/bin/bash\n" : Text) ++ ("\r\n" : Text))).tag = .bash := by
  have hn : (recognize "#!/bin/bash\n#!/bin/zsh\n").Names .bash :=
    (names_iff _ _).mpr (by decide +kernel)
  have hs := applyInjection_splices "#!/bin/bash\n#!/bin/zsh\n"
  have hb : (recognize "#!/bin/bash\n#!/bin/zsh\n").bodyText = "#!/bin/zsh\n" := by
    decide +kernel
  have hh : (recognize "#!/bin/bash\n#!/bin/zsh\n").headerText = "#!/bin/bash\n" := by
    decide +kernel
  refine ⟨hn, ?_, ?_⟩
  · rw [hs.formats .bash hn, hb]
    rfl
  · rw [← hh]
    exact (hs.recognized .bash hn "\r\n").2.1

end Shebang
