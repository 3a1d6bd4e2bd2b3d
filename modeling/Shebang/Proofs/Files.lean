import Shebang.FileSystem

/-!
What the two questions to a file system have to do with each other: whether there is a file, and
what it holds.
-/

namespace Shebang

variable {fs : FileSystem} {path : Path} {content : Bytes}

theorem read_nul : fs.read path = .error .embeddedNul ↔ '\x00' ∈ path.display := by
  rw [FileSystem.read]
  by_cases hn : '\x00' ∈ path.display
  · simp [hn]
  · cases fs.lookup path.display <;> simp [hn]

/-- The system refuses a path for a reason that leaves open whether there is a file: a directory on
the way cannot be searched, a name is too long. -/
def Unanswered (fs : FileSystem) (path : Path) : Prop :=
  '\x00' ∉ path.display ∧ ∃ why, fs.lookup path.display = .refused why ∧ why.absent = false

theorem isFile_eq_error : (∃ e, fs.isFile path = .error e) ↔ Unanswered fs path := by
  rw [FileSystem.isFile, Unanswered]
  by_cases hn : '\x00' ∈ path.display
  · simp [hn]
  · cases fs.lookup path.display with
    | regular content => simp [hn]
    | unopened why => simp [hn]
    | directory why => simp [hn]
    | refused why => cases h : why.absent <;> simp [hn, h]

instance : Decidable (Unanswered fs path) :=
  decidable_of_iff ((fs.isFile path).toOption.isNone) (by
    rw [← isFile_eq_error]
    cases fs.isFile path <;> simp [Except.toOption])

theorem isFile_of_read (h : fs.read path = .ok content) : fs.isFile path = .ok true := by
  rw [FileSystem.read] at h
  by_cases hn : '\x00' ∈ path.display
  · simp [hn] at h
  · cases hl : fs.lookup path.display with
    | regular content => simp [FileSystem.isFile, hn, hl]
    | unopened why => simp [hn, hl] at h
    | directory why => simp [hn, hl] at h
    | refused why => simp [hn, hl] at h

theorem display_of_isFile (h : fs.isFile path = .ok true) : '\x00' ∉ path.display := by
  intro hn
  simp [FileSystem.isFile, hn] at h

theorem mem_splitOn {sep c : Char} {t piece : Text} (hp : piece ∈ t.splitOn sep) (hc : c ∈ piece) :
    c ∈ t := by
  induction t generalizing piece with
  | nil =>
    rw [List.mem_singleton.mp hp] at hc
    cases hc
  | cons d t ih =>
    rw [Text.splitOn] at hp
    by_cases hd : d = sep
    · rw [if_pos hd] at hp
      rcases List.mem_cons.mp hp with rfl | hp
      · cases hc
      · exact List.mem_cons_of_mem _ (ih hp hc)
    · rw [if_neg hd] at hp
      cases hs : Text.splitOn sep t with
      | nil =>
        rw [hs, List.mem_singleton] at hp
        rw [hp, List.mem_singleton] at hc
        exact hc ▸ List.mem_cons_self
      | cons first pieces =>
        rw [hs] at hp ih
        rcases List.mem_cons.mp hp with rfl | hp
        · rcases List.mem_cons.mp hc with rfl | hc
          · exact List.mem_cons_self
          · exact List.mem_cons_of_mem _ (ih List.mem_cons_self hc)
        · exact List.mem_cons_of_mem _ (ih (List.mem_cons_of_mem _ hp) hc)

theorem joinWith_singleton (sep part : Text) : Text.joinWith sep [part] = part := by
  rw [Text.joinWith, List.intercalate, List.intersperse_singleton, List.flatten_singleton]

theorem joinWith_cons (sep first : Text) {rest : List Text} (h : rest ≠ []) :
    Text.joinWith sep (first :: rest) = first ++ (sep ++ Text.joinWith sep rest) := by
  obtain ⟨second, rest, rfl⟩ := List.exists_cons_of_ne_nil h
  rw [Text.joinWith, List.intercalate, List.intersperse_cons_cons, List.flatten_cons,
    List.flatten_cons]
  rfl

theorem mem_joinWith {c : Char} {sep : Text} {parts : List Text} (h : c ∈ Text.joinWith sep parts) :
    c ∈ sep ∨ ∃ part ∈ parts, c ∈ part := by
  have hflat : ∀ parts : List Text, c ∈ (parts.intersperse sep).flatten →
      c ∈ sep ∨ ∃ part ∈ parts, c ∈ part := by
    intro parts
    induction parts with
    | nil => exact fun h => nomatch h
    | cons first rest ih =>
      cases rest with
      | nil => exact fun h => Or.inr ⟨first, List.mem_cons_self, by simpa using h⟩
      | cons second rest =>
        intro h
        rw [List.intersperse_cons_cons, List.flatten_cons, List.flatten_cons] at h
        rcases List.mem_append.mp h with h | h
        · exact Or.inr ⟨first, List.mem_cons_self, h⟩
        · rcases List.mem_append.mp h with h | h
          · exact Or.inl h
          · rcases ih h with h | ⟨part, hp, h⟩
            · exact Or.inl h
            · exact Or.inr ⟨part, List.mem_cons_of_mem _ hp, h⟩
  exact hflat parts h

/-- A path has no NUL that was not written. -/
theorem mem_display {t : Text} (h : '\x00' ∈ (Path.ofText t).display) : '\x00' ∈ t := by
  have hroot : '\x00' ∉ Path.rootOf t := by
    rw [Path.rootOf]
    split <;> decide
  have hjoin : '\x00' ∈ Path.rootOf t ++ Text.joinWith "/" (Path.ofText t).parts := by
    rw [Path.display] at h
    split at h
    · exact absurd h (by decide)
    · exact h
  rcases List.mem_append.mp hjoin with hm | hm
  · exact absurd hm hroot
  · rcases mem_joinWith hm with hm | ⟨part, hpart, hm⟩
    · exact absurd hm (by decide)
    · exact mem_splitOn (List.mem_filter.mp hpart).1 hm

end Shebang
