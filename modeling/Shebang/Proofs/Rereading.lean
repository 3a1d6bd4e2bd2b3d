import Shebang.Proofs.Agreement
import Shebang.Proofs.Regrouping

/-!
Files that are read more than once, in one run or in two. What a file contributes depends on its
name and its content alone, so the runs of a program differ by the files that they read, and a file
that is read again contributes the same layer.
-/

namespace Shebang

namespace Draft

theorem Tidy.withFiles {d : Draft} (h : d.Tidy) (files : List Path) : (d.withFiles files).Tidy :=
  ⟨h.keys, h.nodup, h.named, h.covered⟩

end Draft

namespace Config

variable {fs fs' : FileSystem} {toml : Toml.Parser} {path path' : Path} {mode : Collation}
  {d : Draft} {found found' : Option Draft} {files files' : List Path}
  {stack stack' : List (Path × Draft)}

theorem loadTable_reread {data : Table} (hr : fs'.read path' = fs.read path)
    (h : (loadTable fs toml path).outcome = .ok data) :
    (loadTable fs' toml path').outcome = .ok data := by
  rw [loadTable_outcome] at h ⊢
  rw [hr]
  cases hc : fs.read path with
  | error e => cases e <;> simp [hc] at h
  | ok bytes =>
    cases hd : Utf8.decode bytes with
    | error e => simp [hc, hd] at h
    | ok text =>
      cases hp : toml (unifyLineEnds text) with
      | error e => cases e <;> simp [hc, hd, hp] at h
      | ok data' => simpa [hc, hd, hp] using h

theorem ofTable_reread {own : Table} {layer : Draft}
    (h : Draft.ofTable own (some path) = .ok layer) (path' : Path) :
    Draft.ofTable own (some path') = .ok (layer.withFiles [path']) := by
  rw [Draft.ofTable_some] at h ⊢
  cases hd : Draft.ofData own with
  | error problem =>
    rw [hd] at h
    cases h
  | ok data =>
    rw [hd] at h
    obtain rfl := Except.ok.inj h
    rfl

theorem Contribution.reread (h : Contribution fs toml path found) (hname : path'.name = path.name)
    (hr : fs'.read path' = fs.read path) :
    Contribution fs' toml path' (found.map (Draft.withFiles [path'])) := by
  cases h with
  | whole hp hd hl => exact .whole (hname ▸ hp) (loadTable_reread hr hd) (ofTable_reread hl path')
  | part hp hd ht hl =>
    exact .part (hname ▸ hp) (loadTable_reread hr hd) ht (ofTable_reread hl path')
  | nothing hp hd ht => exact .nothing (hname ▸ hp) (loadTable_reread hr hd) ht

theorem Contribution.unique (h : Contribution fs toml path found)
    (h' : Contribution fs toml path found') : found = found' := by
  have hload := loadLayer_of_contribution h
  rw [loadLayer_of_contribution h'] at hload
  exact (Except.ok.inj hload).symm

theorem Contribution.again (h : Contribution fs toml path found)
    (hr : fs'.read path = fs.read path) : Contribution fs' toml path found := by
  have hagain := h.reread rfl hr
  cases found with
  | none => exact hagain
  | some layer =>
    have hfiles : layer.withFiles [path] = layer := by
      rw [Draft.withFiles, ← h.tidy.2]
    rw [← hfiles]
    exact hagain

theorem Stack.split (h : Stack fs toml (files ++ files') stack) :
    ∃ below above, stack = below ++ above ∧ Stack fs toml files below ∧
      Stack fs toml files' above := by
  induction files generalizing stack with
  | nil => exact ⟨[], stack, rfl, .empty, h⟩
  | cons path files ih =>
    cases h with
    | layer hc hs =>
      obtain ⟨below, above, rfl, hb, ha⟩ := ih hs
      exact ⟨_ :: below, above, rfl, .layer hc hb, ha⟩
    | skip hc hs =>
      obtain ⟨below, above, rfl, hb, ha⟩ := ih hs
      exact ⟨below, above, rfl, .skip hc hb, ha⟩

theorem Stack.mem_iff (h : Stack fs toml files stack) {layer : Draft} :
    (path, layer) ∈ stack ↔ path ∈ files ∧ Contribution fs toml path (some layer) := by
  induction h with
  | empty => simp
  | @layer file own files stack hc _ ih =>
    rw [List.mem_cons, List.mem_cons, ih]
    constructor
    · rintro (he | ⟨hm, hl⟩)
      · obtain ⟨rfl, rfl⟩ := Prod.mk.inj he
        exact ⟨.inl rfl, hc⟩
      · exact ⟨.inr hm, hl⟩
    · rintro ⟨rfl | hm, hl⟩
      · exact .inl (by rw [Option.some.inj (hl.unique hc)])
      · exact .inr ⟨hm, hl⟩
  | @skip file files stack hc _ ih =>
    rw [List.mem_cons, ih]
    constructor
    · rintro ⟨hm, hl⟩
      exact ⟨.inr hm, hl⟩
    · rintro ⟨rfl | hm, hl⟩
      · cases hl.unique hc
      · exact ⟨hm, hl⟩

/-- The draft that layers make, put on a lower one in their order. -/
def pile (mode : Collation) (d : Draft) (stack : List (Path × Draft)) : Draft :=
  (stack.map Prod.snd).foldl (·.mergeWith · mode) d

theorem Stack.foldlM (h : Stack fs toml files stack) (mode : Collation) (d : Draft) :
    files.foldlM (fun d path => (addExtra fs toml mode d path).outcome) d =
      .ok (pile mode d stack) := by
  induction h generalizing d with
  | empty => rfl
  | layer hc _ ih =>
    rw [List.foldlM_cons, addExtra_of_contribution hc]
    exact ih _
  | skip hc _ ih =>
    rw [List.foldlM_cons, addExtra_of_contribution hc]
    exact ih _

/-- A run ends well exactly if its files can be looked for and all of them load, and then its draft
is their layers on the built-in languages. -/
theorem loadMerged_eq_ok_iff {sources : Sources} : (loadMerged fs toml sources).outcome = .ok d ↔
    (∃ found, searched fs sources = .ok found) ∧
      ∃ stack, Stack fs toml (sources.files fs) stack ∧
        d = pile sources.collation Draft.defaults stack := by
  rcases searched_cases fs sources with ⟨found, hs, hfiles, hfound⟩ | ⟨e, hs, -⟩
  · rw [loadMerged_searched hs hfound, ← hfiles]
    constructor
    · intro h
      refine ⟨⟨found, hs⟩, ?_⟩
      rw [← Attempt.outcome_foldlM] at h
      exact foldlM_stack (fun _ _ _ h => addExtra_addFile h) h
    · rintro ⟨-, stack, hstack, rfl⟩
      exact hstack.foldlM _ _
  · rw [loadMerged_unsearched hs, hs]
    simp

theorem loadMerged_tidy {sources : Sources} (h : (loadMerged fs toml sources).outcome = .ok d) :
    d.Tidy := by
  obtain ⟨-, stack, hs, rfl⟩ := loadMerged_eq_ok_iff.mp h
  exact Draft.defaults_tidy.foldl hs.tidy _

theorem Stack.layered (h : Stack fs toml files stack) (mode : Collation) :
    Draft.Layered mode (Draft.defaults :: stack.map Prod.snd) (pile mode Draft.defaults stack) :=
  Draft.defaults_tidy.layered.foldl h.tidy

end Config

end Shebang
