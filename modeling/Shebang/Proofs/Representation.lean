import Shebang.Proofs.Candidates
import Shebang.Proofs.Entries
import Shebang.Proofs.Regrouping

/-!
What every draft keeps that is made of the built-in languages and of tables. Names are in agreement
on all sides, extensions have no leading dots, and what is not set has its default; so nothing is
lost or confused when a draft is frozen and its languages are registered.
-/

namespace Shebang

def Language.Dotless (l : Language) : Prop := ∀ x ∈ l.extensions, x.head? ≠ some '.'

theorem Collation.collate_dotless {base top : Language} (mode : Collation) (hbase : base.Dotless)
    (htop : top.Dotless) (set : SetKeys) : (mode.collate base top set).Dotless := by
  intro x hx
  have hfrom : x ∈ base.extensions ∨ x ∈ top.extensions := by
    simp only [collate] at hx
    split at hx
    · cases mode with
      | revise => exact .inr hx
      | merge => exact List.mem_append.mp (List.mem_eraseDups.mp hx)
    · exact .inl hx
  exact hfrom.elim (hbase x) (htop x)

namespace Draft

variable {d d' lower upper : Draft} {data : Table} {file : Option Path}

def Dotless (d : Draft) : Prop := ∀ name l, d.languages.find? name = some l → l.Dotless

theorem Describes.dotless {e : Text × Value} {row : Language × SetKeys} (h : Describes e row) :
    row.1.Dotless := by
  cases h with
  | fields _ hbare =>
    intro x hx
    obtain ⟨t, -, rfl⟩ := List.mem_map.mp ((forall_undotted_iff.mp hbare).symm ▸ hx)
    exact (undotted_iff.mpr rfl).rest

theorem Dotless.record {row : Language × SetKeys} (h : d.Dotless) (hrow : row.1.Dotless) :
    (d.record row).Dotless := by
  intro name l hl
  rw [Draft.record, OrderedMap.find?_put] at hl
  split at hl
  · exact Option.some.inj hl ▸ hrow
  · exact h name l hl

theorem ofTable_dotless (h : ofTable data file = .ok d) : d.Dotless := by
  obtain ⟨entries, -, h⟩ := Attempt.bind_eq_ok.mp (Attempt.mapError_eq_ok.mp h)
  have hempty : Dotless ⟨[], [], file.toList⟩ := fun _ _ hl => nomatch hl
  refine Attempt.foldlM_invariant ?_ hempty h
  intro d e d' hd hadd
  rw [addEntry_eq] at hadd
  cases hr : readEntry e.1 e.2 with
  | error problem =>
    rw [hr] at hadd
    cases hadd
  | ok row =>
    rw [hr] at hadd
    exact Except.ok.inj hadd ▸ hd.record (readEntry_describes hr).dotless

theorem Dotless.mergeWith (hl : lower.Dotless) (hu : upper.Dotless)
    (hn : upper.languages.keys.Nodup) (mode : Collation) :
    (lower.mergeWith upper mode).Dotless := by
  intro name l h
  rcases mergeWith_cases hn h with ⟨-, hlow⟩ | ⟨-, hup⟩ | ⟨base, top, hlow, hup, rfl⟩
  · exact hl name l hlow
  · exact hu name l hup
  · exact mode.collate_dotless (hl name base hlow) (hu name top hup) _

theorem Built.dotless (h : Built d) : d.Dotless := by
  induction h with
  | defaults => exact ofTable_dotless ofTable_defaultTable
  | table h => exact ofTable_dotless h
  | merged mode _ hupper hl hu => exact hl.mergeWith hu hupper.tidy.nodup mode

/-- What the parts of a draft have to do with each other and with its registry. -/
structure Sound (d : Draft) : Prop where
  named : ∀ e ∈ d.languages, e.2.name = e.1
  distinct : d.languages.keys.Nodup
  dotless : ∀ e ∈ d.languages, e.2.Dotless
  recorded : d.setKeys.keys = d.languages.keys
  covered : ∀ name l set, (name, l) ∈ d.languages → (name, set) ∈ d.setKeys → set.Covers l
  listed : d.registry.languages = d.languages.values
  places : d.registry.names = d.languages.keys
  found : ∀ name, d.registry.find? name = d.languages.find? name

theorem Tidy.sound (h : d.Tidy) (hdotless : d.Dotless) : d.Sound where
  named := fun _ he => (h.named_of_mem he).2
  distinct := h.nodup
  dotless := fun e he => hdotless e.1 e.2 (h.named_of_mem he).1
  recorded := h.keys
  covered := by
    intro name l set hl hset
    have hn : d.setKeys.keys.Nodup := h.keys ▸ h.nodup
    exact h.covered name l set ((OrderedMap.find?_eq_some h.nodup).mpr hl)
      ((OrderedMap.find?_eq_some hn).mpr hset)
  listed := by rw [Registry.languages, h.registry]
  places := h.names_registry
  found := fun name => by rw [Registry.find?, h.registry]

/-- Every draft that can be made is sound. -/
theorem built_sound (h : Built d) : d.Sound := h.tidy.sound h.dotless

theorem kshDraft_built : Built kshDraft :=
  Built.table (show ofTable kshTable (some (.ofText "a.toml")) = .ok kshDraft from rfl)

theorem built_sound_layers :
    Built ((defaults.mergeWith extended .merge).mergeWith (kshDraft.mergeWith described .revise)
      .merge) ∧
    Sound ((defaults.mergeWith extended .merge).mergeWith (kshDraft.mergeWith described .revise)
      .merge) := by
  have hbuilt : Built ((defaults.mergeWith extended .merge).mergeWith
      (kshDraft.mergeWith described .revise) .merge) :=
    .merged .merge (.merged .merge .defaults extended_built)
      (.merged .revise kshDraft_built described_built)
  exact ⟨hbuilt, built_sound hbuilt⟩

end Draft

end Shebang
