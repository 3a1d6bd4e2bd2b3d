import Shebang.Config.Draft
import Shebang.Proofs.Attempt
import Shebang.Proofs.OrderedMap

/-!
Drafts that come from tables, and what lies in two drafts when one is put on top of the other.
-/

namespace Shebang

def SetKeys.Covers (keys : SetKeys) (l : Language) : Prop :=
  (keys.extensions = false → l.extensions = []) ∧ (keys.description = false → l.description = [])

theorem SetKeys.none_union (a : SetKeys) : none.union a = a := by
  simp [union, none]

namespace Draft

open Attempt (bind_eq_ok mapError_eq_ok foldlM_invariant)

/-- A draft with one language and one record of keys for each of its names. -/
structure Tidy (d : Draft) : Prop where
  keys : d.setKeys.keys = d.languages.keys
  nodup : d.languages.keys.Nodup
  named : ∀ name l, d.languages.find? name = some l → l.name = name
  covered : ∀ name l set, d.languages.find? name = some l → d.setKeys.find? name = some set →
    set.Covers l

section Read

variable {d d' : Draft} {name : Text} {l : Language} {set : SetKeys} {data : Table}
  {file : Option Path}

theorem readExtensions_unset {fields : Table} {extensions : List Text}
    (hf : fields.contains "extensions" = false)
    (h : readExtensions name fields = .ok extensions) : extensions = [] := by
  rw [OrderedMap.contains, Option.isSome_eq_false_iff, Option.isNone_iff_eq_none] at hf
  rw [readExtensions, hf] at h
  exact (Except.ok.inj h).symm

theorem readDescription_unset {fields : Table} {description : Text}
    (hf : fields.contains "description" = false)
    (h : readDescription name fields = .ok description) : description = [] := by
  rw [OrderedMap.contains, Option.isSome_eq_false_iff, Option.isNone_iff_eq_none] at hf
  rw [readDescription, hf] at h
  exact (Except.ok.inj h).symm

theorem readEntry_covers {value : Value} (h : readEntry name value = .ok (l, set)) :
    l.name = name ∧ set.Covers l := by
  cases value with
  | table fields =>
    obtain ⟨extensions, he, h⟩ := bind_eq_ok.mp h
    obtain ⟨description, hd, h⟩ := bind_eq_ok.mp h
    cases h
    refine ⟨rfl, fun hf => ?_, fun hf => ?_⟩
    · exact readExtensions_unset hf he
    · exact readDescription_unset hf hd
  | _ => cases h

theorem Tidy.put (h : d.Tidy) (hname : l.name = name) (hset : set.Covers l) :
    Tidy ⟨d.languages.put name l, d.setKeys.put name set, d.configFiles⟩ where
  keys := OrderedMap.keys_put_eq _ _ h.keys
  nodup := OrderedMap.nodup_keys_put h.nodup
  named := by
    intro other x hx
    rw [OrderedMap.find?_put] at hx
    by_cases ho : other = name
    · rw [if_pos ho] at hx
      exact Option.some.inj hx ▸ hname.trans ho.symm
    · rw [if_neg ho] at hx
      exact h.named other x hx
  covered := by
    intro other x keys hx hk
    rw [OrderedMap.find?_put] at hx hk
    by_cases ho : other = name
    · rw [if_pos ho] at hx hk
      exact Option.some.inj hx ▸ Option.some.inj hk ▸ hset
    · rw [if_neg ho] at hx hk
      exact h.covered other x keys hx hk

theorem addEntry_tidy {entry : Text × Value} (h : d.Tidy) (ha : addEntry d entry = .ok d') :
    d'.Tidy ∧ d'.configFiles = d.configFiles := by
  obtain ⟨⟨l, set⟩, he, ha⟩ := bind_eq_ok.mp ha
  obtain ⟨hname, hset⟩ := readEntry_covers he
  cases ha
  exact ⟨h.put hname hset, rfl⟩

theorem ofTable_tidy (h : ofTable data file = .ok d) : d.Tidy ∧ d.configFiles = file.toList := by
  obtain ⟨entries, -, h⟩ := bind_eq_ok.mp (mapError_eq_ok.mp h)
  have hempty : Tidy ⟨[], [], file.toList⟩ :=
    ⟨rfl, List.nodup_nil, fun _ _ h => (nomatch h), fun _ _ _ h => (nomatch h)⟩
  refine foldlM_invariant (P := fun d => d.Tidy ∧ d.configFiles = file.toList) ?_ ⟨hempty, rfl⟩ h
  rintro b entry b' ⟨hb, hfiles⟩ ha
  obtain ⟨hb', hfiles'⟩ := addEntry_tidy hb ha
  exact ⟨hb', hfiles'.trans hfiles⟩

theorem defaults_tidy : defaults.Tidy := (ofTable_tidy ofTable_defaultTable).1

end Read

end Draft

/-- The language of a name when one more of that name is put on top, with these keys given. -/
def Collation.overlay (mode : Collation) (base : Option Language) (l : Language)
    (set : SetKeys) : Language :=
  match base with
  | none => l
  | some base => mode.collate base l set

namespace Draft

variable {mode : Collation} {lower upper : Draft} {name : Text} {l : Language}

theorem foldl_graft (mode : Collation) (setOf : Text → SetKeys) (entries : OrderedMap Language)
    (d : Draft) :
    entries.foldl (fun d e => d.graft mode e.1 e.2 (setOf e.1)) d =
      ⟨d.languages.putAll (fun name l base => mode.overlay base l (setOf name)) entries,
        d.setKeys.putAll (fun name _ set => (set.getD .none).union (setOf name)) entries,
        d.configFiles⟩ := by
  induction entries generalizing d with
  | nil => rfl
  | cons e rest ih => exact ih (d.graft mode e.1 e.2 (setOf e.1))

theorem mergeWith_languages (lower upper : Draft) (mode : Collation) :
    (lower.mergeWith upper mode).languages = lower.languages.putAll
      (fun name l base => mode.overlay base l (upper.keysOf name)) upper.languages := by
  rw [mergeWith, foldl_graft]

theorem mergeWith_setKeys (lower upper : Draft) (mode : Collation) :
    (lower.mergeWith upper mode).setKeys = lower.setKeys.putAll
      (fun name _ set => (set.getD .none).union (upper.keysOf name)) upper.languages := by
  rw [mergeWith, foldl_graft]

theorem keys_mergeWith (hn : lower.languages.keys.Nodup) (upper : Draft) (mode : Collation) :
    (lower.mergeWith upper mode).languages.keys =
      (lower.languages.keys ++ upper.languages.keys).eraseDups := by
  rw [mergeWith_languages]
  exact OrderedMap.keys_putAll _ _ (eraseDups_of_nodup hn).symm

theorem nodup_mergeWith (hn : lower.languages.keys.Nodup) (upper : Draft) (mode : Collation) :
    (lower.mergeWith upper mode).languages.keys.Nodup := by
  rw [keys_mergeWith hn]
  exact nodup_eraseDups _

theorem find?_mergeWith (hn : upper.languages.keys.Nodup) (lower : Draft) (mode : Collation)
    (name : Text) :
    (lower.mergeWith upper mode).languages.find? name =
      match upper.languages.find? name with
      | none => lower.languages.find? name
      | some l => some (mode.overlay (lower.languages.find? name) l (upper.keysOf name)) := by
  rw [mergeWith_languages, OrderedMap.find?_putAll _ hn]
  cases upper.languages.find? name <;> rfl

theorem mergeWith_cases (hn : upper.languages.keys.Nodup)
    (h : (lower.mergeWith upper mode).languages.find? name = some l) :
    (upper.languages.find? name = none ∧ lower.languages.find? name = some l) ∨
    (lower.languages.find? name = none ∧ upper.languages.find? name = some l) ∨
    ∃ base top, lower.languages.find? name = some base ∧ upper.languages.find? name = some top ∧
      l = mode.collate base top (upper.keysOf name) := by
  rw [find?_mergeWith hn] at h
  cases hu : upper.languages.find? name with
  | none =>
    rw [hu] at h
    exact .inl ⟨rfl, h⟩
  | some top =>
    rw [hu] at h
    cases hl : lower.languages.find? name with
    | none =>
      rw [hl] at h
      exact .inr (.inl ⟨rfl, h⟩)
    | some base =>
      rw [hl] at h
      exact .inr (.inr ⟨base, top, rfl, rfl, (Option.some.inj h).symm⟩)

theorem find?_mergeWith_setKeys (hn : upper.languages.keys.Nodup) (lower : Draft)
    (mode : Collation) (name : Text) :
    (lower.mergeWith upper mode).setKeys.find? name =
      match upper.languages.find? name with
      | none => lower.setKeys.find? name
      | some _ => some (((lower.setKeys.find? name).getD .none).union (upper.keysOf name)) := by
  rw [mergeWith_setKeys, OrderedMap.find?_putAll _ hn]
  cases upper.languages.find? name <;> rfl

theorem Tidy.find?_setKeys {d : Draft} (h : d.Tidy) (hl : d.languages.find? name = some l) :
    d.setKeys.find? name = some (d.keysOf name) ∧ (d.keysOf name).Covers l := by
  cases hs : d.setKeys.find? name with
  | none =>
    rw [OrderedMap.find?_eq_none, h.keys, ← OrderedMap.find?_eq_none, hl] at hs
    cases hs
  | some set =>
    have hk : d.keysOf name = set := by rw [keysOf, hs, Option.getD_some]
    exact ⟨congrArg some hk.symm, hk ▸ h.covered name l set hl hs⟩

end Draft

end Shebang
