import Shebang.Proofs.Regrouping

/-!
Languages without a record of their keys. On top of other layers they count as given with all keys.
Below another layer they do not: what that layer sets becomes the whole record, so that in the end
the keys it leaves out are taken from the lowest layer and not from the one between.
-/

namespace Shebang

variable {mode : Collation} {name : Text} {set : SetKeys} {base l top : Language}

/-- Putting all of a language on `base` changes none of the keys that are not in `set`. -/
structure Collation.Idle (mode : Collation) (base l : Language) (set : SetKeys) : Prop where
  extensions : set.extensions = false → (mode.collate base l .all).extensions = base.extensions
  description : set.description = false → l.description = base.description

theorem Collation.collate_eq_iff (top : Language) :
    mode.collate base (mode.collate l top set) set =
      mode.collate base (mode.collate l top set) .all ↔ mode.Idle base l set := by
  obtain ⟨extensions, description⟩ := set
  constructor
  · intro h
    have he := congrArg Language.extensions h
    have hd := congrArg Language.description h
    constructor
    · rintro rfl
      exact he.symm
    · rintro rfl
      exact hd.symm
  · rintro ⟨he, hd⟩
    refine congrArg₂ (Language.mk base.name) ?_ ?_
    · cases extensions with
      | false => exact (he rfl).symm
      | true => rfl
    · cases description with
      | false => exact (hd rfl).symm
      | true => rfl

namespace Draft

variable {lower upper d : Draft}

/-- Both drafts have the language, and the lower one has no record of its keys. -/
structure Masked (d upper : Draft) (name : Text) : Prop where
  below : d.languages.find? name ≠ none
  unrecorded : d.setKeys.find? name = none
  above : upper.languages.find? name ≠ none

/-- If the language is masked, then the keys that `upper` leaves out of it are in `d` as they are in
`lower`, where there is such a language. -/
def Inert (mode : Collation) (lower d upper : Draft) (name : Text) : Prop :=
  Masked d upper name → ∀ base l, lower.languages.find? name = some base →
    d.languages.find? name = some l → mode.Idle base l (upper.keysOf name)

/-- The draft with all keys recorded for every language that has no record. -/
def filled (d : Draft) : Draft :=
  { d with setKeys := d.setKeys.putAll (fun _ _ set => set.getD .all) d.languages }

theorem find?_filled (hn : d.languages.keys.Nodup) (name : Text) :
    d.filled.setKeys.find? name =
      match d.languages.find? name with
      | none => d.setKeys.find? name
      | some _ => some (d.keysOf name) := by
  rw [filled, OrderedMap.find?_putAll _ hn]
  cases d.languages.find? name <;> rfl

theorem keysOf_filled (hn : d.languages.keys.Nodup) : d.filled.keysOf = d.keysOf := by
  funext name
  rw [keysOf, find?_filled hn]
  cases d.languages.find? name <;> rfl

theorem mergeWith_filled (hn : upper.languages.keys.Nodup) :
    lower.mergeWith upper.filled mode = lower.mergeWith upper mode := by
  rw [mergeWith, mergeWith, keysOf_filled hn]
  rfl

theorem filled_mergeWith_languages :
    (lower.filled.mergeWith upper mode).languages = (lower.mergeWith upper mode).languages := by
  rw [mergeWith_languages, mergeWith_languages]
  rfl

theorem keysOf_mergeWith (hu : upper.languages.keys.Nodup)
    (hup : upper.languages.find? name = some top) :
    (lower.mergeWith upper mode).keysOf name =
      ((lower.setKeys.find? name).getD .none).union (upper.keysOf name) := by
  rw [keysOf, find?_mergeWith_setKeys hu, hup]
  rfl

theorem keysOf_mergeWith_absent (hu : upper.languages.keys.Nodup)
    (hup : upper.languages.find? name = none) :
    (lower.mergeWith upper mode).keysOf name = lower.keysOf name := by
  rw [keysOf, find?_mergeWith_setKeys hu, hup]
  rfl

theorem keysOf_filled_mergeWith (hd : d.languages.keys.Nodup) (hu : upper.languages.keys.Nodup)
    (h : ¬ Masked d upper name) :
    (d.filled.mergeWith upper mode).keysOf name = (d.mergeWith upper mode).keysOf name := by
  cases hup : upper.languages.find? name with
  | none => rw [keysOf_mergeWith_absent hu hup, keysOf_mergeWith_absent hu hup, keysOf_filled hd]
  | some top =>
    rw [keysOf_mergeWith hu hup, keysOf_mergeWith hu hup, find?_filled hd]
    cases hl : d.languages.find? name with
    | none => rfl
    | some l =>
      have hs : d.setKeys.find? name ≠ none := fun hs => h ⟨by simp [hl], hs, by simp [hup]⟩
      obtain ⟨set, hs⟩ := Option.ne_none_iff_exists'.mp hs
      simp only [keysOf, hs, Option.getD_some]

theorem Masked.keysOf_mergeWith (h : Masked d upper name) (hu : upper.languages.keys.Nodup)
    (mode : Collation) : (d.mergeWith upper mode).keysOf name = upper.keysOf name := by
  obtain ⟨top, hup⟩ := Option.ne_none_iff_exists'.mp h.above
  rw [Draft.keysOf_mergeWith hu hup, h.unrecorded, Option.getD_none, SetKeys.none_union]

theorem Masked.keysOf_filled (h : Masked d upper name) (hd : d.languages.keys.Nodup)
    (hu : upper.languages.keys.Nodup) (mode : Collation) :
    (d.filled.mergeWith upper mode).keysOf name = .all := by
  obtain ⟨l, hl⟩ := Option.ne_none_iff_exists'.mp h.below
  obtain ⟨top, hup⟩ := Option.ne_none_iff_exists'.mp h.above
  rw [Draft.keysOf_mergeWith hu hup, find?_filled hd, hl, keysOf, h.unrecorded]
  rfl

theorem Masked.inert_iff (h : Masked d upper name) (hlow : lower.languages.find? name = some base)
    (hl : d.languages.find? name = some l) :
    Inert mode lower d upper name ↔ mode.Idle base l (upper.keysOf name) := by
  constructor
  · intro hi
    exact hi h base l hlow hl
  · intro hi _ base' l' hbase hl'
    obtain rfl := Option.some.inj (hlow.symm.trans hbase)
    obtain rfl := Option.some.inj (hl.symm.trans hl')
    exact hi

theorem find?_filled_iff (hd : d.languages.keys.Nodup) (hu : upper.languages.keys.Nodup)
    (name : Text) :
    (lower.mergeWith (d.mergeWith upper mode) mode).languages.find? name =
        (lower.mergeWith (d.filled.mergeWith upper mode) mode).languages.find? name ↔
      Inert mode lower d upper name := by
  have hm := nodup_mergeWith hd upper mode
  have hm' : (d.filled.mergeWith upper mode).languages.keys.Nodup := by
    rwa [filled_mergeWith_languages]
  -- The two layers have the same languages and differ in what they record of `name` at most.
  rw [find?_mergeWith hm, find?_mergeWith hm', filled_mergeWith_languages]
  by_cases h : Masked d upper name
  · obtain ⟨l, hl⟩ := Option.ne_none_iff_exists'.mp h.below
    obtain ⟨top, hup⟩ := Option.ne_none_iff_exists'.mp h.above
    rw [h.keysOf_mergeWith hu, h.keysOf_filled hd hu, find?_mergeWith hu, hup, hl]
    cases hlow : lower.languages.find? name with
    | none =>
      refine iff_of_true rfl fun _ base _ hbase => ?_
      rw [hlow] at hbase
      cases hbase
    | some base =>
      rw [h.inert_iff hlow hl, ← Collation.collate_eq_iff top]
      exact Option.some_inj
  · rw [keysOf_filled_mergeWith hd hu h]
    exact iff_of_true rfl fun hmasked => absurd hmasked h

/-- A draft on top of another one, or below one, gives the same languages with its missing records
filled in. Between two drafts it does so exactly if every language is inert there. -/
theorem mergeWith_filled_iff {low top : Draft} (hlow : low.languages.keys.Nodup)
    (hd : d.languages.keys.Nodup) (htop : top.languages.keys.Nodup) (mode : Collation) :
    (low.mergeWith d mode).languages = (low.mergeWith d.filled mode).languages ∧
    (d.mergeWith top mode).languages = (d.filled.mergeWith top mode).languages ∧
    ((low.mergeWith (d.mergeWith top mode) mode).languages =
        (low.mergeWith (d.filled.mergeWith top mode) mode).languages ↔
      ∀ name, Inert mode low d top name) := by
  refine ⟨by rw [mergeWith_filled hd], filled_mergeWith_languages.symm, ?_⟩
  constructor
  · intro h name
    exact (find?_filled_iff hd htop name).mp (by rw [h])
  · intro h
    refine OrderedMap.ext_find? (nodup_mergeWith hlow _ _) ?_ fun name => ?_
    · rw [keys_mergeWith hlow, keys_mergeWith hlow, filled_mergeWith_languages]
    · exact (find?_filled_iff hd htop name).mpr (h name)

def unrecorded (extensions : List Text) : Draft := .ofLanguages [⟨"zsh", extensions, []⟩]

theorem mergeWith_known :
    defaults.languages.keys.Nodup ∧ (unrecorded ["sh"]).languages.keys.Nodup ∧
    described.languages.keys.Nodup ∧ (unrecorded ["sh"]).setKeys = [] ∧
    (defaults.mergeWith ((unrecorded ["sh"]).mergeWith described .merge) .merge).languages =
      (defaults.mergeWith ((unrecorded ["sh"]).filled.mergeWith described .merge) .merge).languages
    := by
  have hlow : defaults.languages.keys.Nodup := by decide
  have hd : (unrecorded ["sh"]).languages.keys.Nodup := by decide
  have htop : described.languages.keys.Nodup := by decide
  refine ⟨hlow, hd, htop, rfl, (mergeWith_filled_iff hlow hd htop .merge).2.2.mpr fun name => ?_⟩
  by_cases hname : name = "zsh"
  · rintro - base l hbase hl
    subst hname
    cases hbase
    cases hl
    exact ⟨fun _ => by decide, fun h => by cases h⟩
  · intro hmasked
    refine absurd (OrderedMap.find?_eq_none.mpr fun hm => ?_) hmasked.below
    exact hname (List.mem_singleton.mp hm)

/-- A layer on top of an unrecorded language that sets the description alone takes the extensions
out of the record. -/
theorem mergeWith_unrecorded :
    (defaults.mergeWith ((unrecorded ["z"]).mergeWith described .revise) .revise).languages ≠
      (defaults.mergeWith ((unrecorded ["z"]).filled.mergeWith described .revise) .revise).languages
    ∧
    (defaults.mergeWith ((unrecorded ["z"]).mergeWith described .revise) .revise).languages.find?
      "zsh" = some ⟨"zsh", ["zsh", "sh"], "Z shell"⟩ ∧
    (defaults.mergeWith ((unrecorded ["z"]).filled.mergeWith described .revise)
      .revise).languages.find? "zsh" = some ⟨"zsh", ["z"], "Z shell"⟩ := by
  decide +kernel

end Draft

end Shebang
