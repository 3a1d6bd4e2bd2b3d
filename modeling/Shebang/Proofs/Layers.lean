import Shebang.Proofs.Draft

/-!
A stack of drafts as one draft. Every name stands where it first came, and every key has what the
last layer that sets it gives, except that extensions are gathered from all layers when layers are
merged.
-/

namespace Shebang

namespace Draft

section Given

variable {α : Type} {key : SetKeys → Bool} {field : Language → α} {name : Text} {l : Language}
  {d layer : Draft} {layers : List Draft}

/-- What a layer gives for a field of a language, if the key of the field is set there. -/
def given (key : SetKeys → Bool) (field : Language → α) (name : Text) (layer : Draft) : Option α :=
  if (layer.setKeys.find? name).any key then (layer.languages.find? name).map field else none

def lastGiven (key : SetKeys → Bool) (field : Language → α) (name : Text)
    (layers : List Draft) : Option α :=
  (layers.filterMap (given key field name)).getLast?

theorem lastGiven_append (key : SetKeys → Bool) (field : Language → α) (name : Text)
    (below above : List Draft) :
    lastGiven key field name (below ++ above) =
      (lastGiven key field name above).or (lastGiven key field name below) := by
  rw [lastGiven, List.filterMap_append, List.getLast?_append]
  rfl

theorem lastGiven_single : lastGiven key field name [layer] = given key field name layer := by
  cases h : given key field name layer <;> simp [lastGiven, h]

theorem lastGiven_cons (key : SetKeys → Bool) (field : Language → α) (name : Text)
    (layer : Draft) (layers : List Draft) :
    lastGiven key field name (layer :: layers) =
      (lastGiven key field name layers).or (given key field name layer) := by
  rw [← List.singleton_append, lastGiven_append, lastGiven_single]

theorem lastGiven_snoc (key : SetKeys → Bool) (field : Language → α) (name : Text)
    (layers : List Draft) (layer : Draft) :
    lastGiven key field name (layers ++ [layer]) =
      (given key field name layer).or (lastGiven key field name layers) := by
  rw [lastGiven_append, lastGiven_single]

theorem given_absent (h : layer.languages.find? name = none) :
    given key field name layer = none := by
  simp [given, h]

theorem given_present (h : layer.Tidy) (hl : layer.languages.find? name = some l) :
    given key field name layer = if key (layer.keysOf name) then some (field l) else none := by
  rw [given, hl, (h.find?_setKeys hl).1, Option.any_some, Option.map_some]

theorem Tidy.getD_given {default : α} (h : layer.Tidy)
    (hdefault : ∀ l set, SetKeys.Covers set l → key set = false → field l = default)
    (hl : layer.languages.find? name = some l) :
    (given key field name layer).getD default = field l := by
  rw [given_present h hl]
  cases hk : key (layer.keysOf name) with
  | false => exact (hdefault l _ (h.find?_setKeys hl).2 hk).symm
  | true => rfl

theorem flatten_given {field : Language → List α} :
    ([layer].filterMap (given key field name)).flatten = (given key field name layer).getD [] := by
  cases h : given key field name layer <;> simp [h]

end Given

theorem description_default (l : Language) (set : SetKeys) (h : set.Covers l)
    (hk : set.description = false) : l.description = [] := h.2 hk

theorem extensions_default (l : Language) (set : SetKeys) (h : set.Covers l)
    (hk : set.extensions = false) : l.extensions = [] := h.1 hk

/-- What a draft holds that is made of these layers, the lowest first. -/
structure Layered (mode : Collation) (layers : List Draft) (d : Draft) : Prop where
  names : d.languages.keys = (layers.flatMap (·.languages.keys)).eraseDups
  named : ∀ name l, d.languages.find? name = some l → l.name = name
  description : ∀ name l, d.languages.find? name = some l →
    l.description = (lastGiven SetKeys.description Language.description name layers).getD []
  revised : mode = .revise → ∀ name l, d.languages.find? name = some l →
    l.extensions = (lastGiven SetKeys.extensions Language.extensions name layers).getD []
  merged : mode = .merge → ∀ name l, d.languages.find? name = some l →
    l.extensions.eraseDups =
      (layers.filterMap (given SetKeys.extensions Language.extensions name)).flatten.eraseDups
  setNames : d.setKeys.keys = d.languages.keys
  setKeys : ∀ name, (d.setKeys.find? name).getD .none =
    (layers.filterMap (·.setKeys.find? name)).foldl .union .none
  configFiles : d.configFiles = layers.flatMap (·.configFiles)

section Step

variable {α : Type} {key : SetKeys → Bool} {field : Language → α} {default : α}
  {mode : Collation} {layers : List Draft} {lower upper d : Draft} {name : Text} {l : Language}

theorem Layered.silent (h : Layered mode layers lower) (hn : lower.languages.find? name = none)
    (key : SetKeys → Bool) (field : Language → α) :
    layers.filterMap (given key field name) = [] := by
  rw [OrderedMap.find?_eq_none, h.names, List.mem_eraseDups] at hn
  refine List.filterMap_eq_nil_iff.mpr fun layer hlayer => given_absent ?_
  rw [OrderedMap.find?_eq_none]
  intro hk
  exact hn (List.mem_flatMap.mpr ⟨layer, hlayer, hk⟩)

theorem Layered.replaced (h : Layered mode layers lower) (hu : upper.Tidy)
    (hdefault : ∀ l set, SetKeys.Covers set l → key set = false → field l = default)
    (hcollate : ∀ base top set,
      field (mode.collate base top set) = if key set then field top else field base)
    (hold : ∀ l, lower.languages.find? name = some l →
      field l = (lastGiven key field name layers).getD default)
    (hl : (lower.mergeWith upper mode).languages.find? name = some l) :
    field l = (lastGiven key field name (layers ++ [upper])).getD default := by
  rw [lastGiven_snoc]
  rcases mergeWith_cases hu.nodup hl with ⟨hup, hlow⟩ | ⟨hlow, hup⟩ | ⟨base, top, hlow, hup, rfl⟩
  · rw [given_absent hup, Option.none_or]
    exact hold l hlow
  · -- The name is new: no layer below gives it anything, and what this one does not set has its
    -- default here.
    have hs : lastGiven key field name layers = none := by
      rw [lastGiven, h.silent hlow, List.getLast?_nil]
    rw [hs, Option.or_none, hu.getD_given hdefault hup]
  · rw [given_present hu hup, hcollate]
    cases key (upper.keysOf name) with
    | false => exact hold base hlow
    | true => rfl

-- Extensions are without repeats only from the second layer of a name on, so both sides are
-- compared with repeats removed.
theorem Layered.gathered (h : Layered .merge layers lower) (hu : upper.Tidy)
    (hl : (lower.mergeWith upper .merge).languages.find? name = some l) :
    l.extensions.eraseDups = ((layers ++ [upper]).filterMap
      (given SetKeys.extensions Language.extensions name)).flatten.eraseDups := by
  rw [List.filterMap_append, List.flatten_append, flatten_given]
  rcases mergeWith_cases hu.nodup hl with ⟨hup, hlow⟩ | ⟨hlow, hup⟩ | ⟨base, top, hlow, hup, rfl⟩
  · rw [given_absent hup, Option.getD_none, List.append_nil]
    exact h.merged rfl name l hlow
  · rw [h.silent hlow, hu.getD_given extensions_default hup]
    rfl
  · have hbase := h.merged rfl name base hlow
    rw [given_present hu hup, Collation.collate]
    cases (upper.keysOf name).extensions with
    | false => simpa using hbase
    | true => simpa [eraseDups_idem] using eraseDups_append_congr hbase top.extensions

/-- A layer put on top of a draft made of layers. -/
theorem Layered.mergeWith (h : Layered mode layers lower) (hu : upper.Tidy) :
    Layered mode (layers ++ [upper]) (lower.mergeWith upper mode) where
  names := by
    rw [mergeWith_languages, OrderedMap.keys_putAll _ _ h.names]
    simp
  named := by
    intro name l hl
    rcases mergeWith_cases hu.nodup hl with ⟨-, hlow⟩ | ⟨-, hup⟩ | ⟨base, top, hlow, -, rfl⟩
    · exact h.named name l hlow
    · exact hu.named name l hup
    · exact h.named name base hlow
  description := by
    intro name l hl
    exact h.replaced hu description_default (fun _ _ _ => rfl) (h.description name) hl
  revised := by
    rintro rfl name l hl
    exact h.replaced hu extensions_default (fun _ _ _ => rfl) (h.revised rfl name) hl
  merged := by
    rintro rfl name l hl
    exact h.gathered hu hl
  setNames := by
    have hs : lower.setKeys.keys = (layers.flatMap (·.languages.keys)).eraseDups :=
      h.setNames.trans h.names
    rw [mergeWith_setKeys, mergeWith_languages, OrderedMap.keys_putAll _ _ hs,
      OrderedMap.keys_putAll _ _ h.names]
  setKeys := by
    intro name
    rw [find?_mergeWith_setKeys hu.nodup, List.filterMap_append, List.foldl_append,
      ← h.setKeys name]
    cases hup : upper.languages.find? name with
    | none =>
      rw [OrderedMap.find?_eq_none, ← hu.keys, ← OrderedMap.find?_eq_none] at hup
      simp [hup]
    | some l => simp [(hu.find?_setKeys hup).1]
  configFiles := by
    rw [Draft.mergeWith, h.configFiles]
    simp

theorem Tidy.layered (h : d.Tidy) : Layered mode [d] d where
  names := by simp [eraseDups_of_nodup h.nodup]
  named := h.named
  description := by
    intro name l hl
    rw [lastGiven_single, h.getD_given description_default hl]
  revised := by
    intro _ name l hl
    rw [lastGiven_single, h.getD_given extensions_default hl]
  merged := by
    intro _ name l hl
    rw [flatten_given, h.getD_given extensions_default hl]
  setNames := h.keys
  setKeys := by
    intro name
    cases hs : d.setKeys.find? name with
    | none => simp [hs]
    | some set => simp [hs, SetKeys.union, SetKeys.none]
  configFiles := by simp

theorem Layered.foldl (h : Layered mode layers d) {tops : List Draft} (ht : ∀ t ∈ tops, t.Tidy) :
    Layered mode (layers ++ tops) (tops.foldl (·.mergeWith · mode) d) := by
  induction tops generalizing layers d with
  | nil => rwa [List.append_nil]
  | cons top tops ih =>
    have hrest := ih (h.mergeWith (ht top List.mem_cons_self))
      fun t hm => ht t (List.mem_cons_of_mem top hm)
    rwa [List.append_assoc] at hrest

end Step

end Draft

end Shebang
