import Shebang.Proofs.Decision
import Shebang.Proofs.Layers

/-!
The languages that claim an extension, by their names. Which language a file is detected as depends
on the names of a registry and on the candidates of each extension, and on nothing else; and for a
draft that is frozen these are its names and the extensions that it has under them.
-/

namespace Shebang

namespace Registry

theorem byName_ofList {m : OrderedMap Language} (hn : m.keys.Nodup)
    (hnamed : ∀ e ∈ m, e.2.name = e.1) : (ofList m.values).byName = m := by
  have hput : (ofList m.values).byName = OrderedMap.ofList m := by
    rw [ofList, OrderedMap.values, List.foldl_map]
    exact List.foldl_ext _ _ _ fun _ e he => by rw [hnamed e he]
  rw [hput, OrderedMap.ofList_of_nodup hn]

def candidates (r : Registry) (extension : Text) : List Text :=
  (r.forExtension extension).map (·.name)

variable {r r' : Registry} {fs : FileSystem} {path : Path}

def detectName (names candidates : List Text) (path : Path)
    (tag : Except OpenError Tag) : Except DetectionError Text :=
  if path.extension = [] then
    tag.mapError .notOpened >>= fun tag =>
      if tag ≠ .none ∧ tag.name ∈ names then .ok tag.name else .error (.noExtension path)
  else match candidates with
    | [] => .error (.unknownExtension path path.extension)
    | [name] => .ok name
    | first :: others =>
      (tag.mapError .notOpened).map fun tag =>
        ((first :: others).find? (· == tag.name)).getD first

theorem detect_named (h : r.Keyed) (fs : FileSystem) (path : Path) :
    (r.detect fs path).outcome.map (·.name) =
      detectName r.names (r.candidates path.extension) path (shebangTag fs path).outcome := by
  unfold detectName
  by_cases hx : path.extension = []
  · rw [detect_bare hx, if_pos hx]
    cases (shebangTag fs path).outcome with
    | error e => rfl
    | ok tag =>
      rw [Attempt.mapError_ok, Attempt.ok_bind, Attempt.ok_bind]
      by_cases htag : tag = .none
      · rw [if_pos htag, if_neg fun h => h.1 htag]
        rfl
      · rw [if_neg htag]
        cases hl : r.find? tag.name with
        | none =>
          have hm : tag.name ∉ r.names := OrderedMap.find?_eq_none.mp hl
          rw [if_neg fun h => hm h.2]
          rfl
        | some l =>
          have hm : tag.name ∈ r.names := by
            by_contra hm
            rw [find?, OrderedMap.find?_eq_none.mpr hm] at hl
            cases hl
          rw [if_pos ⟨htag, hm⟩, ← (h.find?_eq_some.mp hl).2]
          rfl
  · rw [if_neg hx, candidates]
    rcases hc : r.forExtension path.extension with _ | ⟨first, _ | ⟨second, others⟩⟩
    · rw [detect_unclaimed hx hc]
      rfl
    · rw [detect_sole hx hc]
      rfl
    · rw [detect_several hx hc]
      cases (shebangTag fs path).outcome with
      | error e => rfl
      | ok tag =>
        have hfind : ((first :: second :: others).map (·.name)).find? (· == tag.name) =
            ((first :: second :: others).find? (·.name == tag.name)).map (·.name) :=
          List.find?_map
        change Except.ok _ = Except.ok ((((first :: second :: others).map (·.name)).find?
          (· == tag.name)).getD first.name)
        rw [hfind, Option.getD_map]

/-- The names and the candidates of a registry settle which language a file is detected as. -/
theorem detect_eq_of_names (h : r.Keyed) (h' : r'.Keyed) (hnames : r.names = r'.names)
    (hcandidates : ∀ e, r.candidates e = r'.candidates e) (fs : FileSystem) (path : Path) :
    (r.detect fs path).outcome.map (·.name) = (r'.detect fs path).outcome.map (·.name) := by
  rw [detect_named h, detect_named h', hnames, hcandidates]

theorem detect_unknown_iff {p : Path} {e : Text} :
    (r.detect fs path).outcome = .error (.unknownExtension p e) ↔
      path.extension ≠ [] ∧ r.candidates path.extension = [] ∧ p = path ∧ e = path.extension := by
  rw [candidates, List.map_eq_nil_iff]
  by_cases hx : path.extension = []
  · rw [detect_bare hx]
    refine iff_of_false ?_ fun h => h.1 hx
    cases (shebangTag fs path).outcome with
    | error cause => nofun
    | ok tag =>
      rw [Attempt.mapError_ok, Attempt.ok_bind]
      cases if tag = .none then none else r.find? tag.name with
      | none => nofun
      | some l => nofun
  · rcases hc : r.forExtension path.extension with _ | ⟨first, _ | ⟨second, others⟩⟩
    · rw [detect_unclaimed hx hc]
      constructor
      · intro h
        cases h
        exact ⟨hx, rfl, rfl, rfl⟩
      · rintro ⟨-, -, rfl, rfl⟩
        rfl
    · rw [detect_sole hx hc]
      exact iff_of_false nofun fun h => nomatch h.2.1
    · rw [detect_several hx hc]
      refine iff_of_false ?_ fun h => nomatch h.2.1
      cases (shebangTag fs path).outcome with
      | error cause => nofun
      | ok tag => nofun

end Registry

namespace Draft

variable {d lower upper : Draft} {layers : List Draft} {name e x : Text}

def registry (d : Draft) : Registry := .ofConfig d.freeze

def extensionsOf (d : Draft) (name : Text) : List Text :=
  (d.languages.find? name).elim [] (·.extensions)

theorem Tidy.named_of_mem (h : d.Tidy) {entry : Text × Language} (he : entry ∈ d.languages) :
    d.languages.find? entry.1 = some entry.2 ∧ entry.2.name = entry.1 := by
  have hfind := (OrderedMap.find?_eq_some h.nodup).mpr he
  exact ⟨hfind, h.named _ _ hfind⟩

theorem Tidy.registry (h : d.Tidy) : d.registry.byName = d.languages :=
  Registry.byName_ofList h.nodup fun _ he => (h.named_of_mem he).2

theorem Tidy.names_registry (h : d.Tidy) : d.registry.names = d.languages.keys := by
  rw [Registry.names, h.registry]

theorem Tidy.candidates_eq (h : d.Tidy) (e : Text) : d.registry.candidates e =
    d.languages.keys.filter fun name => (d.extensionsOf name).contains e.dropDots := by
  have hclaims : d.languages.filter (fun entry => entry.2.matchesExtension e) =
      d.languages.filter fun entry => (d.extensionsOf entry.1).contains e.dropDots := by
    refine List.filter_congr fun entry he => ?_
    rw [extensionsOf, (h.named_of_mem he).1]
    rfl
  rw [Registry.candidates, Registry.forExtension, Registry.languages, h.registry,
    OrderedMap.values, OrderedMap.keys, List.filter_map, List.filter_map, List.map_map]
  refine (List.map_congr_left fun entry he => ?_).trans (congrArg (List.map Prod.fst) hclaims)
  exact (h.named_of_mem (List.mem_of_mem_filter he)).2

theorem Tidy.mem_candidates (h : d.Tidy) :
    name ∈ d.registry.candidates e ↔ e.dropDots ∈ d.extensionsOf name := by
  rw [h.candidates_eq, List.mem_filter, List.contains_iff_mem, and_iff_right_iff_imp]
  intro hm
  by_contra hk
  rw [extensionsOf, OrderedMap.find?_eq_none.mpr hk] at hm
  cases hm

abbrev givenExtensions (name : Text) (layer : Draft) : Option (List Text) :=
  given SetKeys.extensions Language.extensions name layer

theorem Tidy.mem_extensionsOf_merge (h : upper.Tidy) :
    x ∈ (lower.mergeWith upper .merge).extensionsOf name ↔
      x ∈ lower.extensionsOf name ∨ x ∈ upper.extensionsOf name := by
  rw [extensionsOf, find?_mergeWith h.nodup]
  cases hup : upper.languages.find? name with
  | none => simp [extensionsOf, hup]
  | some top =>
    cases hk : (upper.keysOf name).extensions with
    | true =>
      cases hlow : lower.languages.find? name <;>
        simp [extensionsOf, hup, hlow, Collation.overlay, Collation.collate, hk,
          List.mem_eraseDups]
    | false =>
      have htop : top.extensions = [] := (h.find?_setKeys hup).2.1 hk
      cases hlow : lower.languages.find? name <;>
        simp [extensionsOf, hup, hlow, Collation.overlay, Collation.collate, hk, htop]

/-- Layers that are merged have together what each of them gives. -/
theorem Layered.mem_extensionsOf (h : Layered .merge layers d) : x ∈ d.extensionsOf name ↔
    ∃ layer ∈ layers, ∃ xs, givenExtensions name layer = some xs ∧ x ∈ xs := by
  have hgiven : x ∈ (layers.filterMap (givenExtensions name)).flatten ↔
      ∃ layer ∈ layers, ∃ xs, givenExtensions name layer = some xs ∧ x ∈ xs := by
    rw [List.mem_flatten]
    constructor
    · rintro ⟨xs, hxs, hx⟩
      obtain ⟨layer, hlayer, hl⟩ := List.mem_filterMap.mp hxs
      exact ⟨layer, hlayer, xs, hl, hx⟩
    · rintro ⟨layer, hlayer, xs, hl, hx⟩
      exact ⟨xs, List.mem_filterMap.mpr ⟨layer, hlayer, hl⟩, hx⟩
  rw [← hgiven, extensionsOf]
  cases hl : d.languages.find? name with
  | none =>
    have hsilent : layers.filterMap (givenExtensions name) = [] := h.silent hl _ _
    rw [hsilent]
    rfl
  | some l =>
    have hmerged : l.extensions.eraseDups =
        (layers.filterMap (givenExtensions name)).flatten.eraseDups := h.merged rfl name l hl
    rw [Option.elim, ← List.mem_eraseDups, hmerged, List.mem_eraseDups]

/-- Of layers that replace each other the last one that gives extensions counts. -/
theorem Layered.extensionsOf_eq (h : Layered .revise layers d) (name : Text) :
    d.extensionsOf name =
      (lastGiven SetKeys.extensions Language.extensions name layers).getD [] := by
  rw [extensionsOf]
  cases hl : d.languages.find? name with
  | none =>
    rw [lastGiven, h.silent hl]
    rfl
  | some l => exact h.revised rfl name l hl

end Draft

end Shebang
