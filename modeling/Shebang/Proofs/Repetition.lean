import Shebang.Proofs.Candidates
import Shebang.Proofs.Regrouping
import Shebang.Proofs.Rereading

/-!
Layers that are applied more than once. Right on top of itself a layer changes nothing but the
repeats in its own lists of extensions. With other layers in between that is so when layers are
merged; where they replace each other, the layer takes back the extensions that others have
replaced since.
-/

namespace Shebang

def Language.distinct (l : Language) : Language := { l with extensions := l.extensions.eraseDups }

theorem SetKeys.union_self (a : SetKeys) : a.union a = a := by
  simp [union]

namespace Collation

variable {mode : Collation} {base top l : Language} {set : SetKeys}

theorem collate_collate :
    mode.collate (mode.collate base top set) top set = mode.collate base top set := by
  have hmerged : ((base.extensions ++ top.extensions).eraseDups ++ top.extensions).eraseDups =
      (base.extensions ++ top.extensions).eraseDups := by
    rw [eraseDups_append_of_subset, eraseDups_idem]
    exact fun x hx => List.mem_eraseDups.mpr (List.mem_append_right _ hx)
  cases he : set.extensions <;> cases hd : set.description <;> cases mode <;>
    simp [collate, he, hd, hmerged]

theorem collate_self (h : mode = .revise ∨ l.extensions.Nodup) : mode.collate l l set = l := by
  have hmerged : mode = .merge → (l.extensions ++ l.extensions).eraseDups = l.extensions := by
    rintro rfl
    rw [eraseDups_append_of_subset (List.Subset.refl _)]
    exact eraseDups_of_nodup (h.resolve_left nofun)
  cases he : set.extensions <;> cases hd : set.description <;> cases mode <;>
    simp [collate, he, hd, hmerged]

theorem distinct_collate_self : (mode.collate l l set).distinct = l.distinct := by
  have hmerged : (l.extensions ++ l.extensions).eraseDups = l.extensions.eraseDups :=
    eraseDups_append_of_subset (List.Subset.refl _)
  cases he : set.extensions <;> cases hd : set.description <;> cases mode <;>
    simp [collate, Language.distinct, he, hd, hmerged, eraseDups_idem]

theorem stack_stack (a b : Language × SetKeys) :
    mode.stack (mode.stack a b) b = mode.stack a b := by
  refine Prod.ext collate_collate ?_
  change (a.2.union b.2).union b.2 = a.2.union b.2
  rw [SetKeys.union_assoc, SetKeys.union_self]

end Collation

namespace Draft

variable {mode : Collation} {a b d d' own : Draft} {name : Text}

theorem Tidy.map_entryAt_again {β : Type} (ha : a.Tidy) (hb : b.Tidy)
    (f : Language × SetKeys → β)
    (hself : ∀ e, b.entryAt name = some e → f (mode.stack e e) = f e) :
    (((a.mergeWith b mode).mergeWith b mode).entryAt name).map f =
      ((a.mergeWith b mode).entryAt name).map f := by
  rw [(ha.mergeWith hb mode).entryAt_mergeWith hb, ha.entryAt_mergeWith hb]
  cases htop : b.entryAt name with
  | none => rw [Option.merge_none_right, Option.merge_none_right]
  | some top =>
    cases a.entryAt name with
    | none =>
      -- The first application brought the entry in, and the second one collates it with itself.
      rw [Option.merge_none_left, Option.merge_some_some, Option.map_some, Option.map_some,
        hself top htop]
    | some base => rw [Option.merge_some_some, Option.merge_some_some, Collation.stack_stack]

theorem Tidy.keys_again (ha : a.Tidy) :
    ((a.mergeWith b mode).mergeWith b mode).languages.keys =
      (a.mergeWith b mode).languages.keys := by
  rw [keys_mergeWith (nodup_mergeWith ha.nodup b mode), keys_mergeWith ha.nodup,
    eraseDups_append_of_subset, eraseDups_idem]
  exact fun x hx => List.mem_eraseDups.mpr (List.mem_append_right _ hx)

theorem Tidy.languages_again (ha : a.Tidy) (hb : b.Tidy)
    (h : mode = .revise ∨ ∀ e ∈ b.languages, e.2.extensions.Nodup) :
    ((a.mergeWith b mode).mergeWith b mode).languages = (a.mergeWith b mode).languages := by
  have hn := nodup_mergeWith (nodup_mergeWith ha.nodup b mode) b mode
  refine OrderedMap.ext_find? hn ha.keys_again fun name => ?_
  rw [find?_languages, find?_languages]
  refine ha.map_entryAt_again hb Prod.fst fun e he => ?_
  obtain ⟨l, hl, rfl⟩ := Option.map_eq_some_iff.mp he
  have hm := (OrderedMap.find?_eq_some hb.nodup).mp hl
  exact Collation.collate_self (h.imp_right fun hnodup => hnodup _ hm)

theorem Tidy.setKeys_again (ha : a.Tidy) (hb : b.Tidy) :
    ((a.mergeWith b mode).mergeWith b mode).setKeys = (a.mergeWith b mode).setKeys := by
  have hab := ha.mergeWith hb mode
  refine (hab.mergeWith hb mode).setKeys_ext hab ha.keys_again fun name => ?_
  exact ha.map_entryAt_again hb Prod.snd fun e _ => e.2.union_self

def distinct (d : Draft) : OrderedMap Language := d.languages.map fun e => (e.1, e.2.distinct)

theorem keys_distinct (d : Draft) : d.distinct.keys = d.languages.keys := by
  rw [distinct, OrderedMap.keys, List.map_map]
  rfl

theorem Tidy.distinct_again (ha : a.Tidy) (hb : b.Tidy) :
    ((a.mergeWith b mode).mergeWith b mode).distinct = (a.mergeWith b mode).distinct := by
  have hn := nodup_mergeWith (nodup_mergeWith ha.nodup b mode) b mode
  refine OrderedMap.ext_find? ?_ ?_ fun name => ?_
  · rwa [keys_distinct]
  · rw [keys_distinct, keys_distinct, ha.keys_again]
  · rw [distinct, distinct, OrderedMap.find?_map, OrderedMap.find?_map, find?_languages,
      find?_languages, Option.map_map, Option.map_map]
    exact ha.map_entryAt_again hb _ fun e _ => Collation.distinct_collate_self

/-- What a second application of `b` on `a` changes: nothing, but for the repeats of extensions when
layers are merged. -/
structure Absorbs (a b : Draft) : Prop where
  setKeys : ∀ mode, ((a.mergeWith b mode).mergeWith b mode).setKeys = (a.mergeWith b mode).setKeys
  revised : ((a.mergeWith b .revise).mergeWith b .revise).languages =
    (a.mergeWith b .revise).languages
  merged : ((a.mergeWith b .merge).mergeWith b .merge).distinct = (a.mergeWith b .merge).distinct
  exact : (∀ e ∈ b.languages, e.2.extensions.Nodup) →
    ((a.mergeWith b .merge).mergeWith b .merge).languages = (a.mergeWith b .merge).languages

theorem Tidy.absorbs (ha : a.Tidy) (hb : b.Tidy) : Absorbs a b where
  setKeys := fun _ => ha.setKeys_again hb
  revised := ha.languages_again hb (.inl rfl)
  merged := ha.distinct_again hb
  exact := fun h => ha.languages_again hb (.inr h)

/-- The same names in the same places, with the same extensions up to order and repeats. -/
structure Alike (d d' : Draft) : Prop where
  names : d.languages.keys = d'.languages.keys
  extensions : ∀ name x, x ∈ d.extensionsOf name ↔ x ∈ d'.extensionsOf name

theorem Alike.detect (h : Alike d d') (hd : d.Tidy) (hd' : d'.Tidy) (fs : FileSystem)
    (path : Path) : (d.registry.detect fs path).outcome.map (·.name) =
      (d'.registry.detect fs path).outcome.map (·.name) := by
  have hk : d.registry.Keyed := Registry.ofList_keyed _
  have hk' : d'.registry.Keyed := Registry.ofList_keyed _
  refine Registry.detect_eq_of_names hk hk' ?_ ?_ fs path
  · rw [hd.names_registry, hd'.names_registry, h.names]
  · intro e
    rw [hd.candidates_eq, hd'.candidates_eq, h.names]
    refine List.filter_congr fun name _ => ?_
    rw [Bool.eq_iff_iff, List.contains_iff_mem, List.contains_iff_mem, h.extensions]

section Layers

variable {front between after : List Draft} {files : List Path}

/-- No layer between replaces the extensions that `own` gives by other ones, except where a layer
after them replaces these in turn. -/
def Undisturbed (own : Draft) (between after : List Draft) : Prop :=
  ∀ name xs ys, givenExtensions name own = some xs →
    lastGiven SetKeys.extensions Language.extensions name between = some ys →
    lastGiven SetKeys.extensions Language.extensions name after = none → ∀ x, x ∈ xs ↔ x ∈ ys

theorem given_withFiles {α : Type} (key : SetKeys → Bool) (field : Language → α) (name : Text)
    (own : Draft) (files : List Path) :
    given key field name (own.withFiles files) = given key field name own := rfl

theorem Layered.names_again
    (h : Layered mode (front ++ own :: (between ++ own.withFiles files :: after)) d)
    (h' : Layered mode (front ++ own :: (between ++ after)) d') :
    d.languages.keys = d'.languages.keys := by
  have hsub : own.languages.keys ⊆ (front ++ own :: between).flatMap (·.languages.keys) :=
    fun k hk => List.mem_flatMap.mpr ⟨own, by simp, hk⟩
  have hagain := eraseDups_append_congr (eraseDups_append_of_subset hsub)
    (after.flatMap (·.languages.keys))
  rw [h.names, h'.names]
  simpa [withFiles, List.flatMap_append, List.append_assoc] using hagain

theorem Layered.merged_again
    (h : Layered .merge (front ++ own :: (between ++ own.withFiles files :: after)) d)
    (h' : Layered .merge (front ++ own :: (between ++ after)) d') (name x : Text) :
    x ∈ d.extensionsOf name ↔ x ∈ d'.extensionsOf name := by
  rw [h.mem_extensionsOf, h'.mem_extensionsOf]
  simp only [List.mem_append, List.mem_cons]
  constructor
  · rintro ⟨layer, hlayer, hx⟩
    rcases hlayer with hm | rfl | hm | rfl | hm
    · exact ⟨layer, .inl hm, hx⟩
    · exact ⟨layer, .inr (.inl rfl), hx⟩
    · exact ⟨layer, .inr (.inr (.inl hm)), hx⟩
    · exact ⟨own, .inr (.inl rfl), hx⟩
    · exact ⟨layer, .inr (.inr (.inr hm)), hx⟩
  · rintro ⟨layer, hlayer, hx⟩
    exact ⟨layer, hlayer.imp_right (.imp_right (.imp_right .inr)), hx⟩

/-- What counts is the last layer, so `own` may hide a layer between, but none after. -/
theorem Layered.revised_again
    (h : Layered .revise (front ++ own :: (between ++ own.withFiles files :: after)) d)
    (h' : Layered .revise (front ++ own :: (between ++ after)) d')
    (hown : Undisturbed own between after) (name x : Text) :
    x ∈ d.extensionsOf name ↔ x ∈ d'.extensionsOf name := by
  rw [h.extensionsOf_eq, h'.extensionsOf_eq]
  simp only [lastGiven_append, lastGiven_cons, given_withFiles]
  cases hafter : lastGiven SetKeys.extensions Language.extensions name after with
  | some zs => simp
  | none =>
    cases hgiven : given SetKeys.extensions Language.extensions name own with
    | none => simp
    | some xs =>
      cases hbetween : lastGiven SetKeys.extensions Language.extensions name between with
      | none => simp
      | some ys => simpa using hown name xs ys hgiven hbetween hafter x

theorem Layered.alike
    (h : Layered mode (front ++ own :: (between ++ own.withFiles files :: after)) d)
    (h' : Layered mode (front ++ own :: (between ++ after)) d')
    (hrevise : mode = .revise → Undisturbed own between after) : Alike d d' := by
  refine ⟨h.names_again h', ?_⟩
  cases mode with
  | merge => exact h.merged_again h'
  | revise => exact h.revised_again h' (hrevise rfl)

end Layers

end Draft

namespace Config

open Draft (Absorbs Alike Built Layered Undisturbed)

variable {fs : FileSystem} {toml : Toml.Parser} {sources : Sources} {path other : Path}
  {front between before after : List Path} {d : Draft}

/-- A run that reads a file, and another file of the same name and content that is to be named
besides, between `before` and `after`. -/
structure NamedAgain (fs : FileSystem) (sources : Sources) (path other : Path)
    (front between before after : List Path) : Prop where
  extras : sources.extras = before ++ after
  files : sources.files fs = front ++ path :: (between ++ after)
  name : other.name = path.name
  read : fs.read other = fs.read path

def Keeps (fs : FileSystem) (toml : Toml.Parser) (path : Path) (between after : List Path) : Prop :=
  ∀ own mid top, Contribution fs toml path (some own) → Stack fs toml between mid →
    Stack fs toml after top → Undisturbed own (mid.map Prod.snd) (top.map Prod.snd)

theorem NamedAgain.files_again (h : NamedAgain fs sources path other front between before after) :
    Sources.files fs { sources with extras := before ++ other :: after } =
      front ++ path :: (between ++ other :: after) := by
  have hfiles := h.files
  rw [Sources.files, h.extras, ← List.append_assoc, ← List.cons_append,
    ← List.append_assoc] at hfiles
  have hplace := List.append_cancel_right hfiles
  change sources.candidates.filter _ ++ (before ++ other :: after) = _
  rw [← List.append_assoc, hplace]
  simp

theorem NamedAgain.alike (h : NamedAgain fs sources path other front between before after)
    (hkeeps : sources.collation = .revise → Keeps fs toml path between after)
    (hd : (loadMerged fs toml sources).outcome = .ok d) :
    ∃ d',
      (loadMerged fs toml { sources with extras := before ++ other :: after }).outcome = .ok d' ∧
      Alike d' d := by
  obtain ⟨hfound, stack, hs, rfl⟩ := loadMerged_eq_ok_iff.mp hd
  rw [h.files] at hs
  obtain ⟨below, rest, rfl, hbelow, hrest⟩ := hs.split
  cases hrest with
  | @layer _ own _ _ hown hrest =>
    obtain ⟨mid, top, rfl, hmid, htop⟩ := hrest.split
    have hs' := hbelow.append (.layer hown (hmid.append (.layer (hown.reread h.name h.read) htop)))
    refine ⟨pile sources.collation Draft.defaults _,
      loadMerged_eq_ok_iff.mpr ⟨hfound, _, h.files_again ▸ hs', rfl⟩, ?_⟩
    have hl := hs.layered sources.collation
    have hl' := hs'.layered sources.collation
    simp only [List.map_append, List.map_cons, ← List.cons_append] at hl hl'
    exact hl'.alike hl fun hr => hkeeps hr _ _ _ hown hmid htop
  | skip hown hrest =>
    -- A project file without a section for this tool: the layers are the same as before.
    obtain ⟨mid, top, rfl, hmid, htop⟩ := hrest.split
    have hs' := hbelow.append (.skip hown (hmid.append (.skip (hown.reread h.name h.read) htop)))
    exact ⟨_, loadMerged_eq_ok_iff.mpr ⟨hfound, _, h.files_again ▸ hs', rfl⟩, rfl, fun _ _ => .rfl⟩

/-- A layer that is applied twice counts once. And a file that is found and named as well decides
on no path otherwise than if it were only found, unless layers replace each other and another one
has replaced its extensions in between. -/
theorem mergeWith_again :
    (∀ a b, Built a → Built b → Absorbs a b) ∧
    ∀ fs toml sources path other front between before after d,
      NamedAgain fs sources path other front between before after →
      (sources.collation = .revise → Keeps fs toml path between after) →
      (loadMerged fs toml sources).outcome = .ok d →
      ∃ d',
        (loadMerged fs toml { sources with extras := before ++ other :: after }).outcome = .ok d' ∧
        ∀ world q, (d'.registry.detect world q).outcome.map (·.name) =
          (d.registry.detect world q).outcome.map (·.name) := by
  constructor
  · intro a b ha hb
    exact ha.tidy.absorbs hb.tidy
  · intro fs toml sources path other front between before after d hagain hkeeps hd
    obtain ⟨d', hd', halike⟩ := hagain.alike hkeeps hd
    exact ⟨d', hd', halike.detect (loadMerged_tidy hd') (loadMerged_tidy hd)⟩

def rivalFiles : FileSystem where
  lookup path :=
    if path = projectFileName then
      .regular (Utf8.encode "[tool.shebangscan.languages.zsh]\nextensions = ['a']\n")
    else if path = toolFileName then
      .regular (Utf8.encode "[languages.zsh]\nextensions = ['b']\n")
    else .refused .noEntry

def rivalSources : Sources := ⟨some (.ok (.ofText ".")), [], .revise⟩

def rivalLayers : Draft where
  languages := [
    ("bash", ⟨"bash", ["bash", "sh"], "Bash scripts (*.bash, *.sh)"⟩),
    ("zsh", ⟨"zsh", ["b"], "Zsh scripts (*.zsh, *.sh)"⟩)]
  setKeys := [("bash", .all), ("zsh", .all)]
  configFiles := [.ofText "pyproject.toml", .ofText "shebangscan.toml"]

theorem mergeWith_again_toolFile :
    Built Draft.described ∧ Built Draft.extended ∧ Absorbs Draft.described Draft.extended ∧
    NamedAgain rivalFiles rivalSources (.ofText "shebangscan.toml") (.ofText "./shebangscan.toml")
      [.ofText "pyproject.toml"] [] [] [] ∧
    Keeps rivalFiles Toml.parse (.ofText "shebangscan.toml") [] [] ∧
    (loadMerged rivalFiles Toml.parse rivalSources).outcome = .ok rivalLayers ∧
    ∃ d', (loadMerged rivalFiles Toml.parse
        { rivalSources with extras := [.ofText "./shebangscan.toml"] }).outcome = .ok d' ∧
      ∀ world q, (d'.registry.detect world q).outcome.map (·.name) =
        (rivalLayers.registry.detect world q).outcome.map (·.name) := by
  have hagain : NamedAgain rivalFiles rivalSources (.ofText "shebangscan.toml")
      (.ofText "./shebangscan.toml") [.ofText "pyproject.toml"] [] [] [] :=
    ⟨rfl, by decide +kernel, by decide +kernel, by decide +kernel⟩
  have hkeeps : Keeps rivalFiles Toml.parse (.ofText "shebangscan.toml") [] [] := by
    intro own mid top _ hmid _ name xs ys _ hys
    cases hmid
    cases hys
  have hd : (loadMerged rivalFiles Toml.parse rivalSources).outcome = .ok rivalLayers := by
    decide +kernel
  have hrun := mergeWith_again.2 _ _ _ _ _ _ _ _ _ _ hagain (fun _ => hkeeps) hd
  exact ⟨Draft.described_built, Draft.extended_built,
    mergeWith_again.1 _ _ Draft.described_built Draft.extended_built, hagain, hkeeps, hd, hrun⟩

/-- The project file is found and named as well. Found alone, it leaves `x.b` to zsh; on top of the
other file it takes zsh back to its own extensions. -/
theorem loadMerged_rivalLayers :
    NamedAgain rivalFiles rivalSources (.ofText "pyproject.toml") (.ofText "pyproject.toml")
      [] [.ofText "shebangscan.toml"] [] [] ∧
    ((loadMerged rivalFiles Toml.parse rivalSources).outcome.map fun d =>
      (d.registry.detect rivalFiles (.ofText "x.b")).outcome.map (·.name)) = .ok (.ok "zsh") ∧
    ((loadMerged rivalFiles Toml.parse
        { rivalSources with extras := [.ofText "pyproject.toml"] }).outcome.map fun d =>
      (d.registry.detect rivalFiles (.ofText "x.b")).outcome.map (·.name)) =
      .ok (.error (.unknownExtension (.ofText "x.b") "b")) := by
  refine ⟨⟨rfl, ?_, rfl, rfl⟩, ?_, ?_⟩ <;> decide +kernel

end Config

end Shebang
