import Shebang.Proofs.Candidates
import Shebang.Proofs.Regrouping
import Shebang.Proofs.Rereading

/-!
Merging takes nothing away. A draft with another one merged on top has all its names in their
places, and the candidates of an extension are still candidates, in the same order. So a run that
merges more files knows every extension that it knew before.
-/

namespace Shebang

namespace Draft

variable {lower upper : Draft}

/-- Names keep their places, and so do candidates, whether the extension is written with dots or
without. -/
structure Extends (lower d : Draft) : Prop where
  names : lower.languages.keys <+: d.languages.keys
  candidates : ∀ e, (lower.registry.candidates e).Sublist (d.registry.candidates e)

theorem Tidy.extends_mergeWith (hl : lower.Tidy) (hu : upper.Tidy) :
    Extends lower (lower.mergeWith upper .merge) := by
  have hnames : lower.languages.keys <+: (lower.mergeWith upper .merge).languages.keys := by
    rw [keys_mergeWith hl.nodup, List.eraseDups_append, eraseDups_of_nodup hl.nodup]
    exact List.prefix_append _ _
  refine ⟨hnames, fun e => ?_⟩
  have hclaims : ∀ name, (lower.extensionsOf name).contains e.dropDots →
      ((lower.mergeWith upper .merge).extensionsOf name).contains e.dropDots := by
    intro name h
    rw [List.contains_iff_mem] at h ⊢
    exact hu.mem_extensionsOf_merge.mpr (.inl h)
  rw [hl.candidates_eq, (hl.mergeWith hu .merge).candidates_eq]
  exact (List.monotone_filter_right _ hclaims).trans (hnames.sublist.filter _)

end Draft

namespace Config

variable {fs fs' : FileSystem} {toml : Toml.Parser} {sources sources' : Sources} {d d' : Draft}

/-- Two runs that merge, the second of which reads every file of the first as it was, and may read
more. -/
structure Adds (fs fs' : FileSystem) (sources sources' : Sources) : Prop where
  merges : sources.collation = .merge
  merges' : sources'.collation = .merge
  files : ∀ path ∈ sources.files fs, path ∈ sources'.files fs' ∧ fs'.read path = fs.read path

theorem Adds.extras {more : List Path} (hm : sources.collation = .merge)
    (h : sources.extras ⊆ more) : Adds fs fs sources { sources with extras := more } where
  merges := hm
  merges' := hm
  files := fun _ hp => ⟨List.mem_append.mpr ((List.mem_append.mp hp).imp_right fun hx => h hx), rfl⟩

theorem Adds.extensionsOf (h : Adds fs fs' sources sources')
    (hd : (loadMerged fs toml sources).outcome = .ok d)
    (hd' : (loadMerged fs' toml sources').outcome = .ok d') {name x : Text}
    (hx : x ∈ d.extensionsOf name) : x ∈ d'.extensionsOf name := by
  obtain ⟨-, stack, hs, rfl⟩ := loadMerged_eq_ok_iff.mp hd
  obtain ⟨-, stack', hs', rfl⟩ := loadMerged_eq_ok_iff.mp hd'
  rw [h.merges, (hs.layered .merge).mem_extensionsOf] at hx
  rw [h.merges', (hs'.layered .merge).mem_extensionsOf]
  obtain ⟨layer, hlayer, hgiven⟩ := hx
  refine ⟨layer, ?_, hgiven⟩
  rcases List.mem_cons.mp hlayer with rfl | hlayer
  · exact List.mem_cons_self
  · obtain ⟨⟨path, layer⟩, hm, rfl⟩ := List.mem_map.mp hlayer
    obtain ⟨hpath, hc⟩ := hs.mem_iff.mp hm
    obtain ⟨hpath', hread⟩ := h.files path hpath
    have hm' := hs'.mem_iff.mpr ⟨hpath', hc.again hread⟩
    exact List.mem_cons_of_mem _ (List.mem_map_of_mem hm')

theorem Adds.candidates (h : Adds fs fs' sources sources')
    (hd : (loadMerged fs toml sources).outcome = .ok d)
    (hd' : (loadMerged fs' toml sources').outcome = .ok d') {e : Text}
    (he : d'.registry.candidates e = []) : d.registry.candidates e = [] := by
  rw [List.eq_nil_iff_forall_not_mem] at he ⊢
  intro name hname
  rw [(loadMerged_tidy hd).mem_candidates] at hname
  exact he name ((loadMerged_tidy hd').mem_candidates.mpr (h.extensionsOf hd hd' hname))

end Config

namespace Draft

open Config (Adds loadMerged threeFiles threeLayers threeSources)

/-- A layer that is merged on top takes no name and no candidate away; and a path whose extension is
unknown to a run that merges more files was unknown without them. -/
theorem mergeWith_extends :
    (∀ a b, Built a → Built b → Extends a (a.mergeWith b .merge)) ∧
    ∀ fs fs' toml sources sources' d d', Adds fs fs' sources sources' →
      (loadMerged fs toml sources).outcome = .ok d →
      (loadMerged fs' toml sources').outcome = .ok d' →
      ∀ world world' path p e,
        (d'.registry.detect world' path).outcome = .error (.unknownExtension p e) →
        (d.registry.detect world path).outcome = .error (.unknownExtension p e) := by
  constructor
  · intro a b ha hb
    exact ha.tidy.extends_mergeWith hb.tidy
  · intro fs fs' toml sources sources' d d' hadds hd hd' world world' path p e h
    obtain ⟨hx, hc, hp, he⟩ := Registry.detect_unknown_iff.mp h
    exact Registry.detect_unknown_iff.mpr ⟨hx, hadds.candidates hd hd' hc, hp, he⟩

def twoLayers : Draft where
  languages := threeLayers.languages.put "fish" ⟨"fish", [], "Fish"⟩
  setKeys := threeLayers.setKeys.put "fish" ⟨false, true⟩
  configFiles := threeLayers.configFiles.dropLast

theorem mergeWith_extends_threeLayers :
    Built defaults ∧ Built extended ∧
    Adds threeFiles threeFiles { threeSources with extras := [] } threeSources ∧
    (loadMerged threeFiles Toml.parse { threeSources with extras := [] }).outcome = .ok twoLayers ∧
    (loadMerged threeFiles Toml.parse threeSources).outcome = .ok threeLayers ∧
    (threeLayers.registry.detect threeFiles (.ofText "a.x")).outcome =
      .error (.unknownExtension (.ofText "a.x") "x") ∧
    Extends defaults (defaults.mergeWith extended .merge) ∧
    (twoLayers.registry.detect threeFiles (.ofText "a.x")).outcome =
      .error (.unknownExtension (.ofText "a.x") "x") := by
  have hadds : Adds threeFiles threeFiles { threeSources with extras := [] } threeSources :=
    Adds.extras rfl (List.nil_subset _)
  have htwo : (loadMerged threeFiles Toml.parse { threeSources with extras := [] }).outcome =
      .ok twoLayers := by decide +kernel
  have hthree : (loadMerged threeFiles Toml.parse threeSources).outcome = .ok threeLayers := by
    decide +kernel
  have hunknown : (threeLayers.registry.detect threeFiles (.ofText "a.x")).outcome =
      .error (.unknownExtension (.ofText "a.x") "x") := by decide +kernel
  exact ⟨.defaults, extended_built, hadds, htwo, hthree, hunknown,
    mergeWith_extends.1 _ _ .defaults extended_built,
    mergeWith_extends.2 _ _ _ _ _ _ _ hadds htwo hthree _ _ _ _ _ hunknown⟩

end Draft

end Shebang
