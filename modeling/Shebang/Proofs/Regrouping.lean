import Shebang.Proofs.Draft

/-!
Drafts that lie on each other may be put together in any grouping. Where two layers have a language,
its keys and their record are combined by one rule, and that rule is associative on languages whose
unset keys have their defaults.
-/

namespace Shebang

theorem SetKeys.union_assoc (a b c : SetKeys) : (a.union b).union c = a.union (b.union c) := by
  simp [union, Bool.or_assoc]

theorem SetKeys.Covers.collate {base top : Language} {lower upper : SetKeys} (mode : Collation)
    (hb : lower.Covers base) :
    (lower.union upper).Covers (mode.collate base top upper) := by
  constructor
  · intro h
    obtain ⟨hl, hu⟩ := Bool.or_eq_false_iff.mp h
    simp [Collation.collate, hu, hb.1 hl]
  · intro h
    obtain ⟨hl, hu⟩ := Bool.or_eq_false_iff.mp h
    simp [Collation.collate, hu, hb.2 hl]

namespace Collation

def stack (mode : Collation) (base top : Language × SetKeys) : Language × SetKeys :=
  (mode.collate base.1 top.1 top.2, base.2.union top.2)

/-- The extensions of three layers. Those of the one between count even where they are not set, so
they have to have their default there. -/
theorem collate_extensions_assoc (mode : Collation) (a : Language) {b c : Language}
    {setB setC : SetKeys} (hb : setB.Covers b) :
    (mode.collate a (mode.collate b c setC) (setB.union setC)).extensions =
      (mode.collate (mode.collate a b setB) c setC).extensions := by
  cases hC : setC.extensions with
  | false => cases hB : setB.extensions <;> simp [collate, SetKeys.union, hB, hC]
  | true =>
    cases mode with
    | revise => simp [collate, SetKeys.union, hC]
    | merge =>
      cases hB : setB.extensions with
      | false =>
        simpa [collate, SetKeys.union, hB, hC, hb.1 hB] using
          eraseDups_append_eraseDups a.extensions c.extensions
      | true =>
        simpa [collate, SetKeys.union, hB, hC] using
          eraseDups_append_assoc a.extensions b.extensions c.extensions

theorem stack_assoc (mode : Collation) (a : Language × SetKeys) {b c : Language × SetKeys}
    (hb : b.2.Covers b.1) : mode.stack a (mode.stack b c) = mode.stack (mode.stack a b) c := by
  apply Prod.ext
  · have hdescription : (mode.stack a (mode.stack b c)).1.description =
        (mode.stack (mode.stack a b) c).1.description := by
      cases hB : b.2.description <;> cases hC : c.2.description <;>
        simp [stack, collate, SetKeys.union, hB, hC]
    exact congrArg₂ (Language.mk a.1.name) (mode.collate_extensions_assoc a.1 hb) hdescription
  · exact (SetKeys.union_assoc _ _ _).symm

end Collation

namespace Draft

variable {mode : Collation} {lower upper d : Draft} {name : Text}

def entryAt (d : Draft) (name : Text) : Option (Language × SetKeys) :=
  (d.languages.find? name).map fun l => (l, d.keysOf name)

theorem Tidy.entry_covers (h : d.Tidy) {e : Language × SetKeys} (he : d.entryAt name = some e) :
    e.2.Covers e.1 := by
  obtain ⟨l, hl, rfl⟩ := Option.map_eq_some_iff.mp he
  exact (h.find?_setKeys hl).2

theorem find?_languages (d : Draft) (name : Text) :
    d.languages.find? name = (d.entryAt name).map Prod.fst := by
  rw [entryAt, Option.map_map]
  exact Option.map_id'.symm

theorem Tidy.find?_setKeys_eq (h : d.Tidy) (name : Text) :
    d.setKeys.find? name = (d.entryAt name).map Prod.snd := by
  cases hl : d.languages.find? name with
  | none =>
    have hs : d.setKeys.find? name = none := by
      rw [OrderedMap.find?_eq_none, h.keys, ← OrderedMap.find?_eq_none]
      exact hl
    rw [entryAt, hl, hs]
    rfl
  | some l =>
    rw [entryAt, hl, (h.find?_setKeys hl).1]
    rfl

theorem Tidy.setKeys_ext {a b : Draft} (ha : a.Tidy) (hb : b.Tidy)
    (hkeys : a.languages.keys = b.languages.keys)
    (hset : ∀ name, (a.entryAt name).map Prod.snd = (b.entryAt name).map Prod.snd) :
    a.setKeys = b.setKeys := by
  have hn : a.setKeys.keys.Nodup := ha.keys ▸ ha.nodup
  have hk : a.setKeys.keys = b.setKeys.keys := by rw [ha.keys, hb.keys, hkeys]
  refine OrderedMap.ext_find? hn hk fun name => ?_
  rw [ha.find?_setKeys_eq, hb.find?_setKeys_eq, hset]

theorem Tidy.ext {a b : Draft} (ha : a.Tidy) (hb : b.Tidy)
    (hkeys : a.languages.keys = b.languages.keys) (hentry : ∀ name, a.entryAt name = b.entryAt name)
    (hfiles : a.configFiles = b.configFiles) : a = b := by
  have hlanguages : a.languages = b.languages := by
    refine OrderedMap.ext_find? ha.nodup hkeys fun name => ?_
    rw [find?_languages, find?_languages, hentry]
  have hset : a.setKeys = b.setKeys := ha.setKeys_ext hb hkeys fun name => by rw [hentry]
  calc a = ⟨a.languages, a.setKeys, a.configFiles⟩ := rfl
    _ = ⟨b.languages, b.setKeys, b.configFiles⟩ := by rw [hlanguages, hset, hfiles]

theorem Tidy.entryAt_mergeWith (hl : lower.Tidy) (hu : upper.Tidy) (mode : Collation)
    (name : Text) : (lower.mergeWith upper mode).entryAt name =
      Option.merge mode.stack (lower.entryAt name) (upper.entryAt name) := by
  rw [entryAt, keysOf, find?_mergeWith hu.nodup, find?_mergeWith_setKeys hu.nodup]
  cases hup : upper.languages.find? name with
  | none =>
    have hnone : upper.entryAt name = none := by rw [entryAt, hup, Option.map_none]
    rw [hnone, Option.merge_none_right]
    rfl
  | some top =>
    have htop : upper.entryAt name = some (top, upper.keysOf name) := by
      rw [entryAt, hup, Option.map_some]
    rw [htop, hl.find?_setKeys_eq]
    cases hlow : lower.languages.find? name with
    | none =>
      have hnone : lower.entryAt name = none := by rw [entryAt, hlow, Option.map_none]
      rw [hnone, Option.merge_none_left, Option.map_none, Option.getD_none, SetKeys.none_union]
      rfl
    | some base =>
      have hbase : lower.entryAt name = some (base, lower.keysOf name) := by
        rw [entryAt, hlow, Option.map_some]
      rw [hbase]
      rfl

theorem Tidy.mergeWith (hl : lower.Tidy) (hu : upper.Tidy) (mode : Collation) :
    (lower.mergeWith upper mode).Tidy where
  keys := by
    have hs : lower.setKeys.keys = lower.languages.keys.eraseDups := by
      rw [hl.keys, eraseDups_of_nodup hl.nodup]
    rw [keys_mergeWith hl.nodup, mergeWith_setKeys]
    exact OrderedMap.keys_putAll _ _ hs
  nodup := by
    rw [keys_mergeWith hl.nodup]
    exact nodup_eraseDups _
  named := by
    intro name l h
    rcases mergeWith_cases hu.nodup h with ⟨-, hlow⟩ | ⟨-, hup⟩ | ⟨base, top, hlow, -, rfl⟩
    · exact hl.named name l hlow
    · exact hu.named name l hup
    · exact hl.named name base hlow
  covered := by
    intro name l set h hs
    have he : (lower.mergeWith upper mode).entryAt name = some (l, set) := by
      rw [entryAt, h, keysOf, hs]
      rfl
    rw [hl.entryAt_mergeWith hu] at he
    cases hlow : lower.entryAt name with
    | none =>
      rw [hlow, Option.merge_none_left] at he
      exact hu.entry_covers he
    | some base =>
      cases hup : upper.entryAt name with
      | none =>
        rw [hlow, hup, Option.merge_none_right] at he
        exact hl.entry_covers (hlow.trans he)
      | some top =>
        rw [hlow, hup, Option.merge_some_some] at he
        obtain ⟨rfl, rfl⟩ := Prod.mk.inj (Option.some.inj he)
        exact (hl.entry_covers hlow).collate mode

theorem Tidy.foldl (h : d.Tidy) {above : List Draft} (habove : ∀ top ∈ above, top.Tidy)
    (mode : Collation) : (above.foldl (·.mergeWith · mode) d).Tidy := by
  induction above generalizing d with
  | nil => exact h
  | cons top above ih =>
    obtain ⟨htop, hrest⟩ := List.forall_mem_cons.mp habove
    exact ih (h.mergeWith htop mode) hrest

/-- The step: two layers may be put together before they are put on a third. -/
theorem Tidy.mergeWith_mergeWith {a b c : Draft} (ha : a.Tidy) (hb : b.Tidy) (hc : c.Tidy)
    (mode : Collation) :
    a.mergeWith (b.mergeWith c mode) mode = (a.mergeWith b mode).mergeWith c mode := by
  have hab := ha.mergeWith hb mode
  have hbc := hb.mergeWith hc mode
  apply Tidy.ext (ha.mergeWith hbc mode) (hab.mergeWith hc mode)
  · rw [keys_mergeWith ha.nodup, keys_mergeWith hb.nodup, keys_mergeWith hab.nodup,
      keys_mergeWith ha.nodup]
    exact eraseDups_append_assoc _ _ _
  · intro name
    rw [ha.entryAt_mergeWith hbc, hb.entryAt_mergeWith hc, hab.entryAt_mergeWith hc,
      ha.entryAt_mergeWith hb]
    -- Only where all three have the name are keys put together twice.
    cases a.entryAt name with
    | none => rw [Option.merge_none_left, Option.merge_none_left]
    | some x =>
      cases hy : b.entryAt name with
      | none => rw [Option.merge_none_left, Option.merge_none_right]
      | some y =>
        cases c.entryAt name with
        | none => rw [Option.merge_none_right, Option.merge_none_right]
        | some z =>
          simp only [Option.merge_some_some]
          exact congrArg some (mode.stack_assoc x (hb.entry_covers hy))
  · exact (List.append_assoc _ _ _).symm

theorem Tidy.foldl_mergeWith {a b : Draft} (ha : a.Tidy) (hb : b.Tidy) {above : List Draft}
    (habove : ∀ d ∈ above, d.Tidy) (mode : Collation) :
    above.foldl (·.mergeWith · mode) (a.mergeWith b mode) =
      a.mergeWith (above.foldl (·.mergeWith · mode) b) mode := by
  induction above generalizing b with
  | nil => rfl
  | cons c above ih =>
    obtain ⟨hc, hrest⟩ := List.forall_mem_cons.mp habove
    rw [List.foldl_cons, List.foldl_cons, ← ha.mergeWith_mergeWith hb hc]
    exact ih (hb.mergeWith hc mode) hrest

/-- The drafts that can be made of the built-in languages and of tables. -/
inductive Built : Draft → Prop where
  | defaults : Built Draft.defaults
  | table {data : Table} {file : Option Path} {d : Draft} : ofTable data file = .ok d → Built d
  | merged {lower upper : Draft} (mode : Collation) : Built lower → Built upper →
      Built (lower.mergeWith upper mode)

theorem Built.tidy (h : Built d) : d.Tidy := by
  induction h with
  | defaults => exact defaults_tidy
  | table h => exact (ofTable_tidy h).1
  | merged mode _ _ hl hu => exact hl.mergeWith hu mode

/-- Layers stack associatively: two of them may be put together first, and so may any number of
layers, without a change in the configuration. -/
theorem mergeWith_assoc {a b c : Draft} (ha : Built a) (hb : Built b) (hc : Built c)
    {above : List Draft} (habove : ∀ d ∈ above, Built d) (mode : Collation) :
    a.mergeWith (b.mergeWith c mode) mode = (a.mergeWith b mode).mergeWith c mode ∧
    (a.mergeWith (above.foldl (·.mergeWith · mode) (b.mergeWith c mode)) mode).freeze =
      (above.foldl (·.mergeWith · mode) ((a.mergeWith b mode).mergeWith c mode)).freeze := by
  have hstep := ha.tidy.mergeWith_mergeWith hb.tidy hc.tidy mode
  have hbc := hb.tidy.mergeWith hc.tidy mode
  refine ⟨hstep, ?_⟩
  rw [← hstep, ha.tidy.foldl_mergeWith hbc fun d hd => (habove d hd).tidy]

def tableOf (name : Text) (fields : Table) : Table :=
  [("languages", .table [(name, .table fields)])]

def described : Draft := ⟨[("zsh", ⟨"zsh", [], "Z shell"⟩)], [("zsh", ⟨false, true⟩)], []⟩

def extended : Draft :=
  ⟨[("zsh", ⟨"zsh", ["z", "sh", "z"], []⟩)], [("zsh", ⟨true, false⟩)], [.ofText "a.toml"]⟩

theorem described_built : Built described :=
  Built.table (show ofTable (tableOf "zsh" [("description", .string "Z shell")]) none =
    .ok described from rfl)

theorem extended_built : Built extended :=
  Built.table (show ofTable (tableOf "zsh"
    [("extensions", .list [.string ".z", .string "sh", .string "z"])]) (some (.ofText "a.toml")) =
      .ok extended from rfl)

theorem mergeWith_zshLayers :
    Built defaults ∧ Built described ∧ Built extended ∧
      Built (extended.mergeWith described .revise) ∧
    ((defaults.mergeWith described .merge).mergeWith extended .merge).languages =
      ([("bash", ⟨"bash", ["bash", "sh"], "Bash scripts (*.bash, *.sh)"⟩),
        ("zsh", ⟨"zsh", ["zsh", "sh", "z"], "Z shell"⟩)] : OrderedMap Language) ∧
    defaults.mergeWith (described.mergeWith extended .merge) .merge =
      (defaults.mergeWith described .merge).mergeWith extended .merge ∧
    (defaults.mergeWith ([extended.mergeWith described .revise].foldl (·.mergeWith · .merge)
        (described.mergeWith extended .merge)) .merge).freeze =
      ([extended.mergeWith described .revise].foldl (·.mergeWith · .merge)
        ((defaults.mergeWith described .merge).mergeWith extended .merge)).freeze := by
  have htop : Built (extended.mergeWith described .revise) :=
    Built.merged .revise extended_built described_built
  refine ⟨.defaults, described_built, extended_built, htop, by decide +kernel, ?_⟩
  exact mergeWith_assoc .defaults described_built extended_built
    (List.forall_mem_singleton.mpr htop) .merge

end Draft

end Shebang
