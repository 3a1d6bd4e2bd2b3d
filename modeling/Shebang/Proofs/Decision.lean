import Shebang.Proofs.Ambiguity
import Shebang.Proofs.OrderedMap

/-!
The decision on the language of a file. An extension that at most one language claims settles it
without the file, and in every other case the first line does. What is returned is what the registry
holds, once and under its own name.
-/

namespace Shebang

namespace Registry

variable {r : Registry} {l : Language} {name : Text}

structure Keyed (r : Registry) : Prop where
  distinct : r.names.Nodup
  named : ∀ e ∈ r.byName, e.2.name = e.1

theorem Keyed.register (h : r.Keyed) (l : Language) : Keyed ⟨r.byName.put l.name l⟩ where
  distinct := OrderedMap.nodup_keys_put h.distinct
  named := by
    intro e he
    rcases OrderedMap.mem_put he with rfl | he
    · rfl
    · exact h.named e he

theorem ofList_keyed (languages : List Language) : (ofList languages).Keyed := by
  have hfold : ∀ m : OrderedMap Language, Keyed ⟨m⟩ →
      Keyed ⟨languages.foldl (fun m l => m.put l.name l) m⟩ := by
    induction languages with
    | nil => exact fun m h => h
    | cons l languages ih => exact fun m h => ih _ (h.register l)
  exact hfold [] ⟨List.nodup_nil, fun e he => absurd he List.not_mem_nil⟩

theorem Keyed.find?_eq_some (h : r.Keyed) :
    r.find? name = some l ↔ l ∈ r.languages ∧ l.name = name := by
  rw [find?, OrderedMap.find?_eq_some h.distinct]
  constructor
  · intro hm
    exact ⟨List.mem_map.mpr ⟨(name, l), hm, rfl⟩, h.named _ hm⟩
  · rintro ⟨hl, rfl⟩
    obtain ⟨e, he, rfl⟩ := List.mem_map.mp hl
    rw [h.named e he]
    exact he

theorem Keyed.distinct_languages (h : r.Keyed) : r.languages.Nodup := by
  have hnames : r.names = r.languages.map (·.name) := by
    rw [names, languages, OrderedMap.keys, OrderedMap.values, List.map_map]
    exact List.map_congr_left fun e he => (h.named e he).symm
  have hdistinct := h.distinct
  rw [hnames] at hdistinct
  exact hdistinct.of_map

end Registry

namespace Path

variable {path : Path} {stem e : Text}

theorem dropDots_dotless (h : '.' ∉ e) : e.dropDots = e := by
  cases e with
  | nil => rfl
  | cons x e =>
    have hx : ¬ x = '.' := fun hx => h (hx ▸ List.mem_cons_self)
    simp [Text.dropDots, hx]

theorem extension_tail (hstop : Text.Stops (· != '.') stem.reverse) (hd : '.' ∉ e)
    (hn : path.name = stem ++ e) :
    path.extension = if e = [] ∨ stem.length ≤ 1 then [] else e := by
  have hrun : ∀ x ∈ e.reverse, (x != '.') = true := by
    intro x hx
    exact bne_iff_ne.mpr fun h => hd (h ▸ List.mem_reverse.mp hx)
  have htail : (path.name.reverse.takeWhile (· != '.')).reverse = e := by
    rw [hn, List.reverse_append, takeWhile_run hrun hstop, List.reverse_reverse]
  have hlong : path.name.length ≤ e.length + 1 ↔ stem.length ≤ 1 := by
    rw [hn, List.length_append]
    omega
  simp only [extension, suffix, htail, hlong]
  split_ifs
  · rfl
  · exact dropDots_dotless hd

theorem extension_of_name (hs : stem ≠ []) (hd : '.' ∉ e) (hn : path.name = stem ++ '.' :: e) :
    path.extension = e := by
  have hstop : Text.Stops (· != '.') (stem ++ ['.']).reverse := by
    rw [List.reverse_append]
    exact Text.stops_cons.mpr rfl
  have hlong : ¬ (stem ++ ['.']).length ≤ 1 := by
    have hpos := List.length_pos_of_ne_nil hs
    rw [List.length_append, List.length_singleton]
    omega
  rw [extension_tail hstop hd (by rw [hn, List.append_assoc]; rfl)]
  by_cases he : e = []
  · simp [he]
  · rw [if_neg (not_or.mpr ⟨he, hlong⟩)]

/-- An extension is what follows the last dot of a name, if that dot is neither its first nor its
last character. -/
theorem extension_cases (path : Path) : path.extension = [] ∨
    ∃ stem, stem ≠ [] ∧ path.name = stem ++ '.' :: path.extension ∧ '.' ∉ path.extension := by
  by_cases hdot : '.' ∈ path.name
  · obtain ⟨back, front, hsplit, hback⟩ := List.eq_append_cons_of_mem (List.mem_reverse.mpr hdot)
    have hn : path.name = front.reverse ++ '.' :: back.reverse := by
      rw [← List.reverse_reverse path.name, hsplit, List.reverse_append, List.reverse_cons,
        List.append_assoc]
      rfl
    have hd : '.' ∉ back.reverse := fun h => hback (List.mem_reverse.mp h)
    by_cases hs : front.reverse = []
    · left
      rw [hs, List.nil_append] at hn
      have hstop : Text.Stops (· != '.') ['.'].reverse := Text.stops_cons.mpr rfl
      rw [extension_tail hstop hd hn, if_pos (Or.inr (by decide))]
    · right
      rw [extension_of_name hs hd hn]
      exact ⟨_, hs, hn, hd⟩
  · left
    have hstop : Text.Stops (· != '.') ([] : Text).reverse := Text.stops_nil
    rw [extension_tail hstop hdot rfl, if_pos (Or.inr (by decide))]

theorem extension_eq_iff (he : e ≠ []) : path.extension = e ↔
    '.' ∉ e ∧ ∃ stem, stem ≠ [] ∧ path.name = stem ++ '.' :: e := by
  constructor
  · rintro rfl
    rcases path.extension_cases with h | ⟨stem, hs, hn, hd⟩
    · exact absurd h he
    · exact ⟨hd, stem, hs, hn⟩
  · rintro ⟨hd, stem, hs, hn⟩
    exact extension_of_name hs hd hn

theorem dropDots_extension (path : Path) : path.extension.dropDots = path.extension := by
  rcases path.extension_cases with h | ⟨_, _, _, hd⟩
  · rw [h]
    rfl
  · exact dropDots_dotless hd

end Path

theorem mem_forExtension {r : Registry} {path : Path} {l : Language} :
    l ∈ r.forExtension path.extension ↔ l ∈ r.languages ∧ path.extension ∈ l.extensions := by
  rw [Registry.forExtension, List.mem_filter, Language.matchesExtension, path.dropDots_extension,
    List.contains_iff_mem]

def DetectionError.relocate (path : Path) : DetectionError → DetectionError
  | .unknownExtension _ extension => .unknownExtension path extension
  | .noExtension _ => .noExtension path
  | .notOpened cause => .notOpened cause

section Decision

variable {r : Registry} {fs fs' : FileSystem} {path path' : Path} {l : Language} {tag : Tag}

theorem detect_bare (hx : path.extension = []) :
    (r.detect fs path).outcome = (shebangTag fs path).outcome.mapError .notOpened >>= fun tag =>
      match if tag = .none then none else r.find? tag.name with
      | none => .error (.noExtension path)
      | some l => .ok l := by
  rw [Registry.detect, if_pos hx, Registry.detectByShebang, Attempt.outcome_bind, Registry.tagAt,
    Attempt.outcome_adapt]
  congr 1
  funext tag
  cases if tag = .none then none else r.find? tag.name with
  | none => rfl
  | some l => rfl

theorem detect_unclaimed (hx : path.extension ≠ []) (hc : r.forExtension path.extension = []) :
    (r.detect fs path).outcome = .error (.unknownExtension path path.extension) := by
  rw [Registry.detect, if_neg hx, hc]
  rfl

theorem detect_sole (hx : path.extension ≠ []) (hc : r.forExtension path.extension = [l]) :
    (r.detect fs path).outcome = .ok l := by
  rw [Registry.detect, if_neg hx, hc]
  rfl

/-- Of a file, the decision takes the tag and nothing else. -/
theorem detect_relocate (hx : path'.extension = path.extension)
    (ht : (shebangTag fs' path').outcome = (shebangTag fs path).outcome) :
    (r.detect fs' path').outcome = (r.detect fs path).outcome.mapError (.relocate path') := by
  by_cases hbare : path.extension = []
  · rw [detect_bare hbare, detect_bare (hx.trans hbare), ht]
    cases (shebangTag fs path).outcome with
    | error e => rfl
    | ok tag =>
      simp only [Attempt.mapError_ok, Attempt.ok_bind]
      cases if tag = .none then none else r.find? tag.name with
      | none => rfl
      | some l => rfl
  · have hbare' : path'.extension ≠ [] := hx ▸ hbare
    match hc : r.forExtension path.extension with
    | [] =>
      rw [detect_unclaimed hbare hc, detect_unclaimed hbare' (hx ▸ hc), hx]
      rfl
    | [l] =>
      rw [detect_sole hbare hc, detect_sole hbare' (hx ▸ hc)]
      rfl
    | first :: second :: others =>
      rw [detect_several hbare hc, detect_several hbare' (hx ▸ hc), ht]
      cases (shebangTag fs path).outcome with
      | error e => rfl
      | ok tag => rfl

theorem getD_find?_mem {first : Language} {others : List Language} (p : Language → Bool) :
    ((first :: others).find? p).getD first ∈ first :: others := by
  cases hf : (first :: others).find? p with
  | none => exact List.mem_cons_self
  | some l => exact List.mem_of_find?_eq_some hf

theorem detect_ok (h : (r.detect fs path).outcome = .ok l) :
    (path.extension = [] ∧ ∃ name, r.find? name = some l) ∨
      (path.extension ≠ [] ∧ l ∈ r.forExtension path.extension) := by
  by_cases hbare : path.extension = []
  · left
    refine ⟨hbare, ?_⟩
    rw [detect_bare hbare] at h
    obtain ⟨tag, -, htag⟩ := Attempt.bind_eq_ok.mp h
    split at htag
    · cases htag
    · rename_i found hfound
      obtain rfl := Except.ok.inj htag
      split_ifs at hfound
      exact ⟨_, hfound⟩
  · right
    refine ⟨hbare, ?_⟩
    match hc : r.forExtension path.extension with
    | [] =>
      rw [detect_unclaimed hbare hc] at h
      cases h
    | [l'] =>
      rw [detect_sole hbare hc] at h
      obtain rfl := Except.ok.inj h
      exact List.mem_singleton_self _
    | first :: second :: others =>
      rw [detect_several hbare hc] at h
      cases ht : (shebangTag fs path).outcome with
      | error e =>
        rw [ht] at h
        cases h
      | ok tag =>
        rw [ht] at h
        obtain rfl := Except.ok.inj h
        exact getD_find?_mem _

end Decision

section Reading

variable {fs fs' : FileSystem} {path path' : Path} {content content' : Bytes}

theorem marked_firstLine (content : Bytes) :
    (firstLine content).take 2 = markerBytes ↔ content.take 2 = markerBytes := by
  constructor
  · intro h
    obtain ⟨rest, hc⟩ := firstLine_prefix content
    have hlong : 2 ≤ (firstLine content).length := by
      have hlen := congrArg List.length h
      rw [List.length_take] at hlen
      exact min_eq_left_iff.mp hlen
    rw [← hc, List.take_append_of_le_length hlong, h]
  · intro h
    rw [← List.take_append_drop 2 content, h, firstLine_marked]
    rfl

theorem shebangText_firstLine (h : firstLine content = firstLine content') :
    (shebangText content).toOption = (shebangText content').toOption := by
  have hline : ∀ s, shebangText content = .ok s ↔ shebangText content' = .ok s := by
    intro s
    rw [shebangText_eq_ok_iff, shebangText_eq_ok_iff, ← marked_firstLine content,
      ← marked_firstLine content', h]
  cases hs : shebangText content with
  | ok s => rw [(hline s).mp hs]
  | error e =>
    cases hs' : shebangText content' with
    | ok s =>
      rw [(hline s).mpr hs'] at hs
      cases hs
    | error e' => rfl

theorem tag_reread (hr : fs.read path = .ok content) (hr' : fs'.read path' = .ok content')
    (h : firstLine content = firstLine content') :
    (shebangTag fs' path').outcome = (shebangTag fs path).outcome := by
  rw [shebangTag_content hr, shebangTag_content hr', shebangText_firstLine h]

end Reading

/-- How a registry decides on a path, for every file system at once. A path without an extension is
opened, and one with a NUL cannot be. -/
structure Registry.Decides (r : Registry) (path : Path) : Prop where
  extension : ∀ e, e ≠ [] → (path.extension = e ↔
    '.' ∉ e ∧ ∃ stem, stem ≠ [] ∧ path.name = stem ++ '.' :: e)
  unclaimed : path.extension ≠ [] → (∀ l ∈ r.languages, path.extension ∉ l.extensions) →
    ∀ fs, (r.detect fs path).outcome = .error (.unknownExtension path path.extension)
  sole : ∀ l ∈ r.languages, path.extension ≠ [] → path.extension ∈ l.extensions →
    (∀ other ∈ r.languages, path.extension ∈ other.extensions → other = l) →
    ∀ fs, (r.detect fs path).outcome = .ok l
  tagged : path.extension = [] → ∀ fs tag l, (shebangTag fs path).outcome = .ok tag →
    tag ≠ .none → r.find? tag.name = some l → (r.detect fs path).outcome = .ok l
  untagged : path.extension = [] → ∀ fs tag, (shebangTag fs path).outcome = .ok tag →
    (tag = .none ∨ r.find? tag.name = none) →
    (r.detect fs path).outcome = .error (.noExtension path)
  asked : '\x00' ∉ path.display → ∀ fs, ∃ tag, (shebangTag fs path).outcome = .ok tag
  unasked : path.extension = [] → '\x00' ∈ path.display →
    ∀ fs, (r.detect fs path).outcome = .error (.notOpened .embeddedNul)
  held : ∀ fs l, (r.detect fs path).outcome = .ok l →
    r.find? l.name = some l ∧ l ∈ r.languages ∧
      (path.extension ≠ [] → path.extension ∈ l.extensions)
  firstLine : ∀ path' fs fs' content content', path'.extension = path.extension →
    fs.read path = .ok content → fs'.read path' = .ok content' →
    firstLine content = firstLine content' →
    (r.detect fs' path').outcome = (r.detect fs path).outcome.mapError (.relocate path')
  located : ∀ fs, (r.detect fs path).outcome.mapError (.relocate path) = (r.detect fs path).outcome

section Decides

variable {r : Registry} {fs : FileSystem} {path : Path} {l : Language} {tag : Tag}

theorem forExtension_sole (hr : r.Keyed) (hl : l ∈ r.languages) (hx : path.extension ∈ l.extensions)
    (hother : ∀ other ∈ r.languages, path.extension ∈ other.extensions → other = l) :
    r.forExtension path.extension = [l] := by
  have hnodup : (r.forExtension path.extension).Nodup := hr.distinct_languages.filter _
  have hmem : l ∈ r.forExtension path.extension := mem_forExtension.mpr ⟨hl, hx⟩
  have hall : ∀ other ∈ r.forExtension path.extension, other = l := by
    intro other ho
    obtain ⟨ho, hox⟩ := mem_forExtension.mp ho
    exact hother other ho hox
  match hc : r.forExtension path.extension with
  | [] =>
    rw [hc] at hmem
    cases hmem
  | [l'] =>
    rw [hc] at hmem
    rw [List.mem_singleton.mp hmem]
  | first :: second :: others =>
    rw [hc] at hnodup hall
    have hsame : first = second := by
      rw [hall first List.mem_cons_self, hall second (List.mem_cons_of_mem _ List.mem_cons_self)]
    exact absurd (hsame ▸ List.mem_cons_self) (List.nodup_cons.mp hnodup).1

theorem detect_tagged (hx : path.extension = []) (ht : (shebangTag fs path).outcome = .ok tag)
    (htag : tag ≠ .none) (hl : r.find? tag.name = some l) : (r.detect fs path).outcome = .ok l := by
  rw [detect_bare hx, ht, Attempt.mapError_ok, Attempt.ok_bind, if_neg htag, hl]

theorem detect_untagged (hx : path.extension = []) (ht : (shebangTag fs path).outcome = .ok tag)
    (hnone : tag = .none ∨ r.find? tag.name = none) :
    (r.detect fs path).outcome = .error (.noExtension path) := by
  have hnamed : (if tag = .none then none else r.find? tag.name) = none := by
    rcases hnone with htag | hl
    · exact if_pos htag
    · rw [hl, ite_self]
  rw [detect_bare hx, ht, Attempt.mapError_ok, Attempt.ok_bind, hnamed]

theorem detect_held (hr : r.Keyed) (h : (r.detect fs path).outcome = .ok l) :
    r.find? l.name = some l ∧ l ∈ r.languages ∧
      (path.extension ≠ [] → path.extension ∈ l.extensions) := by
  rcases detect_ok h with ⟨hx, name, hl⟩ | ⟨-, hm⟩
  · have hmem := (hr.find?_eq_some.mp hl).1
    exact ⟨hr.find?_eq_some.mpr ⟨hmem, rfl⟩, hmem, fun h => absurd hx h⟩
  · obtain ⟨hmem, hx⟩ := mem_forExtension.mp hm
    exact ⟨hr.find?_eq_some.mpr ⟨hmem, rfl⟩, hmem, fun _ => hx⟩

end Decides

theorem ofList_decides (languages : List Language) (path : Path) :
    (Registry.ofList languages).Decides path where
  extension e he := Path.extension_eq_iff he
  unclaimed hx hall fs := by
    refine detect_unclaimed hx (List.eq_nil_iff_forall_not_mem.mpr ?_)
    intro l hm
    obtain ⟨hl, hlx⟩ := mem_forExtension.mp hm
    exact hall l hl hlx
  sole l hl hx hlx hother fs :=
    detect_sole hx (forExtension_sole (Registry.ofList_keyed languages) hl hlx hother)
  tagged hx fs tag l ht htag hl := detect_tagged hx ht htag hl
  untagged hx fs tag ht hnone := detect_untagged hx ht hnone
  asked hn fs := exists_tag hn
  unasked hx hn fs := by
    rw [detect_bare hx, tag_nul hn]
    rfl
  held fs l h := detect_held (Registry.ofList_keyed languages) h
  firstLine path' fs fs' content content' hx hr hr' h := detect_relocate hx (tag_reread hr hr' h)
  located fs := (detect_relocate rfl rfl).symm

/-- A language called like the missing interpreter is not returned for a file without one. -/
theorem ofList_decides_run : (shebangTag (holding "echo\n") (.ofText "run")).outcome = .ok .none ∧
    (shadowing.detect (holding "echo\n") (.ofText "run")).outcome =
      .error (.noExtension (.ofText "run")) := by
  have ht : (shebangTag (holding "echo\n") (.ofText "run")).outcome = .ok .none := by
    decide +kernel
  exact ⟨ht, (ofList_decides _ _).untagged (by decide) _ _ ht (Or.inl rfl)⟩

/-- A name with a NUL has no extension and no shebang line either, but it is the attempt to open the
file that fails. -/
theorem detect_unopened : (Path.ofText "x\x00").extension = [] ∧
    (Registry.builtin.detect ⟨fun _ => .refused .noEntry⟩ (.ofText "x\x00")).outcome =
      .error (.notOpened .embeddedNul) ∧
    (Registry.builtin.detect ⟨fun _ => .refused .noEntry⟩ (.ofText "x\x00")).outcome ≠
      .error (.noExtension (.ofText "x\x00")) := by
  decide +kernel

end Shebang
