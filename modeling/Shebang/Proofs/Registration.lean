import Mathlib.Data.List.Induction
import Shebang.Proofs.Decision

/-!
Registration of languages one after another. Whatever names come again, the registry has each name
once, in the place where it first came and with the definition that came last; all that is asked of
the registry is answered from these entries in their order.
-/

namespace Shebang

namespace OrderedMap

variable {α : Type} {m : OrderedMap α} {key : Text}

theorem put_of_mem (hn : m.keys.Nodup) (hk : key ∈ m.keys) (value : α) :
    m.put key value = m.map fun e => if e.1 = key then (key, value) else e := by
  induction m with
  | nil => exact absurd hk List.not_mem_nil
  | cons e rest ih =>
    obtain ⟨k, v⟩ := e
    obtain ⟨hfresh, hrest⟩ := List.nodup_cons.mp hn
    by_cases h : k = key
    · subst k
      have hothers : rest.map (fun e => if e.1 = key then (key, value) else e) = rest := by
        refine (List.map_congr_left ?_).trans (List.map_id _)
        intro e he
        apply if_neg
        intro hkey
        exact hfresh (List.mem_map.mpr ⟨e, he, hkey⟩)
      rw [put, if_pos rfl, List.map_cons, if_pos rfl, hothers]
    · have hin : key ∈ keys rest := by
        rcases List.mem_cons.mp hk with hkey | hin
        · exact absurd hkey.symm h
        · exact hin
      rw [put, if_neg h, List.map_cons, if_neg h, ih hrest hin]

end OrderedMap

namespace Text

theorem dropDots_split (e : Text) : ∃ dots, e = dots ++ e.dropDots ∧ (∀ x ∈ dots, x = '.') ∧
    e.dropDots.head? ≠ some '.' := by
  refine ⟨e.takeWhile (· == '.'), List.takeWhile_append_dropWhile.symm, ?_, ?_⟩
  · intro x hx
    have hdot := List.mem_takeWhile_imp hx
    exact eq_of_beq hdot
  · intro hdot
    have hstop := Text.stops_dropWhile (p := (· == '.')) e _ hdot
    simp at hstop

end Text

namespace Registry

variable {r : Registry} {languages : List Language} {l : Language} {name : Text}

def register (r : Registry) (l : Language) : Registry := ⟨r.byName.put l.name l⟩

theorem ofList_concat (languages : List Language) (l : Language) :
    ofList (languages ++ [l]) = (ofList languages).register l := by
  simp only [ofList, register, List.foldl_append, List.foldl_cons, List.foldl_nil]

theorem names_ofList (languages : List Language) :
    (ofList languages).names = (languages.map (·.name)).eraseDups := by
  induction languages using List.reverseRecOn with
  | nil => rfl
  | append_singleton languages l ih =>
    rw [ofList_concat, List.map_append]
    exact OrderedMap.keys_put_eraseDups ih

theorem find?_ofList (languages : List Language) (name : Text) :
    (ofList languages).find? name = languages.reverse.find? (·.name == name) := by
  induction languages using List.reverseRecOn with
  | nil => rfl
  | append_singleton languages l ih =>
    rw [ofList_concat, List.reverse_concat, List.find?_cons]
    refine (OrderedMap.find?_put _ _ _ _).trans ?_
    by_cases h : name = l.name
    · rw [if_pos h, beq_iff_eq.mpr h.symm]
    · rw [if_neg h, beq_false_of_ne (Ne.symm h)]
      exact ih

theorem find?_ofList_eq_some : (ofList languages).find? name = some l ↔
    ∃ earlier later, languages = earlier ++ l :: later ∧ l.name = name ∧
      ∀ other ∈ later, other.name ≠ name := by
  rw [find?_ofList, List.find?_eq_some_iff_append]
  constructor
  · rintro ⟨hl, later, earlier, hsplit, hlater⟩
    refine ⟨earlier.reverse, later.reverse, ?_, eq_of_beq hl, ?_⟩
    · rw [← List.reverse_reverse languages, hsplit]
      simp
    · intro other ho
      have hother := hlater other (List.mem_reverse.mp ho)
      simpa using hother
  · rintro ⟨earlier, later, rfl, rfl, hlater⟩
    refine ⟨beq_self_eq_true _, later.reverse, earlier.reverse, by simp, ?_⟩
    intro other ho
    simpa using hlater other (List.mem_reverse.mp ho)

theorem find?_ofList_eq_none :
    (ofList languages).find? name = none ↔ ∀ l ∈ languages, l.name ≠ name := by
  rw [find?_ofList, List.find?_eq_none]
  simp

theorem Keyed.names_languages (h : r.Keyed) : r.languages.map (·.name) = r.names := by
  rw [names, languages, OrderedMap.keys, OrderedMap.values, List.map_map]
  apply List.map_congr_left
  intro e he
  exact h.named e he

theorem Keyed.find?_names (h : r.Keyed) : r.names.map r.find? = r.languages.map some := by
  rw [← h.names_languages, List.map_map]
  apply List.map_congr_left
  intro l hl
  exact h.find?_eq_some.mpr ⟨hl, rfl⟩

theorem contains_iff : r.contains name = true ↔ name ∈ r.names := by
  have hnone : r.find? name = none ↔ name ∉ r.names := OrderedMap.find?_eq_none
  rw [← not_iff_not, ← hnone]
  unfold contains OrderedMap.contains
  rw [Option.isSome_iff_ne_none, not_not]
  rfl

theorem Keyed.languages_register (h : r.Keyed) (hl : l.name ∈ r.names) :
    (r.register l).languages =
      r.languages.map fun other => if other.name = l.name then l else other := by
  have hput : (r.register l).byName =
      r.byName.map fun e => if e.1 = l.name then (l.name, l) else e :=
    OrderedMap.put_of_mem h.distinct hl l
  rw [languages, languages, hput, OrderedMap.values, OrderedMap.values, List.map_map, List.map_map]
  apply List.map_congr_left
  intro e he
  have hname := h.named e he
  simp only [Function.comp_apply, hname]
  by_cases hkey : e.1 = l.name
  · simp only [hkey, if_true]
  · simp only [hkey, if_false]

/-- What one more definition of a registered language changes, and all that it changes. -/
structure Redefines (r : Registry) (l : Language) (r' : Registry) : Prop where
  names_eq : r'.names = r.names
  entries : r'.languages = r.languages.map fun other => if other.name = l.name then l else other
  replaced : r'.find? l.name = some l
  others : ∀ name, name ≠ l.name → r'.find? name = r.find? name

theorem Keyed.redefines (h : r.Keyed) (hl : l.name ∈ r.names) :
    r.Redefines l (r.register l) where
  names_eq := (OrderedMap.keys_put _ _ _).trans (if_pos hl)
  entries := h.languages_register hl
  replaced := (OrderedMap.find?_put _ _ _ _).trans (if_pos rfl)
  others _ hname := (OrderedMap.find?_put _ _ _ _).trans (if_neg hname)

/-- What a registry holds of the languages it was made of, in whatever order and however often their
names came. -/
structure Holds (r : Registry) (languages : List Language) : Prop where
  names_eq : r.names = (languages.map (·.name)).eraseDups
  found : ∀ name l, r.find? name = some l ↔
    ∃ earlier later, languages = earlier ++ l :: later ∧ l.name = name ∧
      ∀ other ∈ later, other.name ≠ name
  missing : ∀ name, r.find? name = none ↔ ∀ l ∈ languages, l.name ≠ name
  size_eq : r.size = r.names.length
  iterated : r.languages.map (·.name) = r.names ∧ r.names.map r.find? = r.languages.map some
  contained : ∀ name, r.contains name = true ↔ name ∈ r.names
  claimed : ∀ e, ∃ dots bare, e = dots ++ bare ∧ (∀ x ∈ dots, x = '.') ∧ bare.head? ≠ some '.' ∧
    r.forExtension e = r.languages.filter fun l => decide (bare ∈ l.extensions)
  redefined : ∀ l, l.name ∈ r.names → r.Redefines l (ofList (languages ++ [l]))

theorem ofList_holds (languages : List Language) : (ofList languages).Holds languages := by
  have hkeyed := ofList_keyed languages
  constructor
  · exact names_ofList languages
  · intro name l
    exact find?_ofList_eq_some
  · intro name
    exact find?_ofList_eq_none
  · exact (List.length_map _).symm
  · exact ⟨hkeyed.names_languages, hkeyed.find?_names⟩
  · intro name
    exact contains_iff
  · intro e
    obtain ⟨dots, hsplit, hdots, hbare⟩ := Text.dropDots_split e
    refine ⟨dots, e.dropDots, hsplit, hdots, hbare, ?_⟩
    apply List.filter_congr
    intro l _
    rw [Language.matchesExtension, List.contains_eq_mem]
  · intro l hl
    rw [ofList_concat]
    exact hkeyed.redefines hl

theorem ofList_holds_bash : ("bash" : Text) ∈ builtin.names ∧
    builtin.Redefines ⟨"bash", ["sh"], []⟩
      (ofList (Language.builtins ++ [⟨"bash", ["sh"], []⟩])) := by
  have hbash : ("bash" : Text) ∈ builtin.names := by decide
  exact ⟨hbash, (ofList_holds Language.builtins).redefined ⟨"bash", ["sh"], []⟩ hbash⟩

end Registry

end Shebang
