import Mathlib.Data.List.Nodup
import Shebang.OrderedMap

/-!
Keys of ordered maps. The keys of a map that values were put into are the distinct ones in the order
in which they first came.
-/

namespace Shebang

section EraseDups

variable {α : Type} [BEq α] [LawfulBEq α] {xs ys : List α}

theorem eraseDups_of_nodup (h : xs.Nodup) : xs.eraseDups = xs := by
  induction xs with
  | nil => rfl
  | cons x xs ih =>
    obtain ⟨hx, hxs⟩ := List.nodup_cons.mp h
    have hfilter : xs.filter (fun y => !y == x) = xs := by
      refine List.filter_eq_self.mpr fun y hy => ?_
      simpa using fun e : y = x => hx (e ▸ hy)
    rw [List.eraseDups_cons, hfilter, ih hxs]

theorem nodup_eraseDups (xs : List α) : xs.eraseDups.Nodup := by
  cases xs with
  | nil => exact List.nodup_nil
  | cons x xs =>
    rw [List.eraseDups_cons, List.nodup_cons]
    constructor
    · simp [List.mem_eraseDups]
    · exact nodup_eraseDups _
termination_by xs.length
decreasing_by exact Nat.lt_succ_of_le (List.length_filter_le _ xs)

theorem eraseDups_idem (xs : List α) : xs.eraseDups.eraseDups = xs.eraseDups :=
  eraseDups_of_nodup (nodup_eraseDups xs)

/-- What is behind a list keeps those that are not in it, so only its members matter. -/
theorem eraseDups_append_congr (h : xs.eraseDups = ys.eraseDups) (zs : List α) :
    (xs ++ zs).eraseDups = (ys ++ zs).eraseDups := by
  have hmem : zs.removeAll xs = zs.removeAll ys := by
    refine List.filter_congr fun z _ => ?_
    have hz : z ∈ xs ↔ z ∈ ys := by rw [← List.mem_eraseDups, h, List.mem_eraseDups]
    simp [hz]
  rw [List.eraseDups_append, List.eraseDups_append, h, hmem]

theorem eraseDups_append_of_subset (h : ys ⊆ xs) : (xs ++ ys).eraseDups = xs.eraseDups := by
  have hnone : ys.removeAll xs = [] := by
    refine List.filter_eq_nil_iff.mpr fun y hy => ?_
    simpa using h hy
  rw [List.eraseDups_append, hnone, List.eraseDups_nil, List.append_nil]

theorem eraseDups_filter (p : α → Bool) (xs : List α) :
    (xs.filter p).eraseDups = xs.eraseDups.filter p := by
  cases xs with
  | nil => rfl
  | cons x xs =>
    have hrest := eraseDups_filter p (xs.filter fun y => !y == x)
    rw [List.filter_filter] at hrest
    rw [List.eraseDups_cons, List.filter_cons, List.filter_cons]
    by_cases hx : p x
    · rw [if_pos hx, if_pos hx, List.eraseDups_cons, List.filter_filter, ← hrest]
      simp only [Bool.and_comm]
    · rw [if_neg hx, if_neg hx, ← hrest]
      congr 1
      refine List.filter_congr fun y _ => ?_
      by_cases hy : y = x
      · simp [hy, hx]
      · simp [hy]
termination_by xs.length
decreasing_by exact Nat.lt_succ_of_le (List.length_filter_le _ xs)

theorem eraseDups_append_eraseDups (xs ys : List α) :
    (xs ++ ys.eraseDups).eraseDups = (xs ++ ys).eraseDups := by
  rw [List.eraseDups_append, List.eraseDups_append, List.removeAll, List.removeAll,
    ← eraseDups_filter, eraseDups_idem]

theorem eraseDups_append_assoc (xs ys zs : List α) :
    (xs ++ (ys ++ zs).eraseDups).eraseDups = ((xs ++ ys).eraseDups ++ zs).eraseDups := by
  rw [eraseDups_append_eraseDups, ← List.append_assoc]
  exact (eraseDups_append_congr (eraseDups_idem _) zs).symm

end EraseDups

namespace OrderedMap

variable {α β : Type} {m : OrderedMap α} {key : Text} {value : α}

theorem find?_eq_none : m.find? key = none ↔ key ∉ m.keys := by
  induction m with
  | nil => simp [find?, keys]
  | cons e rest ih =>
    obtain ⟨k, v⟩ := e
    simp only [keys] at ih
    by_cases h : k = key
    · simp [find?, keys, h]
    · have h' : ¬key = k := fun e => h e.symm
      simp [find?, keys, h, h', ih]

theorem find?_eq_some (hn : m.keys.Nodup) : m.find? key = some value ↔ (key, value) ∈ m := by
  induction m with
  | nil => simp [find?]
  | cons e rest ih =>
    obtain ⟨k, v⟩ := e
    obtain ⟨hfresh, hrest⟩ := List.nodup_cons.mp hn
    by_cases h : k = key
    · subst h
      have hm : (k, value) ∉ rest := fun hm => hfresh (List.mem_map.mpr ⟨_, hm, rfl⟩)
      simp [find?, hm, eq_comm]
    · have h' : ¬ key = k := fun e => h e.symm
      simp [find?, h, h', ih hrest]

theorem find?_entry (m : OrderedMap α) (key : Text) :
    (List.find? (fun e => e.1 == key) m).map Prod.snd = m.find? key := by
  induction m with
  | nil => rfl
  | cons e rest ih =>
    obtain ⟨k, v⟩ := e
    by_cases h : k = key
    · simp [find?, h]
    · simp [find?, h, ih]

theorem find?_map (f : α → β) (m : OrderedMap α) (key : Text) :
    find? key (m.map fun e => (e.1, f e.2)) = (m.find? key).map f := by
  induction m with
  | nil => rfl
  | cons e rest ih =>
    obtain ⟨k, v⟩ := e
    by_cases h : k = key
    · simp [find?, h]
    · simpa [find?, h] using ih

theorem mem_put {e : Text × α} (h : e ∈ m.put key value) : e = (key, value) ∨ e ∈ m := by
  induction m with
  | nil => exact Or.inl (List.mem_singleton.mp h)
  | cons e' rest ih =>
    obtain ⟨k, v⟩ := e'
    rw [put] at h
    split_ifs at h with hk
    · subst hk
      rcases List.mem_cons.mp h with rfl | h
      · exact Or.inl rfl
      · exact Or.inr (List.mem_cons_of_mem _ h)
    · rcases List.mem_cons.mp h with rfl | h
      · exact Or.inr List.mem_cons_self
      · exact (ih h).imp_right (List.mem_cons_of_mem _)

theorem ext_find? {m' : OrderedMap α} (hn : m.keys.Nodup) (hk : m.keys = m'.keys)
    (hf : ∀ key, m.find? key = m'.find? key) : m = m' := by
  induction m generalizing m' with
  | nil => exact (List.map_eq_nil_iff.mp hk.symm).symm
  | cons e rest ih =>
    obtain ⟨k, v⟩ := e
    obtain ⟨⟨k', v'⟩, rest', rfl⟩ := List.exists_cons_of_ne_nil fun h : m' = [] => by
      subst h
      cases hk
    obtain ⟨rfl, hrest⟩ := List.cons.inj hk
    obtain ⟨hfresh, hn⟩ := List.nodup_cons.mp hn
    have hv : v = v' := by simpa [find?] using hf k
    have htail : rest = rest' := by
      refine ih hn hrest fun key => ?_
      by_cases h : k = key
      · subst h
        have hfresh' : k ∉ keys rest' := fun hm => hfresh (hrest ▸ hm)
        rw [find?_eq_none.mpr hfresh, find?_eq_none.mpr hfresh']
      · simpa [find?, h] using hf key
    rw [hv, htail]

theorem nodup_keys_put (h : m.keys.Nodup) : (m.put key value).keys.Nodup := by
  rw [keys_put]
  by_cases hk : key ∈ m.keys
  · rwa [if_pos hk]
  · rw [if_neg hk]
    refine List.nodup_append.mpr ⟨h, List.nodup_singleton key, ?_⟩
    rintro k hm k' hk' rfl
    exact hk (List.mem_singleton.mp hk' ▸ hm)

theorem put_of_notMem (h : key ∉ m.keys) (value : α) : m.put key value = m ++ [(key, value)] := by
  induction m with
  | nil => rfl
  | cons e rest ih =>
    obtain ⟨k, v⟩ := e
    rw [keys, List.map_cons, List.mem_cons, not_or] at h
    rw [put, if_neg (Ne.symm h.1), ih h.2]
    rfl

theorem ofList_of_nodup {entries : List (Text × α)} (hn : (keys entries).Nodup) :
    ofList entries = entries := by
  -- Each key is new where it is put in, so its entry goes to the end of those in front.
  have hfold : ∀ entries front : OrderedMap α, (keys (front ++ entries)).Nodup →
      entries.foldl (fun m e => m.put e.1 e.2) front = front ++ entries := by
    intro entries
    induction entries with
    | nil => exact fun front _ => (List.append_nil front).symm
    | cons e entries ih =>
      intro front hn
      have hfresh : e.1 ∉ front.keys := by
        rw [keys, List.map_append, List.map_cons] at hn
        exact fun hm => (List.nodup_append.mp hn).2.2 _ hm _ List.mem_cons_self rfl
      have hsplit : front ++ e :: entries = front ++ [e] ++ entries := by simp
      rw [List.foldl_cons, put_of_notMem hfresh, hsplit]
      exact ih _ (hsplit ▸ hn)
  exact hfold entries [] hn

theorem keys_put_eq (m' : OrderedMap β) (value' : β) (h : m.keys = m'.keys) :
    (m.put key value).keys = (m'.put key value').keys := by
  rw [keys_put, keys_put, h]

theorem keys_put_eraseDups {ks : List Text} (h : m.keys = ks.eraseDups) :
    (m.put key value).keys = (ks ++ [key]).eraseDups := by
  have hmem : key ∈ m.keys ↔ key ∈ ks := by rw [h, List.mem_eraseDups]
  rw [keys_put, List.eraseDups_append, h]
  by_cases hk : key ∈ ks
  · simp [hk, List.removeAll]
  · simp [hk, List.removeAll, List.eraseDups_cons]

/-- Puts every entry in, as a value that may depend on what the key has so far. -/
def putAll (f : Text → β → Option α → α) (m : OrderedMap α) (entries : OrderedMap β) :
    OrderedMap α :=
  entries.foldl (fun m e => m.put e.1 (f e.1 e.2 (m.find? e.1))) m

theorem keys_putAll (f : Text → β → Option α → α) (entries : OrderedMap β) {ks : List Text}
    (h : m.keys = ks.eraseDups) : (m.putAll f entries).keys = (ks ++ entries.keys).eraseDups := by
  induction entries generalizing m ks with
  | nil => simpa [putAll, keys] using h
  | cons e rest ih =>
    have hput : (m.put e.1 (f e.1 e.2 (m.find? e.1))).keys = (ks ++ [e.1]).eraseDups :=
      keys_put_eraseDups h
    have hrest := ih hput
    rwa [List.append_assoc] at hrest

theorem find?_putAll (f : Text → β → Option α → α) {entries : OrderedMap β}
    (hn : entries.keys.Nodup) :
    (m.putAll f entries).find? key =
      match entries.find? key with
      | none => m.find? key
      | some v => some (f key v (m.find? key)) := by
  induction entries generalizing m with
  | nil => rfl
  | cons e rest ih =>
    obtain ⟨k, v⟩ := e
    obtain ⟨hk, hrest⟩ := List.nodup_cons.mp hn
    have hstep := ih (m := m.put k (f k v (m.find? k))) hrest
    rw [find?_put] at hstep
    by_cases h : key = k
    · subst h
      rw [find?_eq_none.mpr hk, if_pos rfl] at hstep
      rw [find?, if_pos rfl]
      exact hstep
    · rw [if_neg h] at hstep
      rw [find?, if_neg fun e => h e.symm]
      exact hstep

end OrderedMap

end Shebang
