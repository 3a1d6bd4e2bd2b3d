import Mathlib.Data.Nat.Digits.Defs
import Shebang.Log.Level
import Shebang.Proofs.Attempt
import Shebang.Proofs.Cursor
import Shebang.Proofs.OrderedMap

/-!
Texts as levels of the log. A text is a level if it is a decimal numeral in any script or a name in
either case, and other texts are none. Reading fails for texts of digits that are no decimal numeral
or too long for one, and for no others.
-/

namespace Shebang.Log

open Text (isDecimal isDigit decimalValue? numeralLimit numeralValue readNumeral NumeralError)

variable {t value : Text} {n : Nat} {e : NumeralError}

def Spells (t : Text) (n : Nat) : Prop :=
  t ≠ [] ∧ ∃ digits : List Nat,
    List.Forall₂ (fun c d => decimalValue? c = some d) t digits ∧ n = Nat.ofDigits 10 digits.reverse

/-- The level that a text without blanks around it stands for. -/
inductive Means (t : Text) (n : Nat) : Prop where
  | numeral : Spells t n → t.length ≤ numeralLimit → Means t n
  | name : (t.upper, n) ∈ levelNames → Means t n

/-- Texts of digits that stand for no level, and what is wrong with them: too many decimal digits
come first, or some digit is not decimal. -/
inductive Refused : Text → NumeralError → Prop where
  | tooLong {front back : Text} : (∀ c ∈ front, isDecimal c = true) → Text.Stops isDecimal back →
      (∀ c ∈ back, isDigit c = true) → numeralLimit < front.length →
      Refused (front ++ back) (.tooLong front.length)
  | notDecimal {front back : Text} {c : Char} : (∀ c ∈ front, isDecimal c = true) →
      isDecimal c = false → (∀ x ∈ c :: back, isDigit x = true) → front.length ≤ numeralLimit →
      Refused (front ++ c :: back) (.notDecimal (front ++ c :: back))

section Digits

theorem isDigit_of_isDecimal {c : Char} (h : isDecimal c = true) : isDigit c = true := by
  rw [isDigit, h, Bool.true_or]

theorem upperChar_cases (c : Char) :
    Text.upperChar c = c ∨ isDigit c = false ∧ isDigit (Text.upperChar c) = false := by
  have hletters : ∀ n ≤ 'z'.toNat, 'a'.toNat ≤ n → isDigit (Char.ofNat n) = false ∧
      isDigit (Text.upperChar (Char.ofNat n)) = false := by
    decide +kernel
  by_cases hi : c = '\u0131'
  · exact .inr (hi ▸ by decide +kernel)
  by_cases hs : c = '\u017f'
  · exact .inr (hs ▸ by decide +kernel)
  by_cases hc : 'a'.val ≤ c.val ∧ c.val ≤ 'z'.val
  · have h := hletters c.toNat hc.2 hc.1
    rw [Char.ofNat_toNat] at h
    exact .inr h
  · refine .inl ?_
    rw [Text.upperChar, if_neg hi, if_neg hs]
    exact dif_neg hc

theorem isDigit_upperChar (c : Char) : isDigit (Text.upperChar c) = isDigit c := by
  obtain h | ⟨hc, hu⟩ := upperChar_cases c
  · rw [h]
  · rw [hc, hu]

theorem all_isDigit_upper (t : Text) : t.upper.all isDigit = t.all isDigit := by
  rw [Text.upper, List.all_map]
  exact congrArg (List.all t) (funext isDigit_upperChar)

theorem upper_of_digits (h : ∀ c ∈ t, isDigit c = true) : t.upper = t := by
  refine (List.map_congr_left fun c hc => ?_).trans (List.map_id t)
  obtain hu | ⟨hd, -⟩ := upperChar_cases c
  · exact hu
  · rw [h c hc] at hd
    cases hd

theorem isDecimal_iff {c : Char} : isDecimal c = true ↔ ∃ d, decimalValue? c = some d :=
  Option.isSome_iff_exists

theorem numeralValue_digits {digits : List Nat}
    (h : List.Forall₂ (fun c d => decimalValue? c = some d) t digits) :
    numeralValue t = Nat.ofDigits 10 digits.reverse := by
  have hfold : ∀ a, t.foldl (fun n c => 10 * n + (decimalValue? c).getD 0) a =
      digits.foldl (fun n d => d + 10 * n) a := by
    induction h with
    | nil => exact fun _ => rfl
    | cons hc _ ih =>
      intro a
      rw [List.foldl_cons, List.foldl_cons, hc, Option.getD_some, Nat.add_comm]
      exact ih _
  rw [numeralValue, hfold, Nat.ofDigits_eq_foldr, List.foldr_reverse]
  rfl

theorem spells_iff : Spells t n ↔ t ≠ [] ∧ (∀ c ∈ t, isDecimal c = true) ∧ n = numeralValue t := by
  rw [Spells, and_congr_right_iff]
  intro _
  constructor
  · rintro ⟨digits, hdigits, rfl⟩
    refine ⟨fun c hc => ?_, (numeralValue_digits hdigits).symm⟩
    exact isDecimal_iff.mpr (some_of_mapM (mapM_eq_some_iff.mpr hdigits) hc)
  · rintro ⟨hdecimal, rfl⟩
    have hdigits := mapM_eq_some_iff.mp (mapM_some 0 fun c hc => isDecimal_iff.mp (hdecimal c hc))
    exact ⟨_, hdigits, numeralValue_digits hdigits⟩

end Digits

section Reading

def Digits (t : Text) : Prop := t ≠ [] ∧ ∀ c ∈ t, isDigit c = true

theorem readNumeral_eq_ok : readNumeral t = .ok n ↔
    (∀ c ∈ t, isDecimal c = true) ∧ t.length ≤ numeralLimit ∧ n = numeralValue t := by
  constructor
  · intro h
    rw [readNumeral] at h
    split_ifs at h with hlong hwhole
    have hrun : t.takeWhile isDecimal = t := (List.takeWhile_prefix isDecimal).eq_of_length hwhole
    refine ⟨List.takeWhile_eq_self_iff.mp hrun, ?_, (Except.ok.inj h).symm⟩
    exact hwhole ▸ Nat.le_of_not_lt hlong
  · rintro ⟨hdecimal, hshort, rfl⟩
    rw [readNumeral, List.takeWhile_eq_self_iff.mpr hdecimal, if_neg (Nat.not_lt.mpr hshort),
      if_pos rfl]

theorem readNumeral_eq_error (h : Digits t) : readNumeral t = .error e ↔ Refused t e := by
  constructor
  · intro he
    have hfront : ∀ c ∈ t.takeWhile isDecimal, isDecimal c = true := fun _ => List.mem_takeWhile_imp
    have hback : ∀ c ∈ t.dropWhile isDecimal, isDigit c = true := fun c hc =>
      h.2 c ((List.dropWhile_sublist _).subset hc)
    have hstops := Text.stops_dropWhile (p := isDecimal) t
    have hsplit : t.takeWhile isDecimal ++ t.dropWhile isDecimal = t :=
      List.takeWhile_append_dropWhile
    rw [readNumeral] at he
    generalize t.takeWhile isDecimal = front at *
    generalize t.dropWhile isDecimal = back at *
    subst hsplit
    split_ifs at he with hlong hwhole
    · obtain rfl := Except.error.inj he
      exact .tooLong hfront hstops hback hlong
    · obtain rfl := Except.error.inj he
      cases back with
      | nil => exact absurd (by rw [List.append_nil]) hwhole
      | cons c rest =>
        exact .notDecimal hfront (Text.stops_cons.mp hstops) hback (Nat.le_of_not_lt hlong)
  · rintro (⟨hfront, hstops, -, hlong⟩ | ⟨hfront, hc, -, hshort⟩)
    · rw [readNumeral, takeWhile_run hfront hstops, if_pos hlong]
    · rw [readNumeral, takeWhile_run hfront (Text.stops_cons.mpr hc),
        if_neg (Nat.not_lt.mpr hshort), if_neg (by simp)]

theorem parseLevel_digits (h : Digits (value.trim Text.isBlank)) :
    parseLevel (some value) = some <$> readNumeral (value.trim Text.isBlank) := by
  have hupper := upper_of_digits h.2
  simp only [parseLevel, hupper]
  exact if_pos ⟨h.1, List.all_eq_true.mpr h.2⟩

theorem parseLevel_word (h : ¬ Digits (value.trim Text.isBlank)) :
    parseLevel (some value) = .ok (levelOfName? (value.trim Text.isBlank).upper) := by
  refine if_neg fun hword => h ?_
  rw [all_isDigit_upper] at hword
  exact ⟨fun ht => hword.1 (by rw [ht]; rfl), List.all_eq_true.mp hword.2⟩

theorem levelOfName?_eq_some : levelOfName? t = some n ↔ (t, n) ∈ levelNames := by
  have hdistinct : (OrderedMap.keys levelNames).Nodup := by decide +kernel
  rw [levelOfName?, OrderedMap.find?_entry, OrderedMap.find?_eq_some hdistinct]

theorem Spells.digits (h : Spells t n) : Digits t := by
  obtain ⟨hne, hdecimal, -⟩ := spells_iff.mp h
  exact ⟨hne, fun c hc => isDigit_of_isDecimal (hdecimal c hc)⟩

theorem Refused.digits (h : Refused t e) : Digits t := by
  cases h with
  | @tooLong front back hfront _ hback hlong =>
    have hne : front ≠ [] := List.ne_nil_of_length_pos (Nat.zero_lt_of_lt hlong)
    have hdigits : ∀ c ∈ front, isDigit c = true := fun c hc => isDigit_of_isDecimal (hfront c hc)
    exact ⟨List.append_ne_nil_of_left_ne_nil hne back, List.forall_mem_append.mpr ⟨hdigits, hback⟩⟩
  | @notDecimal front rest c hfront _ hback _ =>
    have hdigits : ∀ c ∈ front, isDigit c = true := fun c hc => isDigit_of_isDecimal (hfront c hc)
    exact ⟨by simp, List.forall_mem_append.mpr ⟨hdigits, hback⟩⟩

theorem not_digits_of_name (h : (t.upper, n) ∈ levelNames) : ¬ Digits t := by
  have hnames : ∀ e ∈ levelNames, e.1.all isDigit = false := by decide +kernel
  intro hdigits
  have hall := hnames _ h
  rw [all_isDigit_upper, List.all_eq_true.mpr hdigits.2] at hall
  cases hall

theorem parseLevel_eq_some :
    parseLevel (some value) = .ok (some n) ↔ Means (value.trim Text.isBlank) n := by
  by_cases hdigits : Digits (value.trim Text.isBlank)
  · have hok : some <$> readNumeral (value.trim Text.isBlank) = .ok (some n) ↔
        readNumeral (value.trim Text.isBlank) = .ok n := by
      cases readNumeral (value.trim Text.isBlank) <;> simp
    rw [parseLevel_digits hdigits, hok, readNumeral_eq_ok]
    constructor
    · rintro ⟨hdecimal, hshort, hn⟩
      exact .numeral (spells_iff.mpr ⟨hdigits.1, hdecimal, hn⟩) hshort
    · rintro (⟨hspells, hshort⟩ | hname)
      · obtain ⟨-, hdecimal, hn⟩ := spells_iff.mp hspells
        exact ⟨hdecimal, hshort, hn⟩
      · exact absurd hdigits (not_digits_of_name hname)
  · rw [parseLevel_word hdigits, Except.ok.injEq, levelOfName?_eq_some]
    constructor
    · exact .name
    · rintro (hspells | hname)
      · exact absurd hspells.digits hdigits
      · exact hname

theorem parseLevel_eq_error :
    parseLevel (some value) = .error e ↔ Refused (value.trim Text.isBlank) e := by
  by_cases hdigits : Digits (value.trim Text.isBlank)
  · rw [parseLevel_digits hdigits, ← readNumeral_eq_error hdigits]
    cases readNumeral (value.trim Text.isBlank) <;> simp
  · rw [parseLevel_word hdigits]
    exact iff_of_false nofun fun h => hdigits h.digits

theorem parseLevel_eq_none : parseLevel (some value) = .ok none ↔
    (∀ n, ¬ Means (value.trim Text.isBlank) n) ∧ ∀ e, ¬ Refused (value.trim Text.isBlank) e := by
  simp only [← parseLevel_eq_some, ← parseLevel_eq_error]
  constructor
  · intro h
    simp [h]
  · rintro ⟨hsome, herror⟩
    cases h : parseLevel (some value) with
    | error e => exact absurd h (herror e)
    | ok level =>
      cases level with
      | none => rfl
      | some n => exact absurd h (hsome n)

end Reading

end Shebang.Log
