import Mathlib.Data.List.Basic
import Shebang.Json
import Shebang.Proofs.Cursor
import Shebang.Proofs.Utf8

/-!
A reader of JSON text, after the grammar and apart from the writer: blanks around tokens, every
escape in strings, fields in their order. Of the numbers it takes the whole ones. What is written in
either layout is read back.
-/

namespace Shebang.Json

/-- Induction over a value, with a hypothesis for every item and every field inside it. -/
@[elab_as_elim]
theorem induction {P : Json → Prop} (null : P .null) (bool : ∀ b, P (.bool b))
    (number : ∀ n, P (.number n)) (string : ∀ t, P (.string t))
    (array : ∀ items, (∀ item ∈ items, P item) → P (.array items))
    (object : ∀ fields, (∀ f ∈ fields, P f.2) → P (.object fields)) (j : Json) : P j :=
  @Json.rec P (fun items => ∀ item ∈ items, P item) (fun fields => ∀ f ∈ fields, P f.2)
    (fun f => P f.2) null bool number string array object
    (fun _ hitem => nomatch hitem)
    (fun _ _ hitem hitems => List.forall_mem_cons.mpr ⟨hitem, hitems⟩)
    (fun _ hfield => nomatch hfield)
    (fun _ _ hfield hfields => List.forall_mem_cons.mpr ⟨hfield, hfields⟩)
    (fun _ _ hvalue => hvalue) j

section Reader

def isBlank (c : Char) : Bool := c == ' ' || c == '\t' || c == '\n' || c == '\r'

def skipBlanks (t : Text) : Text := t.dropWhile isBlank

def hexValue? (c : Char) : Option Nat :=
  if '0' ≤ c ∧ c ≤ '9' then some (c.toNat - 0x30)
  else if 'a' ≤ c ∧ c ≤ 'f' then some (c.toNat - 0x57)
  else if 'A' ≤ c ∧ c ≤ 'F' then some (c.toNat - 0x37)
  else none

def hexNumber? (digits : Text) : Option Nat :=
  digits.foldlM (fun n c => (hexValue? c).map (16 * n + ·)) 0

def readUnit : Text → Option (Nat × Text)
  | a :: b :: c :: d :: t => (hexNumber? [a, b, c, d]).map (·, t)
  | _ => none

/-- What follows `\u`: a character, or the first half of one whose second half must follow. -/
def readCodePoint (t : Text) : Option (Char × Text) := do
  let (u, t) ← readUnit t
  if u < 0xD800 ∨ 0xE000 ≤ u then some (Char.ofNat u, t)
  else if u < 0xDC00 then
    match t with
    | '\\' :: 'u' :: t =>
      let (v, t) ← readUnit t
      if 0xDC00 ≤ v ∧ v < 0xE000 then
        some (Char.ofNat (0x10000 + (u - 0xD800) * 0x400 + (v - 0xDC00)), t)
      else none
    | _ => none
  else none

def readEscape : Text → Option (Char × Text)
  | '"' :: t => some ('"', t)
  | '\\' :: t => some ('\\', t)
  | '/' :: t => some ('/', t)
  | 'b' :: t => some ('\x08', t)
  | 'f' :: t => some ('\x0c', t)
  | 'n' :: t => some ('\n', t)
  | 'r' :: t => some ('\r', t)
  | 't' :: t => some ('\t', t)
  | 'u' :: t => readCodePoint t
  | _ => none

def readChar : Text → Option (Char × Text)
  | '\\' :: t => readEscape t
  | c :: t => if ' ' ≤ c then some (c, t) else none
  | [] => none

/-- The characters up to the closing quote. Each character and the quote cost a unit of fuel. -/
def readChars : Nat → Text → Option (Text × Text)
  | 0, _ => none
  | _ + 1, '"' :: t => some ([], t)
  | fuel + 1, t => do
    let (c, t) ← readChar t
    let (text, t) ← readChars fuel t
    some (c :: text, t)

def readString (t : Text) : Option (Text × Text) := readChars (t.length + 1) t

def isNumberChar (c : Char) : Bool := c.isDigit || c == '.' || c == 'e' || c == 'E'

def readWhole (t : Text) : Option (Nat × Text) :=
  let digits := t.takeWhile Char.isDigit
  let rest := t.dropWhile Char.isDigit
  if digits = [] ∨ (digits.head? = some '0' ∧ digits ≠ ['0']) ∨ rest.head?.any isNumberChar then
    none
  else some (Nat.ofDigitChars 10 digits 0, rest)

def readNumber : Text → Option (Int × Text)
  | '-' :: t => (readWhole t).map fun (n, t) => (-(n : Int), t)
  | t => (readWhole t).map fun (n, t) => ((n : Int), t)

def readWord : Text → Option (Json × Text)
  | 'n' :: 'u' :: 'l' :: 'l' :: t => some (.null, t)
  | 't' :: 'r' :: 'u' :: 'e' :: t => some (.bool true, t)
  | 'f' :: 'a' :: 'l' :: 's' :: 'e' :: t => some (.bool false, t)
  | _ => none

mutual

/-- A value and what stands behind it. Every value, item and field costs a unit of fuel. -/
def readValue : Nat → Text → Option (Json × Text)
  | 0, _ => none
  | fuel + 1, t =>
    match skipBlanks t with
    | [] => none
    | c :: t =>
      if c = '"' then (readString t).map fun (s, t) => (.string s, t)
      else if c = '[' then
        if (skipBlanks t).head? = some ']' then some (.array [], (skipBlanks t).tail)
        else (readItems fuel t).map fun (items, t) => (.array items, t)
      else if c = '\x7b' then
        if (skipBlanks t).head? = some '\x7d' then some (.object [], (skipBlanks t).tail)
        else (readFields fuel t).map fun (fields, t) => (.object fields, t)
      else if c = '-' ∨ c.isDigit then (readNumber (c :: t)).map fun (n, t) => (.number n, t)
      else readWord (c :: t)

def readItems : Nat → Text → Option (List Json × Text)
  | 0, _ => none
  | fuel + 1, t => do
    let (item, t) ← readValue fuel t
    match skipBlanks t with
    | ',' :: t =>
      let (items, t) ← readItems fuel t
      some (item :: items, t)
    | ']' :: t => some ([item], t)
    | _ => none

def readFields : Nat → Text → Option (List (Text × Json) × Text)
  | 0, _ => none
  | fuel + 1, t =>
    match skipBlanks t with
    | '"' :: t => do
      let (key, t) ← readString t
      match skipBlanks t with
      | ':' :: t =>
        let (value, t) ← readValue fuel t
        match skipBlanks t with
        | ',' :: t =>
          let (fields, t) ← readFields fuel t
          some ((key, value) :: fields, t)
        | '\x7d' :: t => some ([(key, value)], t)
        | _ => none
      | _ => none
    | _ => none

end

def ofText? (t : Text) : Option Json :=
  match readValue (t.length + 1) t with
  | some (j, rest) => if skipBlanks rest = [] then some j else none
  | none => none

/-- A field of an object; of several with one name the last counts. -/
def field? (name : Text) : Json → Option Json
  | .object fields => (fields.reverse.find? (·.1 = name)).map Prod.snd
  | _ => none

def at? (names : List Text) (j : Json) : Option Json := names.foldlM (fun j name => j.field? name) j

end Reader

section Strings

theorem hexValue?_digitChar : ∀ n < 16, hexValue? (Nat.digitChar n) = some n := by decide

theorem hexNumber?_succ {width n m : Nat}
    (h : hexNumber? (Text.hexDigits width (n / 16)) = some m) :
    hexNumber? (Text.hexDigits (width + 1) n) = some (16 * m + n % 16) := by
  have hlast : hexValue? (Nat.digitChar (n % 16)) = some (n % 16) :=
    hexValue?_digitChar _ (Nat.mod_lt n (by decide))
  have happend : hexNumber? (Text.hexDigits (width + 1) n) =
      (hexNumber? (Text.hexDigits width (n / 16))).bind fun m =>
        (hexValue? (Nat.digitChar (n % 16))).map (16 * m + ·) := by
    simp [hexNumber?, Text.hexDigits, List.foldlM_append]
  rw [happend, h, hlast, Option.bind_some, Option.map_some]

theorem hexNumber?_unit {n : Nat} (h : n < 0x10000) :
    hexNumber? (Text.hexDigits 4 n) = some n := by
  have hnone : hexNumber? (Text.hexDigits 0 (n / 16 / 16 / 16 / 16)) = some 0 := rfl
  rw [hexNumber?_succ (hexNumber?_succ (hexNumber?_succ (hexNumber?_succ hnone)))]
  exact congrArg some (by omega)

theorem readUnit_hexDigits {n : Nat} (h : n < 0x10000) (u : Text) :
    readUnit (Text.hexDigits 4 n ++ u) = some (n, u) := by
  have hn : hexNumber? (Text.hexDigits 4 n) = some n := hexNumber?_unit h
  change (hexNumber? (Text.hexDigits 4 n)).map (·, u) = _
  rw [hn, Option.map_some]

theorem readChar_escapeUnit (n : Nat) (u : Text) :
    readChar (escapeUnit n ++ u) = readCodePoint (Text.hexDigits 4 n ++ u) := rfl

theorem readCodePoint_single {c : Char} (h : c.toNat < 0x10000) (u : Text) :
    readCodePoint (Text.hexDigits 4 c.toNat ++ u) = some (c, u) := by
  have hs : c.toNat < 0xD800 ∨ 0xE000 ≤ c.toNat := by
    rcases c.valid with hv | ⟨hv, -⟩
    · exact Or.inl hv
    · exact Or.inr hv
  simp [readCodePoint, readUnit_hexDigits h, hs, Char.ofNat_toNat]

theorem readCodePoint_pair {c : Char} (h : 0x10000 ≤ c.toNat) (u : Text) :
    readCodePoint (Text.hexDigits 4 (0xD800 + (c.toNat - 0x10000) / 0x400) ++
      (escapeUnit (0xDC00 + (c.toNat - 0x10000) % 0x400) ++ u)) = some (c, u) := by
  have hc : c.toNat < 0x110000 := by
    rcases c.valid with hv | ⟨-, hv⟩
    · exact Nat.lt_trans hv (by decide)
    · exact hv
  have hsum : 0x10000 + (0xD800 + (c.toNat - 0x10000) / 0x400 - 0xD800) * 0x400 +
      (0xDC00 + (c.toNat - 0x10000) % 0x400 - 0xDC00) = c.toNat := by omega
  have htail : escapeUnit (0xDC00 + (c.toNat - 0x10000) % 0x400) ++ u =
      '\\' :: 'u' :: (Text.hexDigits 4 (0xDC00 + (c.toNat - 0x10000) % 0x400) ++ u) := rfl
  rw [readCodePoint, readUnit_hexDigits (by omega), htail, Option.bind_eq_bind, Option.bind_some]
  simp only []
  rw [if_neg (by omega), if_pos (by omega), readUnit_hexDigits (by omega), Option.bind_some]
  simp only []
  rw [if_pos (by omega), hsum, Char.ofNat_toNat]

theorem units16_single {c : Char} (h : c.toNat < 0x10000) : Encoding.units16 c = [c.toNat] :=
  if_pos h

theorem units16_pair {c : Char} (h : ¬ c.toNat < 0x10000) : Encoding.units16 c =
    [0xD800 + (c.toNat - 0x10000) / 0x400, 0xDC00 + (c.toNat - 0x10000) % 0x400] :=
  if_neg h

theorem readChar_units (c : Char) (u : Text) :
    readChar ((Encoding.units16 c).flatMap escapeUnit ++ u) = some (c, u) := by
  by_cases h : c.toNat < 0x10000
  · rw [units16_single h, List.flatMap_singleton, readChar_escapeUnit]
    exact readCodePoint_single h u
  · rw [units16_pair h, List.flatMap_cons, List.flatMap_singleton, List.append_assoc,
      readChar_escapeUnit]
    exact readCodePoint_pair (Nat.le_of_not_lt h) u

theorem readChar_escapeChar (c : Char) (u : Text) : readChar (escapeChar c ++ u) = some (c, u) := by
  unfold escapeChar
  split_ifs with h1 h2 h3 h4 h5 h6 h7 h8
  · exact h1 ▸ rfl
  · exact h2 ▸ rfl
  · exact h3 ▸ rfl
  · exact h4 ▸ rfl
  · exact h5 ▸ rfl
  · exact h6 ▸ rfl
  · exact h7 ▸ rfl
  · rw [List.singleton_append, readChar]
    · exact if_pos h8.1
    · exact h2
  · exact readChar_units c u

theorem escapeChar_first (c : Char) : ∃ x w, escapeChar c = x :: w ∧ x ≠ '"' := by
  unfold escapeChar
  split_ifs with h1
  · exact ⟨_, _, rfl, by decide⟩
  · exact ⟨_, _, rfl, by decide⟩
  · exact ⟨_, _, rfl, by decide⟩
  · exact ⟨_, _, rfl, by decide⟩
  · exact ⟨_, _, rfl, by decide⟩
  · exact ⟨_, _, rfl, by decide⟩
  · exact ⟨_, _, rfl, by decide⟩
  · exact ⟨_, _, rfl, h1⟩
  · by_cases h : c.toNat < 0x10000
    · exact ⟨_, _, by rw [units16_single h]; rfl, by decide⟩
    · exact ⟨_, _, by rw [units16_pair h]; rfl, by decide⟩

theorem readChars_escaped {t : Text} {fuel : Nat} (h : t.length < fuel) (u : Text) :
    readChars fuel (t.flatMap escapeChar ++ '"' :: u) = some (t, u) := by
  induction t generalizing fuel with
  | nil =>
    obtain ⟨fuel, rfl⟩ := Nat.exists_eq_succ_of_ne_zero (Nat.ne_of_gt h)
    rfl
  | cons c t ih =>
    obtain ⟨fuel, rfl⟩ := Nat.exists_eq_succ_of_ne_zero (Nat.ne_of_gt (Nat.zero_lt_of_lt h))
    have ht := ih (Nat.lt_of_succ_lt_succ h)
    have hc := readChar_escapeChar c (t.flatMap escapeChar ++ '"' :: u)
    obtain ⟨x, w, hx, hq⟩ := escapeChar_first c
    rw [hx] at hc
    rw [List.flatMap_cons, List.append_assoc, hx, List.cons_append, readChars]
    · rw [List.cons_append] at hc
      simp [hc, ht]
    · rintro v hv
      exact hq (List.cons.inj hv).1

end Strings

section Numbers

variable {n : Nat} {rest : Text}

theorem toDigits_ne_zero (h : n ≠ 0) : (Nat.toDigits 10 n).head? ≠ some '0' := by
  induction n using Nat.strong_induction_on with
  | h n ih =>
    by_cases hn : n < 10
    · have hdigit : ∀ n < 10, n ≠ 0 → Nat.digitChar n ≠ '0' := by decide
      rw [Nat.toDigits_of_lt_base hn]
      intro he
      exact hdigit n hn h (Option.some.inj he)
    · rw [Nat.toDigits_of_base_le (by decide) (Nat.le_of_not_lt hn),
        List.head?_append_of_ne_nil _ Nat.toDigits_ne_nil]
      exact ih (n / 10) (Nat.div_lt_self (by omega) (by decide)) (by omega)

theorem stops_isDigit (h : Text.Stops isNumberChar rest) : Text.Stops Char.isDigit rest := by
  intro c hc
  have hn := h c hc
  simp only [isNumberChar, Bool.or_eq_false_iff] at hn
  exact hn.1.1.1

theorem isDigit_ofNat {c : Char} (h : c ∈ Text.ofNat n) : c.isDigit = true :=
  Nat.isDigit_of_mem_toDigits (Nat.zero_lt_succ 9) (Nat.le_refl 10) h

theorem readWhole_ofNat (n : Nat) (h : Text.Stops isNumberChar rest) :
    readWhole (Text.ofNat n ++ rest) = some (n, rest) := by
  have hdigits : ∀ c ∈ Text.ofNat n, c.isDigit = true := fun _ => isDigit_ofNat
  have htake := takeWhile_run hdigits (stops_isDigit h)
  have hdrop := dropWhile_run hdigits (stops_isDigit h)
  have hne : Text.ofNat n ≠ [] := Nat.toDigits_ne_nil
  have hzero : ¬((Text.ofNat n).head? = some '0' ∧ Text.ofNat n ≠ ['0']) := by
    rintro ⟨hz, hs⟩
    by_cases hn : n = 0
    · exact hs (hn ▸ rfl)
    · exact toDigits_ne_zero hn hz
  have hrest : rest.head?.any isNumberChar = false := by
    cases rest with
    | nil => rfl
    | cons c rest => exact h c rfl
  have hread : Nat.ofDigitChars 10 (Text.ofNat n) 0 = n :=
    Nat.ofDigitChars_toDigits (by decide) (by decide)
  simp only [readWhole, htake, hdrop]
  rw [if_neg (by simp [hne, hzero, hrest]), hread]

theorem ofNat_first (n : Nat) : ∃ c t, Text.ofNat n = c :: t ∧ c.isDigit = true := by
  obtain ⟨c, t, hc⟩ := List.exists_cons_of_ne_nil (Nat.toDigits_ne_nil : Nat.toDigits 10 n ≠ [])
  refine ⟨c, t, hc, isDigit_ofNat (n := n) ?_⟩
  rw [Text.ofNat, hc]
  exact List.mem_cons_self

theorem ofInt_first (n : Int) : ∃ c t, Text.ofInt n = c :: t ∧ (c = '-' ∨ c.isDigit = true) := by
  cases n with
  | ofNat n =>
    obtain ⟨c, t, hc, hd⟩ := ofNat_first n
    exact ⟨c, t, hc, Or.inr hd⟩
  | negSucc n => exact ⟨'-', _, rfl, Or.inl rfl⟩

theorem ne_of_number {c x : Char} (h : c = '-' ∨ c.isDigit = true)
    (hx : (x == '-' || x.isDigit) = false) : c ≠ x := by
  rintro rfl
  rcases h with rfl | h
  · exact absurd hx (by decide)
  · simp [h] at hx

theorem isBlank_of_number {c : Char} (h : c = '-' ∨ c.isDigit = true) : isBlank c = false := by
  simp only [isBlank, Bool.or_eq_false_iff, beq_eq_false_iff_ne]
  exact ⟨⟨⟨ne_of_number h rfl, ne_of_number h rfl⟩, ne_of_number h rfl⟩, ne_of_number h rfl⟩

theorem readNumber_ofInt (n : Int) (h : Text.Stops isNumberChar rest) :
    readNumber (Text.ofInt n ++ rest) = some (n, rest) := by
  cases n with
  | ofNat n =>
    have hread := readWhole_ofNat n h
    obtain ⟨c, t, hc, hd⟩ := ofNat_first n
    rw [hc] at hread
    rw [Text.ofInt, hc, List.cons_append, readNumber]
    · rw [← List.cons_append, hread]
      rfl
    · rintro u hu
      rw [(List.cons.inj hu).1] at hd
      exact absurd hd (by decide)
  | negSucc n =>
    rw [Text.ofInt, List.cons_append, readNumber, readWhole_ofNat (n + 1) h]
    rfl

end Numbers

section Layout

variable {l : Layout} {d : Nat} {u v : Text} {c : Char}

theorem skipBlanks_append (h : ∀ c ∈ u, isBlank c = true) : skipBlanks (u ++ v) = skipBlanks v :=
  List.dropWhile_append_of_pos h

theorem skipBlanks_cons (h : isBlank c = false) : skipBlanks (c :: v) = c :: v := by
  rw [skipBlanks, List.dropWhile_cons_of_neg (by simp [h])]

theorem isBlank_lineBreak (h : c ∈ l.lineBreak d) : isBlank c = true := by
  cases l with
  | oneLine => simp [Layout.lineBreak] at h
  | indented width =>
    rcases List.mem_cons.mp h with rfl | h
    · rfl
    · rw [List.eq_of_mem_replicate h]
      rfl

theorem skipBlanks_lineBreak : skipBlanks (l.lineBreak d ++ v) = skipBlanks v :=
  skipBlanks_append fun _ => isBlank_lineBreak

theorem separator_eq (l : Layout) (d : Nat) :
    ∃ gap, l.separator d = ',' :: gap ∧ ∀ c ∈ gap, isBlank c = true := by
  cases l with
  | oneLine => exact ⟨[' '], rfl, List.forall_mem_singleton.mpr rfl⟩
  | indented width => exact ⟨_, rfl, fun _ => isBlank_lineBreak⟩

end Layout

section Values

variable {l : Layout} {d fuel : Nat} {rest t : Text}

theorem stops_lineBreak {c : Char} (h : isNumberChar c = false) :
    Text.Stops isNumberChar (l.lineBreak d ++ c :: rest) := by
  cases l with
  | oneLine => exact Text.stops_cons.mpr h
  | indented width => exact Text.stops_cons.mpr rfl

theorem renderAt_first (l : Layout) (d : Nat) (j : Json) :
    ∃ c t, renderAt l d j = c :: t ∧ isBlank c = false ∧ c ≠ ']' := by
  cases j with
  | null => exact ⟨_, _, rfl, by decide⟩
  | bool b => cases b <;> exact ⟨_, _, rfl, by decide⟩
  | number n =>
    obtain ⟨c, t, hc, hd⟩ := ofInt_first n
    exact ⟨c, t, hc, isBlank_of_number hd, ne_of_number hd rfl⟩
  | string t => exact ⟨_, _, rfl, by decide⟩
  | array items => cases items <;> exact ⟨_, _, rfl, by decide⟩
  | object fields => cases fields <;> exact ⟨_, _, rfl, by decide⟩

theorem readString_render (t rest : Text) :
    readString (t.flatMap escapeChar ++ '"' :: rest) = some (t, rest) := by
  refine readChars_escaped ?_ rest
  have hlen : t.length ≤ (t.flatMap escapeChar).length := by
    induction t with
    | nil => exact Nat.le_refl 0
    | cons c t ih =>
      obtain ⟨x, w, hx, -⟩ := escapeChar_first c
      rw [List.flatMap_cons, hx]
      simp only [List.length_cons, List.length_append]
      omega
  simp only [List.length_append, List.length_cons]
  omega

section Gaps

variable {gap u : Text} (h : ∀ c ∈ gap, isBlank c = true)

include h

theorem readValue_gap : readValue fuel (gap ++ u) = readValue fuel u := by
  cases fuel with
  | zero => rfl
  | succ fuel => rw [readValue, readValue, skipBlanks_append h]

theorem readItems_gap : readItems fuel (gap ++ u) = readItems fuel u := by
  cases fuel with
  | zero => rfl
  | succ fuel => rw [readItems, readItems, readValue_gap h]

theorem readFields_gap : readFields fuel (gap ++ u) = readFields fuel u := by
  cases fuel with
  | zero => rfl
  | succ fuel => rw [readFields, readFields, skipBlanks_append h]

end Gaps

theorem readValue_space : readValue fuel (' ' :: t) = readValue fuel t :=
  readValue_gap (List.forall_mem_singleton.mpr (rfl : isBlank ' ' = true))

/-- The value is read back from its text by a reader with as much fuel as the text is long. -/
def Reads (l : Layout) (j : Json) : Prop := ∀ d fuel rest,
  (renderAt l d j).length ≤ fuel → Text.Stops isNumberChar rest →
    readValue fuel (renderAt l d j ++ rest) = some (j, rest)

theorem length_renderAt (l : Layout) (d : Nat) (j : Json) : 0 < (renderAt l d j).length := by
  obtain ⟨c, t, hc, -⟩ := renderAt_first l d j
  rw [hc]
  exact Nat.zero_lt_succ _

theorem Reads.of_succ {j : Json} (h : ∀ d fuel rest, (renderAt l d j).length ≤ fuel + 1 →
    Text.Stops isNumberChar rest → readValue (fuel + 1) (renderAt l d j ++ rest) = some (j, rest)) :
    Reads l j := by
  intro d fuel rest hfuel hrest
  obtain ⟨fuel, rfl⟩ := Nat.exists_eq_succ_of_ne_zero
    (Nat.ne_of_gt (Nat.lt_of_lt_of_le (length_renderAt l d j) hfuel))
  exact h d fuel rest hfuel hrest

section Steps

variable {u v key : Text} {item value : Json} {items : List Json} {fields : List (Text × Json)}

theorem readValue_bracket (h : (skipBlanks t).head? ≠ some ']') :
    readValue (fuel + 1) ('[' :: t) =
      (readItems fuel t).map fun (items, t) => (.array items, t) := by
  simp [readValue, skipBlanks_cons (show isBlank '[' = false from rfl), h]

theorem readValue_brace (h : (skipBlanks t).head? ≠ some '\x7d') :
    readValue (fuel + 1) ('\x7b' :: t) =
      (readFields fuel t).map fun (fields, t) => (.object fields, t) := by
  simp [readValue, skipBlanks_cons (show isBlank '\x7b' = false from rfl), h]

theorem readValue_number {c : Char} (h : c = '-' ∨ c.isDigit = true) :
    readValue (fuel + 1) (c :: t) = (readNumber (c :: t)).map fun (n, t) => (.number n, t) := by
  rw [readValue, skipBlanks_cons (isBlank_of_number h)]
  simp only []
  rw [if_neg (ne_of_number h rfl), if_neg (ne_of_number h rfl), if_neg (ne_of_number h rfl),
    if_pos h]

theorem readItems_last (hitem : readValue fuel t = some (item, u))
    (hu : skipBlanks u = ']' :: rest) : readItems (fuel + 1) t = some ([item], rest) := by
  simp [readItems, hitem, hu]

theorem readItems_more (hitem : readValue fuel t = some (item, u))
    (hu : skipBlanks u = ',' :: v) (hv : readItems fuel v = some (items, rest)) :
    readItems (fuel + 1) t = some (item :: items, rest) := by
  simp [readItems, hitem, hu, hv]

theorem key_eq (key t : Text) : renderString key ++ ": " ++ t =
    '"' :: (key.flatMap escapeChar ++ '"' :: ':' :: ' ' :: t) := by
  simp [renderString]

theorem readFields_last (hvalue : readValue fuel t = some (value, u))
    (hu : skipBlanks u = '\x7d' :: rest) :
    readFields (fuel + 1) (renderString key ++ ": " ++ t) = some ([(key, value)], rest) := by
  rw [key_eq]
  simp [readFields, skipBlanks_cons (show isBlank '"' = false from rfl), readString_render,
    skipBlanks_cons (show isBlank ':' = false from rfl), readValue_space, hvalue, hu]

theorem readFields_more (hvalue : readValue fuel t = some (value, u))
    (hu : skipBlanks u = ',' :: v) (hv : readFields fuel v = some (fields, rest)) :
    readFields (fuel + 1) (renderString key ++ ": " ++ t) =
      some ((key, value) :: fields, rest) := by
  rw [key_eq]
  simp [readFields, skipBlanks_cons (show isBlank '"' = false from rfl), readString_render,
    skipBlanks_cons (show isBlank ':' = false from rfl), readValue_space, hvalue, hu, hv]

end Steps

theorem readItems_render {items : List Json} (h : ∀ item ∈ items, Reads l item) {item : Json}
    (hitem : Reads l item) (hfuel : (renderAt l d item ++ renderItems l d items).length < fuel)
    (e : Nat) :
    readItems fuel
      (renderAt l d item ++ (renderItems l d items ++ (l.lineBreak e ++ ']' :: rest))) =
        some (item :: items, rest) := by
  obtain ⟨fuel, rfl⟩ := Nat.exists_eq_succ_of_ne_zero (Nat.ne_of_gt (Nat.zero_lt_of_lt hfuel))
  rw [List.length_append] at hfuel
  induction items generalizing item fuel with
  | nil =>
    refine readItems_last (hitem d fuel _ (by omega) (stops_lineBreak rfl)) ?_
    rw [renderItems, List.nil_append, skipBlanks_lineBreak, skipBlanks_cons rfl]
  | cons next items ih =>
    obtain ⟨hnext, hitems⟩ := List.forall_mem_cons.mp h
    obtain ⟨gap, hgap, hblank⟩ := separator_eq l d
    have hpos := length_renderAt l d item
    simp only [renderItems, hgap, List.length_append, List.length_cons] at hfuel
    obtain ⟨fuel, rfl⟩ := Nat.exists_eq_succ_of_ne_zero (n := fuel) (by omega)
    have hmore := ih hitems hnext fuel (by omega)
    simp only [renderItems, hgap, List.append_assoc, List.cons_append]
    refine readItems_more (hitem d _ _ (by omega) (Text.stops_cons.mpr rfl))
      (skipBlanks_cons rfl) ?_
    rw [readItems_gap hblank, hmore]

theorem readFields_render {fields : List (Text × Json)} (h : ∀ f ∈ fields, Reads l f.2)
    (key : Text) {value : Json} (hvalue : Reads l value) (rest : Text)
    (hfuel : (renderAt l d value ++ renderFields l d fields).length < fuel) (e : Nat) :
    readFields fuel (renderString key ++ ": " ++ (renderAt l d value ++
      (renderFields l d fields ++ (l.lineBreak e ++ '\x7d' :: rest)))) =
      some ((key, value) :: fields, rest) := by
  obtain ⟨fuel, rfl⟩ := Nat.exists_eq_succ_of_ne_zero (Nat.ne_of_gt (Nat.zero_lt_of_lt hfuel))
  rw [List.length_append] at hfuel
  induction fields generalizing key value fuel with
  | nil =>
    refine readFields_last (hvalue d fuel _ (by omega) (stops_lineBreak rfl)) ?_
    rw [renderFields, List.nil_append, skipBlanks_lineBreak, skipBlanks_cons rfl]
  | cons next fields ih =>
    obtain ⟨name, next⟩ := next
    obtain ⟨hnext, hfields⟩ : Reads l next ∧ ∀ f ∈ fields, Reads l f.2 := List.forall_mem_cons.mp h
    obtain ⟨gap, hgap, hblank⟩ := separator_eq l d
    have hpos := length_renderAt l d value
    simp only [renderFields, hgap, List.length_append, List.length_cons] at hfuel
    obtain ⟨fuel, rfl⟩ := Nat.exists_eq_succ_of_ne_zero (n := fuel) (by omega)
    have hmore := ih hfields name hnext fuel (by omega)
    simp only [renderFields, hgap, List.append_assoc, List.cons_append] at hmore ⊢
    rw [← List.append_assoc (renderString key)]
    refine readFields_more (hvalue d _ _ (by omega) (Text.stops_cons.mpr rfl))
      (skipBlanks_cons rfl) ?_
    rw [readFields_gap hblank, hmore]

theorem reads_array {items : List Json} (h : ∀ item ∈ items, Reads l item) :
    Reads l (.array items) := by
  refine Reads.of_succ fun d fuel rest hfuel _ => ?_
  cases items with
  | nil =>
    rw [renderAt]
    rfl
  | cons item items =>
    obtain ⟨hitem, hitems⟩ := List.forall_mem_cons.mp h
    obtain ⟨c, t, hc, hblank, hclose⟩ := renderAt_first l (d + 1) item
    simp only [renderAt, List.length_append, List.length_cons, List.length_nil] at hfuel
    simp only [renderAt, List.append_assoc, List.cons_append, List.nil_append]
    rw [readValue_bracket, readItems_gap fun _ => isBlank_lineBreak, readItems_render hitems hitem,
      Option.map_some]
    · rw [List.length_append]
      omega
    · rw [skipBlanks_lineBreak, hc, List.cons_append, skipBlanks_cons hblank]
      simpa using hclose

theorem reads_object {fields : List (Text × Json)} (h : ∀ f ∈ fields, Reads l f.2) :
    Reads l (.object fields) := by
  refine Reads.of_succ fun d fuel rest hfuel _ => ?_
  cases fields with
  | nil =>
    rw [renderAt]
    rfl
  | cons field fields =>
    obtain ⟨key, value⟩ := field
    obtain ⟨hvalue, hfields⟩ : Reads l value ∧ ∀ f ∈ fields, Reads l f.2 :=
      List.forall_mem_cons.mp h
    simp only [renderAt, List.length_append, List.length_cons, List.length_nil] at hfuel
    have hlen : (renderAt l (d + 1) value ++ renderFields l (d + 1) fields).length < fuel := by
      rw [List.length_append]
      omega
    have hread := readFields_render hfields key hvalue rest hlen d
    simp only [renderAt, List.append_assoc, List.cons_append, List.nil_append] at hread ⊢
    rw [readValue_brace, readFields_gap fun _ => isBlank_lineBreak, hread, Option.map_some]
    rw [skipBlanks_lineBreak]
    exact fun hclose => nomatch hclose

/-- Every value is read back from its text. -/
theorem reads_render (l : Layout) (j : Json) : Reads l j := by
  induction j using Json.induction with
  | null => exact Reads.of_succ fun d fuel rest _ _ => by rw [renderAt]; rfl
  | bool b => cases b <;> exact Reads.of_succ fun d fuel rest _ _ => by rw [renderAt]; rfl
  | number n =>
    refine Reads.of_succ fun d fuel rest _ hrest => ?_
    have hread := readNumber_ofInt n hrest
    obtain ⟨c, t, hc, hfirst⟩ := ofInt_first n
    rw [hc, List.cons_append] at hread
    rw [renderAt, hc, List.cons_append, readValue_number hfirst, hread, Option.map_some]
  | string t =>
    refine Reads.of_succ fun d fuel rest _ _ => ?_
    have hread := readString_render t rest
    rw [renderAt, renderString, List.append_assoc, List.cons_append, List.singleton_append,
      readValue, skipBlanks_cons rfl]
    simp only [hread, if_true, Option.map_some]
  | array items ih => exact reads_array ih
  | object fields ih => exact reads_object ih

theorem ofText?_render (l : Layout) (j : Json) (gap : Text) (h : ∀ c ∈ gap, isBlank c = true) :
    ofText? (j.render l ++ gap) = some j := by
  have hstops : Text.Stops isNumberChar gap := by
    intro c hc
    have hblank := h c (List.mem_of_head? hc)
    simp only [isBlank, Bool.or_eq_true, beq_iff_eq] at hblank
    rcases hblank with ((rfl | rfl) | rfl) | rfl <;> rfl
  have hread : readValue ((j.render l ++ gap).length + 1) (j.render l ++ gap) = some (j, gap) := by
    refine reads_render l j 0 _ gap ?_ hstops
    rw [List.length_append]
    exact Nat.le_succ_of_le (Nat.le_add_right _ _)
  have hskip : skipBlanks gap = [] := List.dropWhile_eq_nil_iff.mpr h
  rw [ofText?, hread]
  exact if_pos hskip

/-- The reader also takes what is not written: other blanks, and other escapes. -/
example : ofText? "\t[ \"\\u00e9\\/\",-12 ]" = some (.array [.string "é/", .number (-12)]) := by
  cbv

end Values

section Characters

variable {l : Layout} {d : Nat} {u v : Text}

def isVisible (c : Char) : Bool := 0x20 ≤ c.toNat && c.toNat ≤ 0x7e

def Layout.Writes (l : Layout) (t : Text) : Prop :=
  ∀ c ∈ t, isVisible c = true ∨ (c = '\n' ∧ l ≠ .oneLine)

theorem Layout.writes_append : l.Writes (u ++ v) ↔ l.Writes u ∧ l.Writes v :=
  List.forall_mem_append

theorem Layout.writes_visible (h : u.all isVisible = true) : l.Writes u :=
  fun c hc => Or.inl (List.all_eq_true.mp h c hc)

theorem Layout.writes_cons {c : Char} (h : isVisible c = true) (hu : l.Writes u) :
    l.Writes (c :: u) :=
  List.forall_mem_cons.mpr ⟨Or.inl h, hu⟩

theorem Layout.writes_lineBreak : l.Writes (l.lineBreak d) := by
  intro c hc
  cases l with
  | oneLine => simp [lineBreak] at hc
  | indented width =>
    rcases List.mem_cons.mp hc with rfl | hc
    · exact Or.inr ⟨rfl, nofun⟩
    · rw [List.eq_of_mem_replicate hc]
      exact Or.inl rfl

theorem Layout.writes_separator : l.Writes (l.separator d) := by
  cases l with
  | oneLine =>
    rw [separator]
    exact writes_visible rfl
  | indented width =>
    rw [separator]
    exact writes_cons rfl writes_lineBreak

theorem visible_hexDigits {c : Char} {width n : Nat} (h : c ∈ Text.hexDigits width n) :
    isVisible c = true := by
  have hdigits : ∀ n < 16, isVisible (Nat.digitChar n) = true := by decide
  induction width generalizing n with
  | zero => exact nomatch h
  | succ width ih =>
    rcases List.mem_append.mp h with h | h
    · exact ih h
    · rw [List.mem_singleton.mp h]
      exact hdigits _ (Nat.mod_lt _ (by decide))

theorem writes_escapeChar (c : Char) : l.Writes (escapeChar c) := by
  unfold escapeChar
  split_ifs with h1 h2 h3 h4 h5 h6 h7 h8
  · exact Layout.writes_visible rfl
  · exact Layout.writes_visible rfl
  · exact Layout.writes_visible rfl
  · exact Layout.writes_visible rfl
  · exact Layout.writes_visible rfl
  · exact Layout.writes_visible rfl
  · exact Layout.writes_visible rfl
  · have hvisible : isVisible c = true := by
      simpa [isVisible, Char.le_def, UInt32.le_iff_toNat_le] using h8
    exact Layout.writes_cons hvisible (Layout.writes_visible rfl)
  · intro x hx
    obtain ⟨u, -, hu⟩ := List.mem_flatMap.mp hx
    rcases List.mem_append.mp hu with hu | hu
    · exact Layout.writes_visible (u := "\\u") rfl x hu
    · exact Or.inl (visible_hexDigits hu)

theorem writes_renderString (t : Text) : l.Writes (renderString t) := by
  refine Layout.writes_cons rfl (Layout.writes_append.mpr ⟨?_, Layout.writes_visible rfl⟩)
  intro c hc
  obtain ⟨x, -, hx⟩ := List.mem_flatMap.mp hc
  exact writes_escapeChar x c hx

theorem writes_ofNat (n : Nat) : l.Writes (Text.ofNat n) := by
  intro c hc
  have hd := isDigit_ofNat hc
  simp only [Char.isDigit, Bool.and_eq_true, decide_eq_true_eq, UInt32.le_iff_toNat_le] at hd
  refine Or.inl ?_
  simp only [isVisible, Bool.and_eq_true, decide_eq_true_eq]
  exact ⟨Nat.le_trans (by decide) hd.1, Nat.le_trans hd.2 (by decide)⟩

theorem writes_ofInt (n : Int) : l.Writes (Text.ofInt n) := by
  cases n with
  | ofNat n => exact writes_ofNat n
  | negSucc n => exact Layout.writes_cons rfl (writes_ofNat (n + 1))

theorem writes_renderItems {items : List Json}
    (h : ∀ item ∈ items, ∀ d, l.Writes (renderAt l d item)) : l.Writes (renderItems l d items) := by
  induction items with
  | nil => exact Layout.writes_visible rfl
  | cons item items ih =>
    obtain ⟨hitem, hitems⟩ := List.forall_mem_cons.mp h
    exact Layout.writes_append.mpr
      ⟨Layout.writes_append.mpr ⟨Layout.writes_separator, hitem d⟩, ih hitems⟩

theorem writes_renderFields {fields : List (Text × Json)}
    (h : ∀ f ∈ fields, ∀ d, l.Writes (renderAt l d f.2)) : l.Writes (renderFields l d fields) := by
  induction fields with
  | nil => exact Layout.writes_visible rfl
  | cons field fields ih =>
    obtain ⟨hvalue, hfields⟩ := List.forall_mem_cons.mp h
    simp only [renderFields, Layout.writes_append]
    exact ⟨⟨⟨⟨Layout.writes_separator, writes_renderString _⟩, Layout.writes_visible rfl⟩,
      hvalue d⟩, ih hfields⟩

theorem writes_renderAt (l : Layout) (d : Nat) (j : Json) : l.Writes (renderAt l d j) := by
  induction j using Json.induction generalizing d with
  | null =>
    rw [renderAt]
    exact Layout.writes_visible rfl
  | bool b =>
    cases b <;> rw [renderAt] <;> exact Layout.writes_visible rfl
  | number n =>
    rw [renderAt]
    exact writes_ofInt n
  | string t =>
    rw [renderAt]
    exact writes_renderString t
  | array items ih =>
    cases items with
    | nil =>
      rw [renderAt]
      exact Layout.writes_visible rfl
    | cons item items =>
      obtain ⟨hitem, hitems⟩ := List.forall_mem_cons.mp ih
      simp only [renderAt, Layout.writes_append]
      exact ⟨⟨⟨⟨Layout.writes_cons rfl Layout.writes_lineBreak, hitem _⟩,
        writes_renderItems hitems⟩, Layout.writes_lineBreak⟩, Layout.writes_visible rfl⟩
  | object fields ih =>
    cases fields with
    | nil =>
      rw [renderAt]
      exact Layout.writes_visible rfl
    | cons field fields =>
      obtain ⟨hvalue, hfields⟩ := List.forall_mem_cons.mp ih
      simp only [renderAt, Layout.writes_append]
      exact ⟨⟨⟨⟨⟨⟨Layout.writes_cons rfl Layout.writes_lineBreak, writes_renderString _⟩,
        Layout.writes_visible rfl⟩, hvalue _⟩, writes_renderFields hfields⟩,
        Layout.writes_lineBreak⟩, Layout.writes_visible rfl⟩

theorem newline_render (j : Json) : '\n' ∉ j.render .oneLine := by
  intro h
  rcases writes_renderAt .oneLine 0 j _ h with h | ⟨-, h⟩
  · cases h
  · exact h rfl

theorem escape_render (l : Layout) (j : Json) : '\x1b' ∉ j.render l := by
  intro h
  rcases writes_renderAt l 0 j _ h with h | ⟨h, -⟩
  · cases h
  · exact absurd h (by decide)

end Characters

end Shebang.Json
